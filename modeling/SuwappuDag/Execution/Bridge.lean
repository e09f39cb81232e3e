/-
  THE BRIDGE ESCROW, and what users can do to the accounts of the protocol.

  1. **Accounting** — by the books the escrow holds what `GenesisAllocation` put there, plus what
     successful locks brought, minus what successful burns took.  Two kinds of steps break the books:
     a lock BY the escrow itself, which moves nothing and counts, and a burn that fails between its
     debit and its credit, which moves something and does not count.  Both leave less in the escrow than
     the books say, so the difference never heals, and the books are right exactly as long as no such
     step is taken (`escrow_booked_iff`).
  2. **Protocol funds** — of the seven intents users send, six ask whether the account they debit is
     reserved.  `L1Lock` does not: it spends whatever account it names
     (`reserved_not_lowered_iff`).
-/
import SuwappuDag.Execution.History
import SuwappuDag.Execution.Arms

namespace SuwappuDag.Execution

open Words Command Reserved InMemorySubstrate
open Std (ExtTreeMap)

/-! ## The books of the escrow -/

section Books

variable (blake3 : List UInt8 → Bytes32)

/-- What a genesis allocation credits to the escrow. -/
def escrowGrant : Intent → Nat
  | .genesisAllocation allocations => creditedTo allocations (bridgeEscrowAddress blake3)
  | _ => 0

def lockAmount : Intent → Nat
  | .l1Lock _ _ amount _ => amount.toNat
  | _ => 0

def burnAmount : Intent → Nat
  | .l2BurnProven _ _ amount _ _ _ => amount.toNat
  | _ => 0

/-- The application leaves less in the escrow than the books say: a lock of the escrow by itself, or
    a burn that the escrow can pay and the recipient cannot take. -/
def Applied.Leaks (a : Applied) : Prop :=
  match a.intent with
  | .l1Lock user _ amount assetId => user = bridgeEscrowAddress blake3 ∧ amount ≠ 0 ∧
      assertBridgeAssetActive blake3 assetId a.before = .ok () ∧
      amount ≤ a.before.balance (bridgeEscrowAddress blake3)
  | .l2BurnProven batchId recipient amount path assetId chain =>
      LateBurn blake3 a.before batchId recipient amount path assetId chain ∧
      amount ≤ a.before.balance (bridgeEscrowAddress blake3)
  | _ => False

/-- The escrow holds what the books say about the history. -/
def EscrowBooked (l : List Applied) (s : InMemorySubstrate) : Prop :=
  ((s.balance (bridgeEscrowAddress blake3)).toNat : ℤ) =
    collected blake3 (escrowGrant blake3) l + collected blake3 lockAmount l
      - collected blake3 burnAmount l

end Books

section Escrow

variable {blake3 : List UInt8 → Bytes32}

/-- What an application books under `amount`. -/
theorem booked_of_error {amount : Intent → Nat} {a : Applied} {e : ExecutionError}
    (h : (applyIntent blake3 a.intent a.before).1 = .error e) :
    (if a.Succeeds blake3 then amount a.intent else 0) = 0 := by
  rw [if_neg]
  unfold Applied.Succeeds
  rw [h]
  exact fun h => by cases h

/-- The balance of the escrow and the books of one application; `d` is what it leaks. -/
def EscrowStep (blake3 : List UInt8 → Bytes32) (a : Applied) (d : Nat) : Prop :=
  ((a.after blake3).balance (bridgeEscrowAddress blake3)).toNat + d
      + (if a.Succeeds blake3 then burnAmount a.intent else 0) =
    (a.before.balance (bridgeEscrowAddress blake3)).toNat
      + (if a.Succeeds blake3 then escrowGrant blake3 a.intent else 0)
      + (if a.Succeeds blake3 then lockAmount a.intent else 0)

/-- Away from the bridge nothing moves and nothing is booked. -/
theorem escrowStep_of_frame {a : Applied} (hframe : (a.after blake3).balance
      (bridgeEscrowAddress blake3) = a.before.balance (bridgeEscrowAddress blake3))
    (hgrant : escrowGrant blake3 a.intent = 0) (hlock : lockAmount a.intent = 0)
    (hburn : burnAmount a.intent = 0) : EscrowStep blake3 a 0 := by
  unfold EscrowStep
  rw [hframe, hgrant, hlock, hburn]
  simp

/-- An application that fails without a move of the escrow books nothing. -/
theorem escrowStep_of_error {a : Applied} {e : ExecutionError} {d : Nat}
    (herr : (applyIntent blake3 a.intent a.before).1 = .error e)
    (hmove : ((a.after blake3).balance (bridgeEscrowAddress blake3)).toNat + d =
      (a.before.balance (bridgeEscrowAddress blake3)).toNat) : EscrowStep blake3 a d := by
  unfold EscrowStep
  rw [booked_of_error herr, booked_of_error herr, booked_of_error herr]
  omega

theorem genesis_escrowStep (s : InMemorySubstrate) (allocations : List (Address × Balance)) :
    EscrowStep blake3 ⟨.genesisAllocation allocations, s⟩ 0 := by
  rcases hrun : applyIntent blake3 (.genesisAllocation allocations) s with ⟨e | ⟨⟨⟩⟩, t⟩
  · have ht : t = s := applyGenesisAllocation_atomicAt s allocations e t hrun
    refine escrowStep_of_error (e := e) (by rw [hrun]) ?_
    rw [Applied.after, hrun, ht]
    rfl
  · have hsum := applyGenesisAllocation_balance hrun (bridgeEscrowAddress blake3)
    have hok : Applied.Succeeds blake3 ⟨.genesisAllocation allocations, s⟩ := by
      rw [Applied.Succeeds, hrun]
    rw [EscrowStep, Applied.after, hrun, if_pos hok, if_pos hok, if_pos hok, hsum]
    rfl

/-- A lock adds its amount to the escrow, unless it is the escrow's own. -/
theorem lock_escrowStep (s : InMemorySubstrate) (user l2 : Address) (amount : Balance)
    (assetId : Option Bytes32) :
    ∃ d, EscrowStep blake3 ⟨.l1Lock user l2 amount assetId, s⟩ d ∧
      (d = 0 ↔ ¬ Applied.Leaks blake3 ⟨.l1Lock user l2 amount assetId, s⟩) := by
  by_cases h0 : amount = 0
  · -- nothing is locked
    refine ⟨0, ?_, by simp [Applied.Leaks, h0]⟩
    subst h0
    refine escrowStep_of_frame ?_ rfl rfl rfl
    rfl
  have hrun : applyIntent blake3 (.l1Lock user l2 amount assetId) s =
      (fetch (assertBridgeAssetActive blake3 assetId) >>= fun _ =>
        debitThenCredit user (bridgeEscrowAddress blake3) amount) s := by
    show applyL1Lock blake3 user amount assetId s = _
    rw [applyL1Lock, if_neg h0]
  cases hasset : assertBridgeAssetActive blake3 assetId s with
  | error e =>
    rw [fetch_bind_run_error hasset] at hrun
    refine ⟨0, escrowStep_of_error (e := e) (by rw [hrun]) (by rw [Applied.after, hrun]; rfl), ?_⟩
    simp [Applied.Leaks, hasset]
  | ok u =>
    rw [fetch_bind_run_ok hasset] at hrun
    rcases hmove : debitThenCredit user (bridgeEscrowAddress blake3) amount s
      with ⟨e | ⟨⟨⟩⟩, t⟩ <;> rw [hmove] at hrun
    · refine ⟨0, escrowStep_of_error (e := e) (by rw [hrun]) ?_, ?_⟩ <;>
        rcases debitThenCredit_eq_error_iff.mp hmove with ⟨hshort, -, rfl⟩ | ⟨hlate, -, rfl⟩
      · rw [Applied.after, hrun]
        rfl
      · rw [Applied.after, hrun, balance_storeBalance, Function.update_of_ne hlate.1.symm]
        rfl
      · simp only [Applied.Leaks, true_iff]
        rintro ⟨rfl, -, -, hle⟩
        exact absurd hshort (not_lt.mpr hle)
      · simp only [Applied.Leaks, true_iff]
        rintro ⟨rfl, -⟩
        exact hlate.1 rfl
    · have hok : Applied.Succeeds blake3 ⟨.l1Lock user l2 amount assetId, s⟩ := by
        rw [Applied.Succeeds, hrun]
      have heffect := debitThenCredit_balance hmove (bridgeEscrowAddress blake3)
      have hpos : 0 < amount.toNat := Nat.pos_of_ne_zero fun h => h0 (BitVec.eq_of_toNat_eq h)
      have hstep : ∀ d : Nat, (t.balance (bridgeEscrowAddress blake3)).toNat + d =
          (s.balance (bridgeEscrowAddress blake3)).toNat + amount.toNat →
          EscrowStep blake3 ⟨.l1Lock user l2 amount assetId, s⟩ d := by
        intro d hd
        rw [EscrowStep, Applied.after, hrun, if_pos hok, if_pos hok, if_pos hok]
        simp only [burnAmount, escrowGrant, lockAmount]
        omega
      by_cases huser : user = bridgeEscrowAddress blake3
      · -- the escrow pays itself
        rw [huser, moved_self, add_zero] at heffect
        refine ⟨amount.toNat, hstep _ (by omega), iff_of_false (by omega) (not_not.mpr ?_)⟩
        obtain ⟨⟨⟩, v, hdebit, -⟩ := bind_eq_ok_iff.mp hmove
        rcases debitUnchecked_eq_ok_iff.mp hdebit with ⟨h, -⟩ | ⟨-, hle, -⟩
        · exact absurd h h0
        · exact ⟨huser, h0, hasset, huser ▸ hle⟩
      · rw [moved_dest huser] at heffect
        refine ⟨0, hstep 0 (by omega), iff_of_true rfl ?_⟩
        exact fun h => huser h.1

theorem lateBurn_iff {s : InMemorySubstrate} {b : Burn} :
    LateBurn blake3 s b.batchId b.recipient b.amount b.merklePath b.assetId b.l2ChainIdHash ↔
      b.amount ≠ 0 ∧ (∃ set,
        BurnNullifier.decode (recordAt s (burnNullifierRegistryAddress blake3)) = .ok set ∧
        b.id blake3 ∉ set ∧ ¬ isReserved blake3 b.recipient = true ∧
        assertBridgeAssetActive blake3 b.assetId s = .ok () ∧
        b.key ∈ (l2Registry blake3 s).stateRoots) ∧
      (s.balance (bridgeEscrowAddress blake3) < b.amount ∨ Overflows s b.recipient b.amount) := by
  constructor
  · rintro ⟨h0, hrec, hasset, hbatch, ⟨set, hdec, hid⟩, hlate⟩
    exact ⟨h0, ⟨set, hdec, hid, hrec, hasset, hbatch⟩, hlate⟩
  · rintro ⟨h0, ⟨set, hdec, hid, hrec, hasset, hbatch⟩, hlate⟩
    exact ⟨h0, hrec, hasset, hbatch, ⟨set, hdec, hid⟩, hlate⟩

/-- A burn takes its amount out of the escrow; it leaks when it fails behind the debit. -/
theorem burn_escrowStep (s : InMemorySubstrate) (b : Burn) :
    ∃ d, EscrowStep blake3 ⟨b.intent, s⟩ d ∧
      (d = 0 ↔ ¬ Applied.Leaks blake3 ⟨b.intent, s⟩) := by
  have hleaks : Applied.Leaks blake3 ⟨b.intent, s⟩ ↔
      LateBurn blake3 s b.batchId b.recipient b.amount b.merklePath b.assetId b.l2ChainIdHash ∧
        b.amount ≤ s.balance (bridgeEscrowAddress blake3) := Iff.rfl
  by_cases h0 : b.amount = 0
  · refine ⟨0, ?_, iff_of_true rfl fun h => (hleaks.mp h).1.1 h0⟩
    have hrun : applyIntent blake3 b.intent s = (.ok (), s) := by
      show applyL2BurnProven blake3 _ _ _ _ _ _ s = _
      rw [applyL2BurnProven, if_pos h0]
      rfl
    refine escrowStep_of_frame (by rw [Applied.after, hrun]) rfl rfl ?_
    show b.amount.toNat = 0
    rw [h0]
    rfl
  have hguarded : Guarded (applyIntent blake3 b.intent) s _ := Burn.guarded h0
  rcases hguarded with ⟨set, hdec, hid, hrec, hasset, hbatch, hrun⟩ | ⟨hnone, e, hrun⟩
  · have hne : bridgeEscrowAddress blake3 ≠ b.recipient :=
      Account.ne_of_not_isReserved hrec .bridgeEscrow
    set s' := s.writeBytesUnchecked (burnNullifierRegistryAddress blake3)
      (BurnNullifier.encode (set.insert (b.id blake3) ())) with hs'
    have hsame : s'.balance = s.balance := balance_writeBytesUnchecked _ _ _
    rcases hmove : debitThenCredit (bridgeEscrowAddress blake3) b.recipient b.amount s'
      with ⟨e | ⟨⟨⟩⟩, t⟩ <;> rw [hmove] at hrun
    · rcases debitThenCredit_eq_error_iff.mp hmove with ⟨hshort, -, rfl⟩ | ⟨hlate, -, rfl⟩
      · -- the escrow is short: it keeps what it has
        refine ⟨0, escrowStep_of_error (e := e) (by rw [hrun]) ?_, iff_of_true rfl ?_⟩
        · rw [Applied.after, hrun, hsame]
          rfl
        · rintro ⟨-, hle⟩
          rw [hsame] at hshort
          exact absurd hshort (not_lt.mpr hle)
      · -- the recipient overflows: the debit stays
        obtain ⟨-, hle, hover⟩ := hlate
        rw [hsame] at hle
        rw [Overflows, hsame] at hover
        have hle' : b.amount.toNat ≤ (s.balance (bridgeEscrowAddress blake3)).toNat := hle
        refine ⟨b.amount.toNat, escrowStep_of_error (e := e) (by rw [hrun]) ?_,
          iff_of_false (fun h => h0 (BitVec.eq_of_toNat_eq h)) (not_not.mpr ⟨?_, hle⟩)⟩
        · rw [Applied.after, hrun, balance_storeBalance, Function.update_self, hsame,
            BitVec.toNat_sub_of_le hle]
          show _ = (s.balance _).toNat
          omega
        · exact lateBurn_iff.mpr ⟨h0, ⟨set, hdec, hid, hrec, hasset, hbatch⟩, Or.inr hover⟩
    · have hok : Applied.Succeeds blake3 ⟨b.intent, s⟩ := by
        rw [Applied.Succeeds, hrun]
      have heffect := debitThenCredit_balance hmove (bridgeEscrowAddress blake3)
      rw [hsame, moved_source hne.symm] at heffect
      refine ⟨0, ?_, iff_of_true rfl ?_⟩
      · rw [EscrowStep, Applied.after, hrun, if_pos hok, if_pos hok, if_pos hok]
        show (t.balance _).toNat + 0 + b.amount.toNat = (s.balance _).toNat + 0 + 0
        omega
      · -- a burn that goes through is none that fails late
        rintro ⟨hlate, hle⟩
        have herr : ∃ e t, applyL2BurnProven blake3 b.batchId b.recipient b.amount b.merklePath
            b.assetId b.l2ChainIdHash s = (.error e, t) ∧ ¬ Untouched blake3 s t :=
          (applyL2BurnProven_tearsIff _ _ _ _ _ _).torn hlate
        obtain ⟨e, t', herr, -⟩ := herr
        have hclash : (Except.error e, t') = (Except.ok (), t) := herr.symm.trans hrun
        cases hclash
  · refine ⟨0, escrowStep_of_error (e := e) (by rw [hrun]) (by rw [Applied.after, hrun]; rfl),
      iff_of_true rfl ?_⟩
    rintro ⟨hlate, -⟩
    obtain ⟨-, ⟨set, hdec, hid, hrec, hasset, hbatch⟩, -⟩ := lateBurn_iff.mp hlate
    exact hnone _ ⟨set, hdec, hid, hrec, hasset, hbatch, rfl⟩

/-- **One application**: the escrow moves by what is booked, less what leaks. -/
theorem escrow_step (hres : ReservedDistinct blake3) (a : Applied) :
    ∃ d, EscrowStep blake3 a d ∧ (d = 0 ↔ ¬ a.Leaks blake3) := by
  obtain ⟨intent, s⟩ := a
  have hother : Account.bridgeEscrow ∉ intent.footprint.pools → intent.footprint.ungated = [] →
      escrowGrant blake3 intent = 0 → lockAmount intent = 0 → burnAmount intent = 0 →
      ¬ Applied.Leaks blake3 ⟨intent, s⟩ →
      ∃ d, EscrowStep blake3 ⟨intent, s⟩ d ∧ (d = 0 ↔ ¬ Applied.Leaks blake3 ⟨intent, s⟩) := by
    intro hpools hungated hgrant hlock hburn hleaks
    refine ⟨0, escrowStep_of_frame ?_ hgrant hlock hburn, iff_of_true rfl hleaks⟩
    refine (applyIntent_touches hres s intent).balance_eq (a := .bridgeEscrow) hpools ?_
    rw [hungated]
    exact List.not_mem_nil
  cases intent with
  | genesisAllocation allocations =>
    exact ⟨0, genesis_escrowStep s allocations, iff_of_true rfl id⟩
  | l1Lock user l2 amount assetId => exact lock_escrowStep s user l2 amount assetId
  | l2BurnProven batchId recipient amount path assetId chain =>
    exact burn_escrowStep s ⟨batchId, recipient, amount, path, assetId, chain⟩
  | distributeRewards epoch ring recipients =>
    refine hother ?_ rfl rfl rfl rfl id
    cases ring <;> simp [Intent.footprint, Ring.rewardsPool]
  | slashSequencer reason hash =>
    cases reason <;> exact hother (by simp [Intent.footprint]) rfl rfl rfl rfl id
  | _ => exact hother (by simp [Intent.footprint, Ring.footprint]) rfl rfl rfl rfl id

/-- **Bridge accounting.**  In the state any run from the empty substrate reaches, the escrow holds the
    genesis credits plus the successful locks minus the successful burns, EXACTLY when no application
    of the run was a lock of the escrow by itself or a burn that failed behind its debit. -/
theorem escrow_booked_iff (hres : ReservedDistinct blake3) (calls : List SubstrateCall) :
    EscrowBooked blake3 (history blake3 calls new) (runCalls blake3 calls new) ↔
      ∀ a ∈ history blake3 calls new, ¬ a.Leaks blake3 := by
  -- the books exceed the escrow by what has leaked so far
  have hgap : ∃ d : Nat, (((runCalls blake3 calls new).balance (bridgeEscrowAddress blake3)).toNat + d
        + collected blake3 burnAmount (history blake3 calls new) =
      collected blake3 (escrowGrant blake3) (history blake3 calls new)
        + collected blake3 lockAmount (history blake3 calls new)) ∧
      (d = 0 ↔ ∀ a ∈ history blake3 calls new, ¬ a.Leaks blake3) := by
    refine history_invariant (P := fun l t => ∃ d : Nat,
        ((t.balance (bridgeEscrowAddress blake3)).toNat + d + collected blake3 burnAmount l =
          collected blake3 (escrowGrant blake3) l + collected blake3 lockAmount l) ∧
        (d = 0 ↔ ∀ a ∈ l, ¬ a.Leaks blake3)) ?_ ?_ ?_ calls
    · exact ⟨0, rfl, iff_of_true rfl (by simp)⟩
    · exact fun l t height h => h
    · rintro l t intent ⟨d, hsum, hd⟩
      obtain ⟨d', hstep, hd'⟩ := escrow_step hres ⟨intent, t⟩
      refine ⟨d + d', ?_, ?_⟩
      · rw [collected_concat, collected_concat, collected_concat]
        simp only [EscrowStep, Applied.after] at hstep ⊢
        omega
      · rw [List.forall_mem_append, List.forall_mem_singleton, ← hd, ← hd']
        omega
  obtain ⟨d, hsum, hd⟩ := hgap
  rw [← hd, EscrowBooked]
  omega

/-- A user funded at genesis locks three of seven tokens. -/
def honestLock : List SubstrateCall :=
  [.applyIntent (.genesisAllocation [(1, 7)]), .applyIntent (.l1Lock 1 2 3 none)]

/-- The escrow, funded at genesis, is named as the locking user. -/
def selfLock : List SubstrateCall :=
  [ .applyIntent (.genesisAllocation [(bridgeEscrowAddress Blake3.hash, 5)]),
    .applyIntent (.l1Lock (bridgeEscrowAddress Blake3.hash) 2 5 none) ]

/-- The equivalence on both of its sides. -/
theorem escrow_booked_iff_locks :
    EscrowBooked Blake3.hash (history Blake3.hash honestLock new)
        (runCalls Blake3.hash honestLock new) ∧
      ¬ EscrowBooked Blake3.hash (history Blake3.hash selfLock new)
        (runCalls Blake3.hash selfLock new) := by
  constructor
  · refine (escrow_booked_iff blake3_reservedDistinct _).mpr ?_
    simp only [honestLock, history, List.forall_mem_cons, List.not_mem_nil, false_implies,
      implies_true, and_true]
    refine ⟨id, fun h => absurd h.1 ?_⟩
    decide +kernel
  · intro h
    refine (escrow_booked_iff blake3_reservedDistinct _).mp h _ (List.mem_cons_of_mem _
      List.mem_cons_self) ⟨rfl, ?_, rfl, ?_⟩ <;> decide +kernel

/-- The books say ten, the escrow holds five. -/
theorem selfLock_unbooked :
    let h := history Blake3.hash selfLock new
    let s := runCalls Blake3.hash selfLock new
    (s.balance (bridgeEscrowAddress Blake3.hash)).toNat = 5 ∧
      collected Blake3.hash (escrowGrant Blake3.hash) h = 5 ∧
      collected Blake3.hash lockAmount h = 5 ∧ collected Blake3.hash burnAmount h = 0 ∧
      ¬ EscrowBooked Blake3.hash h s := by
  refine ⟨?_, ?_, ?_, ?_, ?_⟩
  · decide +kernel
  · decide +kernel
  · decide +kernel
  · decide +kernel
  · unfold EscrowBooked
    decide +kernel

end Escrow

/-! ## Protocol funds -/

section ProtocolFunds

variable (blake3 : List UInt8 → Bytes32)

/-- The intents a user sends: they debit an account that the user names. -/
def Intent.isUserOriginated : Intent → Bool
  | .transfer .. => true
  | .l1Lock .. => true
  | .delegate .. => true
  | .depositSequencerBond .. => true
  | .depositSafetyBond .. => true
  | .depositAuthorityStake .. => true
  | .depositValidatorStake .. => true
  | _ => false

/-- The intent spends an account of the protocol: a lock that names one which can pay it, and which is
    not the escrow itself. -/
def SpendsReserved (s : InMemorySubstrate) : Intent → Prop
  | .l1Lock user _ amount assetId => isReserved blake3 user = true ∧
      user ≠ bridgeEscrowAddress blake3 ∧ amount ≠ 0 ∧
      assertBridgeAssetActive blake3 assetId s = .ok () ∧ amount ≤ s.balance user
  | _ => False

/-- No reserved balance is lower than it was. -/
def ReservedKept (s t : InMemorySubstrate) : Prop :=
  ∀ a, isReserved blake3 a = true → s.balance a ≤ t.balance a

variable {blake3} {s : InMemorySubstrate}

instance : IsPreorder InMemorySubstrate (ReservedKept blake3) where
  refl _ _ _ := le_refl _
  trans _ _ _ hst htu a ha := le_trans (hst a ha) (htu a ha)

theorem reservedKept_storeBalance {source : Address} (h : ¬ isReserved blake3 source = true)
    (v : Balance) : ReservedKept blake3 s (s.storeBalance source v) := by
  intro a ha
  rw [balance_storeBalance, Function.update_of_ne]
  rintro rfl
  exact h ha

theorem reservedKept_insertBalance {dest : Address} {v : Balance} (h : s.balance dest ≤ v) :
    ReservedKept blake3 s (s.insertBalance dest v) := by
  intro a ha
  rw [balance_insertBalance, Function.update_apply]
  split
  · next heq => rwa [heq]
  · exact le_refl _

theorem reservedKept_writeBytes (addr : Address) (bytes : List UInt8) :
    ReservedKept blake3 s (s.writeBytesUnchecked addr bytes) := by
  intro a _
  rw [balance_writeBytesUnchecked]

theorem le_of_addOr {e : ExecutionError} {a b c : Balance} (h : addOr e a b = .ok c) : a ≤ c := by
  have := addOr_eq_ok_iff.mp h
  rw [BitVec.le_def]
  omega

/-- The move of an unreserved user's money, written in one go. -/
theorem reservedKept_move {source dest : Address} (h : ¬ isReserved blake3 source = true)
    {v w : Balance} (hw : s.balance dest ≤ w) :
    ReservedKept blake3 s ((s.storeBalance source v).insertBalance dest w) := by
  intro a ha
  have hne : a ≠ source := fun heq => h (heq ▸ ha)
  rw [balance_insertBalance, balance_storeBalance, Function.update_apply]
  split
  · next heq => rwa [heq]
  · rw [Function.update_of_ne hne]

theorem debitUnchecked_keeps {source : Address} (h : ¬ isReserved blake3 source = true)
    (amount : Balance) : Leads (ReservedKept blake3) (debitUnchecked source amount) s :=
  leads_ite (fun _ => leads_pure ()) fun _ => leads_read_bind <| leads_failIf_bind fun _ =>
    leads_write (reservedKept_storeBalance h _)

theorem creditUnchecked_keeps (dest : Address) (amount : Balance) :
    Leads (ReservedKept blake3) (creditUnchecked dest amount) s :=
  leads_ite (fun _ => leads_pure ()) fun _ => leads_fetch_bind fun v hv =>
    leads_write (reservedKept_insertBalance (le_of_addOr hv))

theorem debitThenCredit_keeps {source : Address} (h : ¬ isReserved blake3 source = true)
    (dest : Address) (amount : Balance) :
    Leads (ReservedKept blake3) (debitThenCredit source dest amount) s :=
  (debitUnchecked_keeps h amount).bind fun _ _ _ => creditUnchecked_keeps dest amount

theorem transferInternal_keeps {source : Address} (h : ¬ isReserved blake3 source = true)
    (dest : Address) (amount : Balance) :
    Leads (ReservedKept blake3) (transferInternal source dest amount) s :=
  leads_ite (fun _ => leads_pure ()) fun _ => leads_read_bind <| leads_failIf_bind fun _ =>
    leads_ite (fun _ => leads_pure ()) fun _ => leads_fetch_bind fun v hv =>
      leads_write (reservedKept_move h (le_of_addOr hv))

theorem applyTransfer_keeps (source dest : Address) (amount : Balance) :
    Leads (ReservedKept blake3) (applyTransfer blake3 source dest amount) s :=
  leads_failIf_bind fun hsource => leads_failIf_bind fun _ =>
    leads_ite (fun _ => leads_pure ()) fun _ => leads_read_bind <| leads_failIf_bind fun _ =>
      leads_ite (fun _ => leads_pure ()) fun _ => leads_fetch_bind fun v hv =>
        leads_write (reservedKept_move hsource (le_of_addOr hv))

theorem applyDeposit_keeps (source pool : Address) (amount : Balance) :
    Leads (ReservedKept blake3) (applyPoolMove blake3 source source pool amount) s :=
  leads_ite (fun _ => leads_pure ()) fun _ => leads_failIf_bind fun hsource =>
    debitThenCredit_keeps hsource pool amount

theorem applyDepositStake_keeps (ring : Ring) (source : Address) (id : UInt32) (amount : Balance) :
    Leads (ReservedKept blake3) (applyDepositStake blake3 ring source id amount) s :=
  leads_ite (fun _ => leads_pure ()) fun _ => leads_failIf_bind fun hsource =>
    leads_fetch_bind fun _ _ => leads_fetch_bind fun _ _ => leads_failIf_bind fun _ =>
    leads_fetch_bind fun _ _ => leads_fetch_bind fun _ _ =>
      (transferInternal_keeps hsource _ amount).bind fun _ _ _ =>
        leads_write (reservedKept_writeBytes _ _)

theorem applyDelegate_keeps (source : Address) (id : UInt32) (amount : Balance) :
    Leads (ReservedKept blake3) (applyDelegate blake3 source id amount) s :=
  leads_ite (fun _ => leads_pure ()) fun _ => leads_failIf_bind fun hsource =>
    leads_fetch_bind fun _ _ => leads_fetch_bind fun _ _ => leads_failIf_bind fun _ =>
    leads_fetch_bind fun _ _ => leads_fetch_bind fun _ _ => leads_fetch_bind fun _ _ =>
      (transferInternal_keeps hsource _ amount).bind fun _ _ _ =>
        leads_write (reservedKept_writeBytes _ _)

/-- A debit that goes through is still there when the credit to somebody else is over, whether that
    went through or not. -/
theorem debitThenCredit_source {source dest : Address} {amount : Balance} (hne : source ≠ dest)
    (hle : amount ≤ s.balance source) :
    (debitThenCredit source dest amount s).2.balance source = s.balance source - amount := by
  rcases hrun : debitThenCredit source dest amount s with ⟨e | ⟨⟨⟩⟩, t⟩
  · rcases debitThenCredit_eq_error_iff.mp hrun with ⟨hshort, -⟩ | ⟨-, -, rfl⟩
    · exact absurd hshort (not_lt.mpr hle)
    · rw [balance_storeBalance, Function.update_self]
  · have heffect := debitThenCredit_balance hrun source
    have hle' : amount.toNat ≤ (s.balance source).toNat := hle
    rw [moved_source hne.symm] at heffect
    apply BitVec.eq_of_toNat_eq
    rw [BitVec.toNat_sub_of_le hle]
    show (t.balance source).toNat = _
    omega

theorem applyL1Lock_keeps_iff (user l2 : Address) (amount : Balance) (assetId : Option Bytes32) :
    ReservedKept blake3 s (applyIntent blake3 (.l1Lock user l2 amount assetId) s).2 ↔
      ¬ SpendsReserved blake3 s (.l1Lock user l2 amount assetId) := by
  show Leads (ReservedKept blake3) (applyL1Lock blake3 user amount assetId) s ↔ _
  unfold applyL1Lock
  by_cases h0 : amount = 0
  · rw [if_pos h0]
    exact iff_of_true (leads_pure ()) fun h => h.2.2.1 h0
  rw [if_neg h0]
  cases hasset : assertBridgeAssetActive blake3 assetId s with
  | error e =>
    rw [Leads, fetch_bind_run_error hasset]
    refine iff_of_true (refl s) fun h => ?_
    rw [SpendsReserved, hasset] at h
    exact absurd h.2.2.2.1 (by simp)
  | ok u =>
    rw [Leads, fetch_bind_run_ok hasset]
    by_cases huser : isReserved blake3 user = true
    swap
    · exact iff_of_true (debitThenCredit_keeps huser _ _) fun h => huser h.1
    by_cases hescrow : user = bridgeEscrowAddress blake3
    · -- the escrow pays itself
      refine iff_of_true (fun a ha => ?_) fun h => h.2.1 hescrow
      rcases hrun : debitThenCredit user (bridgeEscrowAddress blake3) amount s with ⟨e | ⟨⟨⟩⟩, t⟩
      · rcases debitThenCredit_eq_error_iff.mp hrun with ⟨-, -, rfl⟩ | ⟨hlate, -⟩
        · exact le_refl _
        · exact absurd hescrow hlate.1
      · have heffect := debitThenCredit_balance hrun a
        rw [hescrow, moved_self] at heffect
        rw [BitVec.le_def]
        show _ ≤ (t.balance a).toNat
        omega
    by_cases hle : amount ≤ s.balance user
    · refine iff_of_false (fun hkept => ?_) (not_not.mpr ⟨huser, hescrow, h0, hasset, hle⟩)
      have hlow := hkept user huser
      rw [debitThenCredit_source hescrow hle, BitVec.le_def, BitVec.toNat_sub_of_le hle] at hlow
      have hle' : amount.toNat ≤ (s.balance user).toNat := hle
      have hpos : amount.toNat ≠ 0 := fun h => h0 (BitVec.eq_of_toNat_eq h)
      omega
    · refine iff_of_true ?_ fun h => hle h.2.2.2.2
      rw [debitThenCredit_eq_error_iff.mpr (Or.inl ⟨not_le.mp hle, rfl, rfl⟩)]
      exact refl s

/-- **What users can spend.**  For every state and every intent a user sends, with any fields: applying
    it lowers no reserved balance EXACTLY when it is not a lock that names a reserved account other
    than the escrow, for an amount that this account holds. -/
theorem reserved_not_lowered_iff (s : InMemorySubstrate) (intent : Intent)
    (huser : intent.isUserOriginated = true) :
    (∀ a, isReserved blake3 a = true →
        s.balance a ≤ (applyIntent blake3 intent s).2.balance a) ↔
      ¬ SpendsReserved blake3 s intent := by
  show ReservedKept blake3 s (applyIntent blake3 intent s).2 ↔ _
  cases intent with
  | transfer source dest amount => exact iff_of_true (applyTransfer_keeps source dest amount) id
  | l1Lock user l2 amount assetId => exact applyL1Lock_keeps_iff user l2 amount assetId
  | delegate source slot amount => exact iff_of_true (applyDelegate_keeps source slot amount) id
  | depositSequencerBond source amount => exact iff_of_true (applyDeposit_keeps source _ amount) id
  | depositSafetyBond source amount => exact iff_of_true (applyDeposit_keeps source _ amount) id
  | depositAuthorityStake source slot amount =>
    exact iff_of_true (applyDepositStake_keeps .authority source slot amount) id
  | depositValidatorStake source slot amount =>
    exact iff_of_true (applyDepositStake_keeps .validator source slot amount) id
  | _ => cases huser

/-- Nine tokens in the treasury, nine with a user. -/
def fundedTreasury : InMemorySubstrate :=
  fromBalances [(treasuryAddress Blake3.hash, 9), (1, 9)]

/-- Both sides: a transfer out of the treasury is refused, a lock of its money is not. -/
theorem reserved_not_lowered_iff_treasury :
    (∀ a, isReserved Blake3.hash a = true → fundedTreasury.balance a ≤
        (applyIntent Blake3.hash (.transfer (treasuryAddress Blake3.hash) 1 9)
          fundedTreasury).2.balance a) ∧
      ¬ ∀ a, isReserved Blake3.hash a = true → fundedTreasury.balance a ≤
        (applyIntent Blake3.hash (.l1Lock (treasuryAddress Blake3.hash) 1 9 none)
          fundedTreasury).2.balance a := by
  refine ⟨(reserved_not_lowered_iff _ _ rfl).mpr id, fun h => ?_⟩
  refine (reserved_not_lowered_iff _ _ rfl).mp h ⟨?_, ?_, ?_, rfl, ?_⟩ <;> decide +kernel

/-- A lock that names the treasury moves its money into the escrow. -/
theorem lock_spends_treasury :
    let r := applyIntent Blake3.hash (.l1Lock (treasuryAddress Blake3.hash) 1 9 none) fundedTreasury
    isReserved Blake3.hash (treasuryAddress Blake3.hash) = true ∧ r.1 = .ok () ∧
      fundedTreasury.balance (treasuryAddress Blake3.hash) = 9 ∧
      r.2.balance (treasuryAddress Blake3.hash) = 0 := by
  decide +kernel

end ProtocolFunds

end SuwappuDag.Execution
