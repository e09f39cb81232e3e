/-
  ATOMICITY OF `apply_intent` — which failing intents leave the substrate as it was.

  The `Substrate` trait promises that a failing intent leaves the state unchanged.

  1. **What holds** — an arm that checks everything first and then only writes keeps the promise;
     so do the arms that move money through a staged helper.  Their proofs peel the checks off.
  2. **What does not** — eleven intents write before their last check: a debit before a credit that
     may overflow, or a registry record before the money moves.  `LateFailure` lists, for each of
     them, the states in which that last check fails.
  3. **Crux** — `applyIntent_atomic_iff`: the promise holds at a state for an intent EXACTLY when
     `LateFailure` does not.  In a late failure something has visibly changed: a balance that was
     debited by a positive amount (or credited one), or the set of claimed burns.
-/
import SuwappuDag.Execution.Apply

namespace SuwappuDag.Execution

open Words Command Reserved InMemorySubstrate
open Std (ExtTreeMap)

/-! ## The promise and its exceptions -/

/-- Every balance, every byte record and the state root are what they were. -/
def Untouched (blake3 : List UInt8 → Bytes32) (s t : InMemorySubstrate) : Prop :=
  (∀ a, t.balance a = s.balance a) ∧ (∀ a, t.readBytes a = s.readBytes a) ∧
    stateRoot blake3 t = stateRoot blake3 s

/-- Crediting `amount` to `addr` does not fit in a `u128`. -/
def Overflows (s : InMemorySubstrate) (addr : Address) (amount : Balance) : Prop :=
  2 ^ 128 ≤ (s.balance addr).toNat + amount.toNat

/-- The debit goes through and the credit behind it overflows. -/
def LateMove (s : InMemorySubstrate) (source dest : Address) (amount : Balance) : Prop :=
  source ≠ dest ∧ amount ≤ s.balance source ∧ Overflows s dest amount

/-- What a list of credits would bring to `addr`. -/
def creditedTo (credits : List (Address × Balance)) (addr : Address) : Nat :=
  ((credits.filter fun c => c.1 = addr).map fun c => c.2.toNat).sum

/-- Some credit of the list overflows, but not the first one that is not zero. -/
def LateCredits (s : InMemorySubstrate) (credits : List (Address × Balance)) : Prop :=
  (∃ addr, 2 ^ 128 ≤ (s.balance addr).toNat + creditedTo credits addr) ∧
    ∀ c, credits.find? (fun c => c.2 ≠ 0) = some c → ¬ Overflows s c.1 c.2

section Late

variable (blake3 : List UInt8 → Bytes32) (s : InMemorySubstrate)

/-- The bytes at a reserved address. -/
def recordAt (addr : Address) : List UInt8 := (s.readBytes addr).getD []

/-- A 70/30 distribution of `amount` overflows one of the two pools. -/
def PoolOverflows (amount : Balance) : Prop :=
  ∃ c ∈ waterfall blake3 amount, Overflows s c.1 c.2

/-- The liveness slash debits the bond, then a credit of the slash or of the bounty overflows. -/
def LateLivenessSlash (submitter : Address) : Prop :=
  let slash := livenessSlashAmount (s.balance (sequencerBondAddress blake3))
  slash ≠ 0 ∧ (PoolOverflows blake3 s slash ∨
    (¬ isReserved blake3 submitter ∧ Overflows s submitter (paidBounty (snitchBountyAmount slash)
      (s.balance (treasuryAddress blake3) + (slash - insuranceShareOf slash)))))

/-- A missed force-include: the obligation is flipped, then the slash fails. -/
def LateSlashMissed (intentHash : Bytes32) : Prop :=
  ∃ map obligation,
    ForceInclude.decodeMap (recordAt s (forceIncludeRegistryAddress blake3)) = .ok map ∧
    map[intentHash]? = some obligation ∧ obligation.status = .pending ∧
    LateLivenessSlash blake3 s obligation.submitter

/-- Forfeiting the safety bond debits it, then a credit overflows. -/
def LateForfeit : Prop :=
  s.balance (safetyBondAddress blake3) ≠ 0 ∧
    PoolOverflows blake3 s (s.balance (safetyBondAddress blake3))

/-- A safety offence: it is recorded, then the forfeit fails. -/
def LateSlashOffense (intentHash : Bytes32) : Prop :=
  ∃ map, EquivocationRegistry.decode (recordAt s (equivocationRegistryAddress blake3)) = .ok map ∧
    intentHash ∉ map ∧ LateForfeit blake3 s

/-- An ejection: it is recorded and the treasury debited, then the ejector's bounty overflows. -/
def LateEjectSequencer (obligationId : Bytes32) (ejector : Address) : Prop :=
  ¬ isReserved blake3 ejector ∧
    (∃ map obligation,
      ForceInclude.decodeMap (recordAt s (forceIncludeRegistryAddress blake3)) = .ok map ∧
      map[obligationId]? = some obligation ∧ obligation.status = .slashed) ∧
    (∃ map, EjectRegistry.decode (recordAt s (ejectionRegistryAddress blake3)) = .ok map ∧
      obligationId ∉ map) ∧
    Overflows s ejector (paidBounty
      (snitchBountyAmount (livenessSlashAmount (s.balance (sequencerBondAddress blake3))))
      (s.balance (treasuryAddress blake3)))

/-- A proven burn: the claim is recorded, then the escrow is short or the recipient overflows. -/
def LateBurn (batchId : UInt64) (recipient : Address) (amount : Balance) (merklePath : List UInt8)
    (assetId : Option Bytes32) (l2ChainIdHash : Bytes32) : Prop :=
  amount ≠ 0 ∧ ¬ isReserved blake3 recipient ∧ assertBridgeAssetActive blake3 assetId s = .ok () ∧
    toLex (l2ChainIdHash, batchId) ∈ (l2Registry blake3 s).stateRoots ∧
    (∃ set, BurnNullifier.decode (recordAt s (burnNullifierRegistryAddress blake3)) = .ok set ∧
      BurnNullifier.burnId blake3 l2ChainIdHash batchId recipient amount merklePath assetId ∉ set) ∧
    (s.balance (bridgeEscrowAddress blake3) < amount ∨ Overflows s recipient amount)

/-- The intent fails at `s` after it has written. -/
def LateFailure : Intent → Prop
  | .l1Lock user _ amount assetId => assertBridgeAssetActive blake3 assetId s = .ok () ∧
      LateMove s user (bridgeEscrowAddress blake3) amount
  | .l2BurnProven batchId recipient amount path assetId chain =>
      LateBurn blake3 s batchId recipient amount path assetId chain
  | .slashSequencer .missedForceInclude hash => LateSlashMissed blake3 s hash
  | .slashSequencer .equivocation hash => LateSlashOffense blake3 s hash
  | .slashSequencer .invalidBatch hash => LateSlashOffense blake3 s hash
  | .ejectSequencer id ejector => LateEjectSequencer blake3 s id ejector
  | .depositSequencerBond source amount => ¬ isReserved blake3 source ∧
      LateMove s source (sequencerBondAddress blake3) amount
  | .depositSafetyBond source amount => ¬ isReserved blake3 source ∧
      LateMove s source (safetyBondAddress blake3) amount
  | .disburseTreasury recipient amount _ => ¬ isReserved blake3 recipient ∧
      LateMove s (treasuryAddress blake3) recipient amount
  | .claimInsurance claimant amount _ => ¬ isReserved blake3 claimant ∧
      LateMove s (insurancePoolAddress blake3) claimant amount
  | .distributeSlashedFunds _ counterparties insuranceShare treasuryShare =>
      (∀ c ∈ counterparties, ¬ isReserved blake3 c.1) ∧
        LateCredits s (slashedFundsCredits blake3 counterparties insuranceShare treasuryShare)
  | _ => False

end Late

/-! ## The arms that check before they write -/

section Atomic

variable (blake3 : List UInt8 → Bytes32) (s : InMemorySubstrate)

@[simp] theorem writeRecord_atomicAt (addr : Address) (bytes : List UInt8) :
    AtomicAt (writeRecord addr bytes) s := atomicAt_write _

@[simp] theorem atomicAt_bind_writeRecord {α : Type} {c : Exec α} (h : AtomicAt c s) (addr : Address)
    (f : α → List UInt8) : AtomicAt (c >>= fun a => writeRecord addr (f a)) s :=
  h.bind_infallible fun _ => infallible_write _

theorem applyGenesisAllocation_atomicAt (allocations : List (Address × Balance)) :
    AtomicAt (applyGenesisAllocation allocations) s := by
  simp [applyGenesisAllocation]

theorem applyAdmit_atomicAt (ring : Ring) (id : UInt32) (stake : UInt64) (mldsa bls : List UInt8) :
    AtomicAt (applyAdmit blake3 ring id stake mldsa bls) s := by
  simp [applyAdmit, decodeRecord]

theorem applyExit_atomicAt (ring : Ring) (id : UInt32) : AtomicAt (applyExit blake3 ring id) s := by
  simp [applyExit, decodeRecord]

theorem drainEjected_atomicAt (pool : Address) (drained : Balance) :
    AtomicAt (drainEjected blake3 pool drained) s := by
  simp [drainEjected]

theorem applyEject_atomicAt (ring : Ring) (id : UInt32) :
    AtomicAt (applyEject blake3 ring id) s := by
  simp [applyEject, decodeRecord, drainEjected_atomicAt]

theorem settleObligation_atomicAt (id : Bytes32) (status : ObligationStatus) :
    AtomicAt (settleObligation blake3 id status) s := by
  simp only [settleObligation, decodeRecord, atomicAt_fetch_bind_iff, atomicAt_failIf_bind_iff]
  intros
  exact (writeRecord_atomicAt s _ _).bind_infallible fun _ t => ⟨_, t, rfl⟩

end Atomic

/-! ## A debit, then a credit -/

section Moves

variable {blake3 : List UInt8 → Bytes32} {s t : InMemorySubstrate}

theorem untouched_refl (s : InMemorySubstrate) : Untouched blake3 s s :=
  ⟨fun _ => rfl, fun _ => rfl, rfl⟩

theorem not_untouched_of_balance {a : Address} (h : t.balance a ≠ s.balance a) :
    ¬ Untouched blake3 s t := fun hu => h (hu.1 a)

theorem not_overflows_zero (s : InMemorySubstrate) (addr : Address) : ¬ Overflows s addr 0 := by
  have := (s.balance addr).isLt
  unfold Overflows
  simp
  omega

theorem Overflows.ne_zero {addr : Address} {amount : Balance} (h : Overflows s addr amount) :
    amount ≠ 0 := by
  rintro rfl
  exact not_overflows_zero s addr h

theorem sub_ne_self {a b : Balance} (hb : b ≠ 0) : a - b ≠ a := by
  intro h
  have hself : b = a - (a - b) := by simp [sub_sub_cancel]
  rw [h, sub_self] at hself
  exact hb hself

/-- A debit that fails is short; a credit that fails behind it leaves the debit in place. -/
theorem debitThenCredit_eq_error_iff {source dest : Address} {amount : Balance}
    {e : ExecutionError} :
    debitThenCredit source dest amount s = (.error e, t) ↔
      (s.balance source < amount ∧
        e = .insufficientBalance source (s.balance source) amount ∧ t = s) ∨
      (LateMove s source dest amount ∧ e = .distributionOverflow dest ∧
        t = s.storeBalance source (s.balance source - amount)) := by
  unfold debitThenCredit
  rw [bind_eq_error_iff, debitUnchecked_eq_error_iff]
  apply or_congr_right
  constructor
  · rintro ⟨⟨⟩, u, hdebit, hcredit⟩
    obtain ⟨hover, rfl, rfl⟩ := creditUnchecked_eq_error_iff.mp hcredit
    rcases debitUnchecked_eq_ok_iff.mp hdebit with ⟨rfl, rfl⟩ | ⟨h0, hle, rfl⟩
    · exact absurd hover (not_overflows_zero _ dest)
    · rw [balance_storeBalance] at hover
      by_cases hsame : dest = source
      · -- what was debited from an account fits when it is credited back
        subst hsame
        rw [Function.update_self, BitVec.toNat_sub_of_le hle] at hover
        have := (s.balance dest).isLt
        have : amount.toNat ≤ (s.balance dest).toNat := hle
        omega
      · rw [Function.update_of_ne hsame] at hover
        exact ⟨⟨Ne.symm hsame, hle, hover⟩, rfl, rfl⟩
  · rintro ⟨⟨hne, hle, hover⟩, rfl, rfl⟩
    refine ⟨(), _, debitUnchecked_eq_ok_iff.mpr (Or.inr ⟨hover.ne_zero, hle, rfl⟩), ?_⟩
    refine creditUnchecked_eq_error_iff.mpr ⟨?_, rfl, rfl⟩
    rw [balance_storeBalance, Function.update_of_ne (Ne.symm hne)]
    exact hover

theorem debitThenCredit_tearsIff (source dest : Address) (amount : Balance)
    (s : InMemorySubstrate) :
    TearsIff (Untouched blake3) (debitThenCredit source dest amount) s
      (LateMove s source dest amount) where
  atomic hnot := by
    intro e t hrun
    rcases debitThenCredit_eq_error_iff.mp hrun with ⟨-, -, rfl⟩ | ⟨hlate, -, -⟩
    · rfl
    · exact absurd hlate hnot
  torn hlate := by
    refine ⟨_, _, debitThenCredit_eq_error_iff.mpr (Or.inr ⟨hlate, rfl, rfl⟩), ?_⟩
    apply not_untouched_of_balance (a := source)
    rw [balance_storeBalance, Function.update_self]
    exact sub_ne_self hlate.2.2.ne_zero

end Moves

section MoveArms

variable (blake3 : List UInt8 → Bytes32) (s : InMemorySubstrate)

theorem applyL1Lock_tearsIff (user : Address) (amount : Balance) (assetId : Option Bytes32) :
    TearsIff (Untouched blake3) (applyL1Lock blake3 user amount assetId) s
      (assertBridgeAssetActive blake3 assetId s = .ok () ∧
        LateMove s user (bridgeEscrowAddress blake3) amount) := by
  unfold applyL1Lock
  by_cases h0 : amount = 0
  · rw [if_pos h0]
    refine (atomicAt_pure ()).tearsIff.congr ⟨False.elim, ?_⟩
    rintro ⟨-, -, -, hover⟩
    exact hover.ne_zero h0
  · rw [if_neg h0]
    refine (tearsIff_fetch_bind fun _ _ => debitThenCredit_tearsIff user _ amount s).congr ?_
    exact ⟨fun ⟨_, hok, hlate⟩ => ⟨hok, hlate⟩, fun ⟨hok, hlate⟩ => ⟨(), hok, hlate⟩⟩

theorem applyPoolMove_tearsIff (user source dest : Address) (amount : Balance) :
    TearsIff (Untouched blake3) (applyPoolMove blake3 user source dest amount) s
      (¬ isReserved blake3 user ∧ LateMove s source dest amount) := by
  unfold applyPoolMove
  by_cases h0 : amount = 0
  · rw [if_pos h0]
    refine (atomicAt_pure ()).tearsIff.congr ⟨False.elim, ?_⟩
    rintro ⟨-, -, -, hover⟩
    exact hover.ne_zero h0
  · rw [if_neg h0]
    exact tearsIff_failIf_bind fun _ => debitThenCredit_tearsIff source dest amount s

end MoveArms

/-! ## Credits one by one -/

section Credits

variable {s t : InMemorySubstrate}

/-- A successful credit raises one balance by the exact amount. -/
theorem creditUnchecked_balance {addr : Address} {amount : Balance}
    (h : creditUnchecked addr amount s = (.ok (), t)) (a : Address) :
    (t.balance a).toNat = (s.balance a).toNat + if addr = a then amount.toNat else 0 := by
  rcases creditUnchecked_eq_ok_iff.mp h with ⟨rfl, rfl⟩ | ⟨h0, v, hv, rfl⟩
  · simp
  · rw [balance_insertBalance, Function.update_apply]
    by_cases ha : a = addr
    · subst ha
      simp [hv]
    · simp [ha, Ne.symm ha]

theorem creditUnchecked_ok_of_not_overflows {addr : Address} {amount : Balance}
    (h : ¬ Overflows s addr amount) : ∃ t, creditUnchecked addr amount s = (.ok (), t) := by
  rcases hrun : creditUnchecked addr amount s with ⟨e | ⟨⟨⟩⟩, t⟩
  · exact absurd (creditUnchecked_eq_error_iff.mp hrun).1 h
  · exact ⟨t, rfl⟩

theorem creditedTo_cons (c : Address × Balance) (l : List (Address × Balance)) (a : Address) :
    creditedTo (c :: l) a = (if c.1 = a then c.2.toNat else 0) + creditedTo l a := by
  unfold creditedTo
  by_cases h : c.1 = a <;> simp [h]

variable {l : List (Address × Balance)}

/-- EXACT effect of a run of credits that goes through. -/
theorem creditEach_balance (h : creditEach l s = (.ok (), t)) (a : Address) :
    (t.balance a).toNat = (s.balance a).toNat + creditedTo l a := by
  induction l generalizing s with
  | nil =>
    cases h
    simp [creditedTo]
  | cons c l ih =>
    obtain ⟨_, u, hcredit, hrest⟩ := bind_eq_ok_iff.mp h
    rw [ih hrest, creditUnchecked_balance hcredit, creditedTo_cons]
    omega

/-- Credits that all fit go through. -/
theorem creditEach_ok (h : ∀ a, (s.balance a).toNat + creditedTo l a < 2 ^ 128) :
    ∃ t, creditEach l s = (.ok (), t) := by
  induction l generalizing s with
  | nil => exact ⟨s, rfl⟩
  | cons c l ih =>
    have hfit : ¬ Overflows s c.1 c.2 := by
      have := h c.1
      rw [creditedTo_cons, if_pos rfl] at this
      unfold Overflows
      omega
    obtain ⟨u, hu⟩ := creditUnchecked_ok_of_not_overflows hfit
    obtain ⟨t, ht⟩ := ih (s := u) fun a => by
      have := h a
      rw [creditedTo_cons] at this
      rw [creditUnchecked_balance hu]
      omega
    exact ⟨t, by rw [creditEach, bind_run_ok hu, ht]⟩

/-- Credits never lower a balance, also when one of them fails. -/
theorem creditEach_mono {r : Except ExecutionError Unit} (h : creditEach l s = (r, t)) (a : Address)
    : (s.balance a).toNat ≤ (t.balance a).toNat := by
  induction l generalizing s with
  | nil =>
    cases h
    exact Nat.le_refl _
  | cons c l ih =>
    rcases hc : creditUnchecked c.1 c.2 s with ⟨e | ⟨⟨⟩⟩, u⟩
    · rw [creditEach, bind_run_error hc] at h
      cases h
      rw [(creditUnchecked_eq_error_iff.mp hc).2.2]
    · rw [creditEach, bind_run_ok hc] at h
      have hstep := creditUnchecked_balance hc a
      have hrest := ih h
      omega

/-- The first credit that is not zero decides what a failure leaves: if it overflows, nothing has
    happened; if not, its recipient has been credited. -/
theorem creditEach_first {c : Address × Balance} (hfirst : l.find? (fun c => c.2 ≠ 0) = some c) :
    (Overflows s c.1 c.2 → creditEach l s = (.error (.distributionOverflow c.1), s)) ∧
    (¬ Overflows s c.1 c.2 → ∀ r t, creditEach l s = (r, t) →
      (s.balance c.1).toNat < (t.balance c.1).toNat) := by
  induction l with
  | nil => cases hfirst
  | cons d l ih =>
    by_cases hd : d.2 = 0
    · -- a zero credit is skipped
      have hskip : creditUnchecked d.1 d.2 s = (.ok (), s) :=
        creditUnchecked_eq_ok_iff.mpr (Or.inl ⟨hd, rfl⟩)
      rw [List.find?_cons_of_neg (by simp [hd])] at hfirst
      rw [creditEach, bind_run_ok hskip]
      exact ih hfirst
    · rw [List.find?_cons_of_pos (by simpa using hd), Option.some.injEq] at hfirst
      subst hfirst
      constructor
      · intro hover
        rw [creditEach, bind_run_error (creditUnchecked_eq_error_iff.mpr ⟨hover, rfl, rfl⟩)]
      · intro hfit r t hrun
        obtain ⟨u, hu⟩ := creditUnchecked_ok_of_not_overflows hfit
        rw [creditEach, bind_run_ok hu] at hrun
        have hstep := creditUnchecked_balance hu d.1
        have hrest := creditEach_mono hrun d.1
        have hpos : 0 < d.2.toNat := Nat.pos_of_ne_zero fun h => hd (BitVec.eq_of_toNat_eq h)
        rw [if_pos rfl] at hstep
        omega

theorem creditedTo_eq_zero (h : l.find? (fun c => c.2 ≠ 0) = none) (a : Address) :
    creditedTo l a = 0 := by
  induction l with
  | nil => rfl
  | cons c l ih =>
    rw [List.find?_eq_none] at h
    have hc : c.2 = 0 := by simpa using h c List.mem_cons_self
    rw [creditedTo_cons, ih (List.find?_eq_none.mpr fun x hx => h x (List.mem_cons_of_mem c hx)), hc]
    simp

theorem creditEach_tearsIff {blake3 : List UInt8 → Bytes32} (l : List (Address × Balance))
    (s : InMemorySubstrate) : TearsIff (Untouched blake3) (creditEach l) s (LateCredits s l) where
  atomic hnot := by
    intro e t hrun
    by_cases hfit : ∀ a, (s.balance a).toNat + creditedTo l a < 2 ^ 128
    · obtain ⟨u, hu⟩ := creditEach_ok hfit
      rw [hu] at hrun
      cases hrun
    · -- some credit overflows, so outside `LateCredits` it is the first one that counts
      push Not at hfit
      unfold LateCredits at hnot
      push Not at hnot
      obtain ⟨c, hc, hover⟩ := hnot hfit
      rw [(creditEach_first hc).1 hover] at hrun
      cases hrun
      rfl
  torn := by
    rintro ⟨⟨a, ha⟩, hfirst⟩
    rcases hrun : creditEach l s with ⟨e | ⟨⟨⟩⟩, t⟩
    · refine ⟨e, t, rfl, ?_⟩
      cases hc : l.find? (fun c => c.2 ≠ 0) with
      | none =>
        have := (s.balance a).isLt
        rw [creditedTo_eq_zero hc] at ha
        omega
      | some c =>
        apply not_untouched_of_balance (a := c.1)
        have := (creditEach_first hc).2 (hfirst c hc) _ _ hrun
        intro heq
        rw [heq] at this
        omega
    · have := creditEach_balance hrun a
      have := (t.balance a).isLt
      omega

end Credits

/-! ## Slashes and bounties -/

section Slash

variable {blake3 : List UInt8 → Bytes32} {s t : InMemorySubstrate}

variable {l : List (Address × Balance)}

/-- Whoever is not credited keeps the balance, also when a credit fails. -/
theorem creditEach_balance_of_not_mem {r : Except ExecutionError Unit} (h : creditEach l s = (r, t))
    {a : Address} (ha : ∀ c ∈ l, c.1 ≠ a) : t.balance a = s.balance a := by
  induction l generalizing s with
  | nil =>
    cases h
    rfl
  | cons c l ih =>
    have htail : ∀ c ∈ l, c.1 ≠ a := fun c hc => ha c (List.mem_cons_of_mem _ hc)
    rcases hc : creditUnchecked c.1 c.2 s with ⟨e | ⟨⟨⟩⟩, u⟩
    · rw [creditEach, bind_run_error hc] at h
      cases h
      rw [(creditUnchecked_eq_error_iff.mp hc).2.2]
    · rw [creditEach, bind_run_ok hc] at h
      rw [ih h htail]
      apply BitVec.eq_of_toNat_eq
      rw [creditUnchecked_balance hc, if_neg (ha c List.mem_cons_self), Nat.add_zero]

theorem creditedTo_of_not_mem {a : Address} (ha : ∀ c ∈ l, c.1 ≠ a) : creditedTo l a = 0 := by
  have : l.filter (fun c => c.1 = a) = [] := by
    rw [List.filter_eq_nil_iff]
    intro x hx
    simpa using ha x hx
  simp [creditedTo, this]

/-- Over distinct recipients, each credit stands for itself. -/
theorem creditedTo_eq_of_nodup (hl : (l.map Prod.fst).Nodup) {c : Address × Balance} (hc : c ∈ l) :
    creditedTo l c.1 = c.2.toNat := by
  induction l with
  | nil => cases hc
  | cons d l ih =>
    rw [List.map_cons, List.nodup_cons] at hl
    rw [creditedTo_cons]
    rcases List.mem_cons.mp hc with rfl | hmem
    · have hrest : ∀ x ∈ l, x.1 ≠ c.1 := fun x hx heq => hl.1 (heq ▸ List.mem_map_of_mem hx)
      rw [if_pos rfl, creditedTo_of_not_mem hrest, Nat.add_zero]
    · have hne : d.1 ≠ c.1 := fun h => hl.1 (h ▸ List.mem_map_of_mem hmem)
      rw [if_neg hne, ih hl.2 hmem, Nat.zero_add]

/-- Credits to distinct recipients go through exactly when each one fits. -/
theorem creditEach_fails_iff (hl : (l.map Prod.fst).Nodup) :
    (∃ e t, creditEach l s = (.error e, t)) ↔ ∃ c ∈ l, Overflows s c.1 c.2 := by
  constructor
  · rintro ⟨e, t, hrun⟩
    by_contra hnone
    push Not at hnone
    obtain ⟨u, hu⟩ := creditEach_ok (s := s) (l := l) fun a => by
      by_cases ha : ∀ c ∈ l, c.1 ≠ a
      · rw [creditedTo_of_not_mem ha]
        exact (s.balance a).isLt
      · push Not at ha
        obtain ⟨c, hc, rfl⟩ := ha
        have := hnone c hc
        rw [creditedTo_eq_of_nodup hl hc]
        unfold Overflows at this
        omega
    rw [hu] at hrun
    cases hrun
  · rintro ⟨c, hc, hover⟩
    rcases hrun : creditEach l s with ⟨e | ⟨⟨⟩⟩, t⟩
    · exact ⟨e, t, rfl⟩
    · have hsum := creditEach_balance hrun c.1
      have hlt := (t.balance c.1).isLt
      rw [creditedTo_eq_of_nodup hl hc] at hsum
      unfold Overflows at hover
      omega

end Slash

section SlashArms

variable {blake3 : List UInt8 → Bytes32} {s t : InMemorySubstrate}

theorem overflows_storeBalance {a addr : Address} {v x : Balance} (h : a ≠ addr) :
    Overflows (s.storeBalance addr v) a x ↔ Overflows s a x := by
  rw [Overflows, balance_storeBalance, Function.update_of_ne h, Overflows]

theorem overflows_writeBytes {a addr : Address} {bytes : List UInt8} {x : Balance} :
    Overflows (s.writeBytesUnchecked addr bytes) a x ↔ Overflows s a x := by
  rw [Overflows, balance_writeBytesUnchecked, Overflows]

theorem waterfall_nodup (h : ReservedDistinct blake3) (amount : Balance) :
    ((waterfall blake3 amount).map Prod.fst).Nodup := by
  have hne : insurancePoolAddress blake3 ≠ treasuryAddress blake3 :=
    h.ne (i := 1) (j := 2) (by decide)
  simpa [waterfall] using hne

theorem waterfall_ne {a : Address} (hi : insurancePoolAddress blake3 ≠ a)
    (ht : treasuryAddress blake3 ≠ a) (amount : Balance) :
    ∀ c ∈ waterfall blake3 amount, c.1 ≠ a := by
  simpa [waterfall] using ⟨hi, ht⟩

variable {amount : Balance} {bond : Address}

/-- A slash that the bond covers: what happens behind the debit. -/
theorem slashBond_run (h0 : amount ≠ 0) (hle : amount ≤ s.balance bond) :
    slashBond blake3 bond amount s =
      creditEach (waterfall blake3 amount) (s.storeBalance bond (s.balance bond - amount)) := by
  rw [slashBond, bind_run_ok (debitUnchecked_eq_ok_iff.mpr (Or.inr ⟨h0, hle, rfl⟩))]

/-- The bond is debited, whether or not the pools take their shares. -/
theorem slashBond_debited {r : Except ExecutionError Unit}
    (hbond : ∀ c ∈ waterfall blake3 amount, c.1 ≠ bond) (h0 : amount ≠ 0)
    (hle : amount ≤ s.balance bond) (h : slashBond blake3 bond amount s = (r, t)) :
    t.balance bond = s.balance bond - amount := by
  rw [slashBond_run h0 hle] at h
  rw [creditEach_balance_of_not_mem h hbond, balance_storeBalance, Function.update_self]

/-- Either both pools take their share, and nobody else's balance moves but the bond's, or a pool
    overflows; the bond stays debited. -/
theorem slashBond_cases (hres : ReservedDistinct blake3)
    (hbond : ∀ c ∈ waterfall blake3 amount, c.1 ≠ bond) (h0 : amount ≠ 0)
    (hle : amount ≤ s.balance bond) :
    (¬ PoolOverflows blake3 s amount → ∃ t, slashBond blake3 bond amount s = (.ok (), t) ∧
      t.balance bond = s.balance bond - amount ∧
      t.balance (treasuryAddress blake3) =
        s.balance (treasuryAddress blake3) + (amount - insuranceShareOf amount) ∧
      ∀ a, (∀ c ∈ waterfall blake3 amount, c.1 ≠ a) → a ≠ bond → t.balance a = s.balance a) ∧
    (PoolOverflows blake3 s amount → ∃ e t, slashBond blake3 bond amount s = (.error e, t) ∧
      t.balance bond = s.balance bond - amount) := by
  have hpool : (∃ e t, slashBond blake3 bond amount s = (.error e, t)) ↔
      PoolOverflows blake3 s amount := by
    rw [slashBond_run h0 hle, creditEach_fails_iff (waterfall_nodup hres amount)]
    exact exists_congr fun c => and_congr_right fun hc => overflows_storeBalance (hbond c hc)
  constructor
  · intro hfit
    rcases hrun : slashBond blake3 bond amount s with ⟨e | ⟨⟨⟩⟩, t⟩
    · exact absurd (hpool.mp ⟨e, t, hrun⟩) hfit
    · refine ⟨t, rfl, slashBond_debited hbond h0 hle hrun, ?_, ?_⟩
      · have htre : (treasuryAddress blake3, amount - insuranceShareOf amount)
            ∈ waterfall blake3 amount := by simp [waterfall]
        rw [slashBond_run h0 hle] at hrun
        have hsum := creditEach_balance hrun (treasuryAddress blake3)
        rw [creditedTo_eq_of_nodup (waterfall_nodup hres amount) htre, balance_storeBalance,
          Function.update_of_ne (hbond _ htre)] at hsum
        apply BitVec.eq_of_toNat_eq
        rw [BitVec.toNat_add, ← hsum, Nat.mod_eq_of_lt (t.balance _).isLt]
      · intro a ha hab
        rw [slashBond_run h0 hle] at hrun
        rw [creditEach_balance_of_not_mem hrun ha, balance_storeBalance, Function.update_of_ne hab]
  · intro hover
    obtain ⟨e, t, hrun⟩ := hpool.mpr hover
    exact ⟨e, t, hrun, slashBond_debited hbond h0 hle hrun⟩

theorem paidBounty_le (bounty available : Balance) : paidBounty bounty available ≤ available := by
  unfold paidBounty
  split
  · next h => exact le_of_lt h
  · exact le_refl _

/-- A bounty to somebody outside the treasury fails exactly when the payout overflows them, and
    then leaves the treasury debited. -/
theorem payBounty_eq_error_iff {dest : Address} (hdest : dest ≠ treasuryAddress blake3)
    {bounty : Balance} {e : ExecutionError} :
    payBounty blake3 dest bounty s = (.error e, t) ↔
      Overflows s dest (paidBounty bounty (s.balance (treasuryAddress blake3))) ∧
      e = .distributionOverflow dest ∧
      t = s.storeBalance (treasuryAddress blake3) (s.balance (treasuryAddress blake3) -
        paidBounty bounty (s.balance (treasuryAddress blake3))) := by
  have hnone : ∀ {c : Exec Unit}, c s = (.ok (), s) →
      paidBounty bounty (s.balance (treasuryAddress blake3)) = 0 →
      (c s = (.error e, t) ↔
        Overflows s dest (paidBounty bounty (s.balance (treasuryAddress blake3))) ∧
        e = .distributionOverflow dest ∧
        t = s.storeBalance (treasuryAddress blake3) (s.balance (treasuryAddress blake3) -
          paidBounty bounty (s.balance (treasuryAddress blake3)))) := by
    intro c hc hpaid
    rw [hc]
    exact ⟨fun h => (by cases h), fun h => absurd hpaid h.1.ne_zero⟩
  unfold payBounty
  by_cases hb : bounty > 0
  · by_cases hp : paidBounty bounty (s.balance (treasuryAddress blake3)) > 0
    · rw [if_pos hb, read_bind_run, if_pos hp, debitThenCredit_eq_error_iff, LateMove]
      have hle := paidBounty_le bounty (s.balance (treasuryAddress blake3))
      simp [not_lt.mpr hle, Ne.symm hdest, hle]
    · refine hnone ?_ (by simpa using hp)
      rw [if_pos hb, read_bind_run, if_neg hp, pure_run]
  · refine hnone (by rw [if_neg hb, pure_run]) ?_
    have hb0 : bounty = 0 := by simpa using hb
    unfold paidBounty
    split
    · exact hb0
    · next h => simpa [hb0] using h

/-- A product that may wrap, divided by more than the factor, stays below the number. -/
theorem mulDiv_le {a : Balance} {k d : Nat} (hk : k < 2 ^ 128) (hd : d < 2 ^ 128) (hkd : k ≤ d)
    (hd0 : 0 < d) : a * BitVec.ofNat 128 k / BitVec.ofNat 128 d ≤ a := by
  rw [BitVec.le_def, BitVec.toNat_udiv, BitVec.toNat_mul, BitVec.toNat_ofNat, BitVec.toNat_ofNat,
    Nat.mod_eq_of_lt hk, Nat.mod_eq_of_lt hd]
  calc a.toNat * k % 2 ^ 128 / d
      ≤ a.toNat * k / d := Nat.div_le_div_right (Nat.mod_le _ _)
    _ ≤ a.toNat * d / d := Nat.div_le_div_right (Nat.mul_le_mul_left _ hkd)
    _ = a.toNat := Nat.mul_div_cancel _ hd0

/-- A product that fits leaves the exact quotient. -/
theorem toNat_mulDiv {a : Balance} {k d : Nat} (hk : k < 2 ^ 128) (hd : d < 2 ^ 128)
    (hfit : a.toNat * k < 2 ^ 128) :
    (a * BitVec.ofNat 128 k / BitVec.ofNat 128 d).toNat = a.toNat * k / d := by
  rw [BitVec.toNat_udiv, BitVec.toNat_mul, BitVec.toNat_ofNat, BitVec.toNat_ofNat,
    Nat.mod_eq_of_lt hk, Nat.mod_eq_of_lt hd, Nat.mod_eq_of_lt hfit]

theorem toNat_insuranceShareOf {amount : Balance} (h : amount.toNat * 70 < 2 ^ 128) :
    (insuranceShareOf amount).toNat = amount.toNat * 70 / 100 :=
  toNat_mulDiv (by decide) (by decide) h

theorem livenessSlashAmount_le (bond : Balance) : livenessSlashAmount bond ≤ bond :=
  mulDiv_le (by decide) (by decide) (by decide) (by decide)

theorem insuranceShareOf_le (amount : Balance) : insuranceShareOf amount ≤ amount :=
  mulDiv_le (by decide) (by decide) (by decide) (by decide)

/-- The liveness slash goes through, or it fails with the bond debited. -/
theorem slashLivenessBond_cases (hres : ReservedDistinct blake3) (submitter : Address) :
    (¬ LateLivenessSlash blake3 s submitter →
      ∃ t, slashLivenessBond blake3 submitter s = (.ok (), t)) ∧
    (LateLivenessSlash blake3 s submitter →
      ∃ e t, slashLivenessBond blake3 submitter s = (.error e, t) ∧
        t.balance (sequencerBondAddress blake3) ≠ s.balance (sequencerBondAddress blake3)) := by
  have hit : insurancePoolAddress blake3 ≠ sequencerBondAddress blake3 :=
    hres.ne (i := 1) (j := 5) (by decide)
  have htb : treasuryAddress blake3 ≠ sequencerBondAddress blake3 :=
    hres.ne (i := 2) (j := 5) (by decide)
  unfold slashLivenessBond LateLivenessSlash
  rw [read_bind_run]
  set bond := s.balance (sequencerBondAddress blake3) with hbondDef
  set slash := livenessSlashAmount bond with hslash
  by_cases h0 : slash = 0
  · rw [if_pos (Or.inr h0)]
    exact ⟨fun _ => ⟨s, rfl⟩, fun h => absurd h0 h.1⟩
  have hb0 : ¬ (bond = 0 ∨ slash = 0) := by
    rintro (hb | hs)
    · have hle := livenessSlashAmount_le bond
      rw [← hslash, hb] at hle
      exact h0 (by simpa using hle)
    · exact h0 hs
  rw [if_neg hb0]
  obtain ⟨hok, herr⟩ := slashBond_cases hres (waterfall_ne hit htb slash) h0
    (livenessSlashAmount_le bond)
  by_cases hpool : PoolOverflows blake3 s slash
  · -- a pool overflows: the bounty is never reached
    obtain ⟨e, t, hrun, hdebited⟩ := herr hpool
    refine ⟨fun h => absurd ⟨h0, Or.inl hpool⟩ h, fun _ => ⟨e, t, bind_run_error hrun, ?_⟩⟩
    rw [hdebited]
    exact sub_ne_self h0
  obtain ⟨t, hrun, hdebited, htreasury, hothers⟩ := hok hpool
  rw [bind_run_ok hrun]
  by_cases hsub : isReserved blake3 submitter = true
  · rw [if_pos hsub]
    refine ⟨fun _ => ⟨t, rfl⟩, ?_⟩
    rintro ⟨-, h | h⟩
    · exact absurd h hpool
    · exact absurd hsub h.1
  rw [if_neg hsub]
  have hne : ∀ i : Fin 20, submitter ≠ (all blake3).get i := ne_of_not_isReserved hsub
  have hsame : t.balance submitter = s.balance submitter :=
    hothers submitter (waterfall_ne (hne 1).symm (hne 2).symm slash) (hne 5)
  have hover : Overflows t submitter (paidBounty (snitchBountyAmount slash)
        (t.balance (treasuryAddress blake3))) ↔
      Overflows s submitter (paidBounty (snitchBountyAmount slash)
        (s.balance (treasuryAddress blake3) + (slash - insuranceShareOf slash))) := by
    rw [Overflows, hsame, htreasury, Overflows]
  rcases hpay : payBounty blake3 submitter (snitchBountyAmount slash) t with ⟨e | ⟨⟨⟩⟩, u⟩
  · obtain ⟨hov, -, hu⟩ := (payBounty_eq_error_iff (hne 2)).mp hpay
    refine ⟨fun h => absurd ⟨h0, Or.inr ⟨hsub, hover.mp hov⟩⟩ h, fun _ => ⟨e, u, rfl, ?_⟩⟩
    rw [hu, balance_storeBalance, Function.update_of_ne htb.symm, hdebited]
    exact sub_ne_self h0
  · refine ⟨fun _ => ⟨u, rfl⟩, ?_⟩
    rintro ⟨-, h | ⟨-, h⟩⟩
    · exact absurd h hpool
    · have := (payBounty_eq_error_iff (hne 2)).mpr ⟨hover.mpr h, rfl, rfl⟩
      rw [hpay] at this
      cases this

/-- The forfeit goes through, or it fails with the bond debited. -/
theorem forfeitSafetyBond_cases (hres : ReservedDistinct blake3) :
    (¬ LateForfeit blake3 s → ∃ t, forfeitSafetyBond blake3 s = (.ok (), t)) ∧
    (LateForfeit blake3 s → ∃ e t, forfeitSafetyBond blake3 s = (.error e, t) ∧
      t.balance (safetyBondAddress blake3) ≠ s.balance (safetyBondAddress blake3)) := by
  have hit : insurancePoolAddress blake3 ≠ safetyBondAddress blake3 :=
    hres.ne (i := 1) (j := 6) (by decide)
  have htb : treasuryAddress blake3 ≠ safetyBondAddress blake3 :=
    hres.ne (i := 2) (j := 6) (by decide)
  unfold forfeitSafetyBond LateForfeit
  rw [read_bind_run]
  by_cases h0 : s.balance (safetyBondAddress blake3) = 0
  · rw [if_pos h0]
    exact ⟨fun _ => ⟨s, rfl⟩, fun h => absurd h0 h.1⟩
  rw [if_neg h0]
  obtain ⟨hok, herr⟩ := slashBond_cases hres (waterfall_ne hit htb _) h0 (le_refl _)
  constructor
  · intro hfit
    obtain ⟨t, hrun, -⟩ := hok fun hpool => hfit ⟨h0, hpool⟩
    exact ⟨t, hrun⟩
  · rintro ⟨-, hpool⟩
    obtain ⟨e, t, hrun, hdebited⟩ := herr hpool
    refine ⟨e, t, hrun, ?_⟩
    rw [hdebited]
    exact sub_ne_self h0

end SlashArms

/-! ## The arms that record first -/

section RecordFirst

variable {blake3 : List UInt8 → Bytes32} {s : InMemorySubstrate}

theorem mapError_eq_ok_iff {ε ε' α : Type} {f : ε → ε'} {x : Except ε α} {a : α} :
    x.mapError f = .ok a ↔ x = .ok a := by
  cases x <;> simp [Except.mapError]

variable {e : ExecutionError}

theorem getOr_eq_ok_iff {κ ν : Type} [Ord κ] [Std.TransOrd κ] {map : ExtTreeMap κ ν} {key : κ}
    {v : ν} : getOr e map key = .ok v ↔ map[key]? = some v := by
  unfold getOr
  cases map[key]? <;> simp

theorem mapError_eq_error_iff {ε ε' α : Type} {f : ε → ε'} {x : Except ε α} {e : ε'} :
    x.mapError f = .error e ↔ ∃ e', x = .error e' ∧ f e' = e := by
  cases x <;> simp [Except.mapError]

theorem getOr_eq_error_iff {κ ν : Type} [Ord κ] [Std.TransOrd κ] {e e' : ExecutionError}
    {map : ExtTreeMap κ ν} {key : κ} :
    getOr e map key = .error e' ↔ map[key]? = none ∧ e = e' := by
  unfold getOr
  cases map[key]? <;> simp

theorem toU64Or_eq_ok_iff {amount : Balance} {v : UInt64} :
    toU64Or e amount = .ok v ↔ amount.toNat < 2 ^ 64 ∧ v = UInt64.ofNat amount.toNat := by
  unfold toU64Or
  split
  · next h => simp only [h, true_and, Except.ok.injEq, eq_comm]
  · next h => simp only [h, false_and, reduceCtorEq]

theorem addU64Or_eq_ok_iff {a b v : UInt64} :
    addU64Or e a b = .ok v ↔ a.toNat + b.toNat < 2 ^ 64 ∧ v = a + b := by
  unfold addU64Or
  split
  · next h => simp only [h, true_and, Except.ok.injEq, eq_comm]
  · next h => simp only [h, false_and, reduceCtorEq]

/-- Writing a record does not move money, so it decides nothing about a late liveness slash. -/
theorem lateLivenessSlash_writeBytes (addr : Address) (bytes : List UInt8) (submitter : Address) :
    LateLivenessSlash blake3 (s.writeBytesUnchecked addr bytes) submitter ↔
      LateLivenessSlash blake3 s submitter := by
  simp only [LateLivenessSlash, PoolOverflows, overflows_writeBytes, balance_writeBytesUnchecked]

theorem lateForfeit_writeBytes (addr : Address) (bytes : List UInt8) :
    LateForfeit blake3 (s.writeBytesUnchecked addr bytes) ↔ LateForfeit blake3 s := by
  simp only [LateForfeit, PoolOverflows, overflows_writeBytes, balance_writeBytesUnchecked]

theorem checkUnrecorded_eq_ok_iff {map : ExtTreeMap Bytes32 EquivocationRecord} {h : Bytes32}
    {u : Unit} : checkUnrecorded map h = .ok u ↔ h ∉ map := by
  rw [ExtTreeMap.mem_iff_isSome_getElem?]
  unfold checkUnrecorded
  cases map[h]? <;> simp

/-- A record is written, then a command runs that either succeeds or leaves a balance changed. -/
theorem writeRecord_tearsIff {addr : Address} {bytes : List UInt8} {c : Exec Unit} {P : Prop}
    {a : Address}
    (hok : ¬ P → ∃ t, c (s.writeBytesUnchecked addr bytes) = (.ok (), t))
    (herr : P → ∃ e t, c (s.writeBytesUnchecked addr bytes) = (.error e, t) ∧
      t.balance a ≠ (s.writeBytesUnchecked addr bytes).balance a) :
    TearsIff (Untouched blake3) (writeRecord addr bytes >>= fun _ => c) s P := by
  refine tearsIff_write_bind (fun h => ?_) (fun h => ?_)
  · obtain ⟨t, ht⟩ := hok h
    exact ⟨(), t, ht⟩
  · obtain ⟨e, t, hrun, hne⟩ := herr h
    rw [balance_writeBytesUnchecked] at hne
    exact ⟨e, t, hrun, not_untouched_of_balance hne⟩

theorem applySlashMissed_tearsIff (hres : ReservedDistinct blake3) (intentHash : Bytes32) :
    TearsIff (Untouched blake3) (applySlashMissed blake3 intentHash) s
      (LateSlashMissed blake3 s intentHash) := by
  simp only [applySlashMissed, settleObligation, decodeRecord, bind_assoc, pure_bind]
  have htail : ∀ (bytes : List UInt8) (submitter : Address),
      TearsIff (Untouched blake3) (writeRecord (forceIncludeRegistryAddress blake3) bytes
        >>= fun _ => slashLivenessBond blake3 submitter) s
        (LateLivenessSlash blake3 s submitter) := by
    intro bytes submitter
    have hcases := slashLivenessBond_cases
      (s := s.writeBytesUnchecked (forceIncludeRegistryAddress blake3) bytes) hres submitter
    rw [lateLivenessSlash_writeBytes] at hcases
    exact writeRecord_tearsIff hcases.1 hcases.2
  refine (tearsIff_fetch_bind fun map _ => tearsIff_fetch_bind fun obligation _ =>
    tearsIff_failIf_bind fun _ => htail _ obligation.submitter).congr ?_
  simp only [mapError_eq_ok_iff, getOr_eq_ok_iff, ne_eq, not_not, LateSlashMissed, recordAt]
  constructor
  · rintro ⟨map, hmap, ob, hob, hpending, hlate⟩
    exact ⟨map, ob, hmap, hob, hpending, hlate⟩
  · rintro ⟨map, ob, hmap, hob, hpending, hlate⟩
    exact ⟨map, hmap, ob, hob, hpending, hlate⟩

theorem applySlashOffense_tearsIff (hres : ReservedDistinct blake3) (kind : OffenseKind)
    (intentHash : Bytes32) :
    TearsIff (Untouched blake3) (applySlashOffense blake3 kind intentHash) s
      (LateSlashOffense blake3 s intentHash) := by
  unfold applySlashOffense decodeRecord
  have htail : ∀ bytes : List UInt8,
      TearsIff (Untouched blake3) (writeRecord (equivocationRegistryAddress blake3) bytes
        >>= fun _ => forfeitSafetyBond blake3) s (LateForfeit blake3 s) := by
    intro bytes
    have hcases := forfeitSafetyBond_cases
      (s := s.writeBytesUnchecked (equivocationRegistryAddress blake3) bytes) hres
    rw [lateForfeit_writeBytes] at hcases
    exact writeRecord_tearsIff hcases.1 hcases.2
  refine (tearsIff_fetch_bind fun map _ => tearsIff_fetch_bind fun _ _ => htail _).congr ?_
  simp only [mapError_eq_ok_iff, checkUnrecorded_eq_ok_iff, LateSlashOffense, recordAt,
    exists_const]

theorem applyEjectSequencer_tearsIff (obligationId : Bytes32) (ejector : Address) :
    TearsIff (Untouched blake3) (applyEjectSequencer blake3 obligationId ejector) s
      (LateEjectSequencer blake3 s obligationId ejector) := by
  unfold applyEjectSequencer decodeRecord
  have htail : ¬ isReserved blake3 ejector → ∀ bytes : List UInt8,
      TearsIff (Untouched blake3) (writeRecord (ejectionRegistryAddress blake3) bytes
        >>= fun _ => read (fun s => s.balance (sequencerBondAddress blake3))
        >>= fun bond => payBounty blake3 ejector (snitchBountyAmount (livenessSlashAmount bond))) s
        (Overflows s ejector (paidBounty
          (snitchBountyAmount (livenessSlashAmount (s.balance (sequencerBondAddress blake3))))
          (s.balance (treasuryAddress blake3)))) := by
    intro hej bytes
    have htre : ejector ≠ treasuryAddress blake3 := ne_of_not_isReserved hej 2
    refine writeRecord_tearsIff (a := treasuryAddress blake3) (fun hfit => ?_) (fun hover => ?_)
    · rw [read_bind_run]
      rcases hpay : payBounty blake3 ejector _ _ with ⟨e | ⟨⟨⟩⟩, t⟩
      · have := ((payBounty_eq_error_iff htre).mp hpay).1
        rw [overflows_writeBytes, balance_writeBytesUnchecked] at this
        exact absurd this hfit
      · exact ⟨t, rfl⟩
    · rw [read_bind_run]
      refine ⟨_, _, (payBounty_eq_error_iff htre).mpr ⟨?_, rfl, rfl⟩, ?_⟩
      · rwa [overflows_writeBytes, balance_writeBytesUnchecked]
      · rw [balance_storeBalance, Function.update_self, balance_writeBytesUnchecked]
        exact sub_ne_self hover.ne_zero
  refine (tearsIff_failIf_bind fun hej => tearsIff_fetch_bind fun obligations _ =>
    tearsIff_fetch_bind fun obligation _ => tearsIff_failIf_bind fun _ =>
    tearsIff_fetch_bind fun ejections _ => tearsIff_failIf_bind fun _ => htail hej _).congr ?_
  simp only [mapError_eq_ok_iff, getOr_eq_ok_iff, ne_eq, not_not, LateEjectSequencer, recordAt]
  constructor
  · rintro ⟨hej, map, hmap, ob, hob, hslashed, ejections, hdec, hfresh, hover⟩
    exact ⟨hej, ⟨map, ob, hmap, hob, hslashed⟩, ⟨ejections, hdec, hfresh⟩, hover⟩
  · rintro ⟨hej, ⟨map, ob, hmap, hob, hslashed⟩, ⟨ejections, hdec, hfresh⟩, hover⟩
    exact ⟨hej, map, hmap, ob, hob, hslashed, ejections, hdec, hfresh, hover⟩

/-- The payout of a burn that has just been recorded. -/
theorem burnPayout_tearsIff {recipient : Address} {amount : Balance} {id : Bytes32}
    {set : ExtTreeMap Bytes32 Unit} (hrec : ¬ isReserved blake3 recipient)
    (hset : BurnNullifier.decode (recordAt s (burnNullifierRegistryAddress blake3)) = .ok set)
    (hid : id ∉ set) :
    TearsIff (Untouched blake3)
      (writeRecord (burnNullifierRegistryAddress blake3) (BurnNullifier.encode (set.insert id ()))
        >>= fun _ => debitThenCredit (bridgeEscrowAddress blake3) recipient amount) s
      (s.balance (bridgeEscrowAddress blake3) < amount ∨ Overflows s recipient amount) := by
  have hne : bridgeEscrowAddress blake3 ≠ recipient := (ne_of_not_isReserved hrec 3).symm
  refine tearsIff_write_bind (fun hfit => ?_) (fun hlate => ?_)
  · rcases hrun : debitThenCredit (bridgeEscrowAddress blake3) recipient amount _
      with ⟨e | ⟨⟨⟩⟩, t⟩
    · exfalso
      apply hfit
      rcases debitThenCredit_eq_error_iff.mp hrun with ⟨hshort, -⟩ | ⟨⟨-, -, hover⟩, -⟩
      · exact Or.inl (by rwa [balance_writeBytesUnchecked] at hshort)
      · exact Or.inr (overflows_writeBytes.mp hover)
    · exact ⟨(), t, rfl⟩
  · by_cases hshort : s.balance (bridgeEscrowAddress blake3) < amount
    · -- the escrow is short: no money moves, but the claim stays recorded
      refine ⟨_, _, debitThenCredit_eq_error_iff.mpr
        (Or.inl ⟨by rwa [balance_writeBytesUnchecked], rfl, rfl⟩), ?_⟩
      rintro ⟨-, hbytes, -⟩
      apply BurnNullifier.encode_insert_ne hset hid
      have hwrite := readBytes_writeBytesUnchecked s (burnNullifierRegistryAddress blake3)
        (BurnNullifier.encode (set.insert id ())) (burnNullifierRegistryAddress blake3)
      rw [if_pos rfl, hbytes] at hwrite
      exact hwrite.symm
    · have hover := hlate.resolve_left hshort
      refine ⟨_, _, debitThenCredit_eq_error_iff.mpr (Or.inr ⟨⟨hne, ?_, ?_⟩, rfl, rfl⟩), ?_⟩
      · rw [balance_writeBytesUnchecked]
        exact not_lt.mp hshort
      · exact overflows_writeBytes.mpr hover
      · apply not_untouched_of_balance (a := bridgeEscrowAddress blake3)
        rw [balance_storeBalance, Function.update_self, balance_writeBytesUnchecked]
        exact sub_ne_self hover.ne_zero

theorem applyL2BurnProven_tearsIff (batchId : UInt64) (recipient : Address) (amount : Balance)
    (merklePath : List UInt8) (assetId : Option Bytes32) (chain : Bytes32) :
    TearsIff (Untouched blake3)
      (applyL2BurnProven blake3 batchId recipient amount merklePath assetId chain) s
      (LateBurn blake3 s batchId recipient amount merklePath assetId chain) := by
  unfold applyL2BurnProven decodeRecord
  by_cases h0 : amount = 0
  · rw [if_pos h0]
    exact (atomicAt_pure ()).tearsIff.congr ⟨False.elim, fun h => h.1 h0⟩
  · rw [if_neg h0]
    refine (tearsIff_failIf_bind fun hrec => tearsIff_fetch_bind fun _ _ => tearsIff_read_bind
      (by exact tearsIff_failIf_bind fun _ => tearsIff_fetch_bind fun set hset =>
        tearsIff_failIf_bind fun hid =>
          burnPayout_tearsIff hrec (mapError_eq_ok_iff.mp hset) hid)).congr ?_
    simp only [mapError_eq_ok_iff, not_not, LateBurn, recordAt]
    constructor
    · rintro ⟨hrec, ⟨⟩, hasset, hbatch, set, hset, hid, hlate⟩
      exact ⟨h0, hrec, hasset, hbatch, ⟨set, hset, hid⟩, hlate⟩
    · rintro ⟨-, hrec, hasset, hbatch, ⟨set, hset, hid⟩, hlate⟩
      exact ⟨hrec, (), hasset, hbatch, set, hset, hid, hlate⟩

theorem applyDistributeSlashedFunds_tearsIff (counterparties : List (Address × Balance))
    (insuranceShare treasuryShare : Balance) :
    TearsIff (Untouched blake3)
      (applyDistributeSlashedFunds blake3 counterparties insuranceShare treasuryShare) s
      ((∀ c ∈ counterparties, ¬ isReserved blake3 c.1) ∧
        LateCredits s (slashedFundsCredits blake3 counterparties insuranceShare treasuryShare)) := by
  unfold applyDistributeSlashedFunds rejectReserved
  refine (tearsIff_fetch_bind fun _ _ => creditEach_tearsIff _ s).congr ?_
  cases hfind : (counterparties.map Prod.fst).find? (isReserved blake3) with
  | none =>
    simp only [List.find?_eq_none, List.mem_map, forall_exists_index, and_imp,
      forall_apply_eq_imp_iff₂] at hfind
    simp only [true_and, exists_const]
    exact ⟨fun h => ⟨hfind, h⟩, fun h => h.2⟩
  | some addr =>
    obtain ⟨c, hc, rfl⟩ := List.mem_map.mp (List.mem_of_find?_eq_some hfind)
    have hres := List.find?_some hfind
    constructor
    · rintro ⟨_, h, -⟩
      cases h
    · rintro ⟨h, -⟩
      exact absurd hres (h c hc)

end RecordFirst

/-! ## Atomicity -/

/-- The arms together: one case per intent. -/
theorem applyIntent_tearsIff {blake3 : List UInt8 → Bytes32} (hres : ReservedDistinct blake3)
    (s : InMemorySubstrate) (intent : Intent) :
    TearsIff (Untouched blake3) (applyIntent blake3 intent) s (LateFailure blake3 s intent) := by
  cases intent with
  | transfer | distributeRewards | delegate | mintInflation | commitL2StateRoot
  | setL2VerifyingKey | l2ForceInclude | depositAuthorityStake | depositValidatorStake
  | withdrawAuthorityStake | withdrawValidatorStake | postL2DA | addBridgeAsset
  | pauseBridgeAsset | removeBridgeAsset =>
    -- everything is checked before the first write
    refine AtomicAt.tearsIff ?_
    simp [applyIntent, decodeRecord, applyTransfer, applyDistributeRewards, rejectReserved,
      applyDelegate, applyMintInflation, applyCommitL2StateRoot, applySetL2VerifyingKey,
      applyL2ForceInclude, applyDepositStake, applyWithdrawStake, applyAddBridgeAsset,
      applyPauseBridgeAsset, applyRemoveBridgeAsset, setAssetStatus]
  | genesisAllocation allocations => exact (applyGenesisAllocation_atomicAt s _).tearsIff
  | admitAuthority | admitValidator => exact (applyAdmit_atomicAt blake3 s _ _ _ _ _).tearsIff
  | exitAuthority | exitValidator => exact (applyExit_atomicAt blake3 s _ _).tearsIff
  | ejectAuthority | ejectValidator => exact (applyEject_atomicAt blake3 s _ _).tearsIff
  | l1Lock user l2 amount assetId => exact applyL1Lock_tearsIff blake3 s user amount assetId
  | l2BurnProven batchId recipient amount path assetId chain =>
    exact applyL2BurnProven_tearsIff batchId recipient amount path assetId chain
  | slashSequencer reason hash =>
    cases reason with
    | missedForceInclude => exact applySlashMissed_tearsIff hres hash
    | equivocation => exact applySlashOffense_tearsIff hres .equivocation hash
    | invalidBatch => exact applySlashOffense_tearsIff hres .invalidBatch hash
    | downtime => exact (atomicAt_pure ()).tearsIff
  | markForceIncludeHonored id =>
    refine AtomicAt.tearsIff ?_
    exact (settleObligation_atomicAt blake3 s id .honored).bind_infallible fun _ t => ⟨(), t, rfl⟩
  | ejectSequencer id ejector => exact applyEjectSequencer_tearsIff id ejector
  | depositSequencerBond source amount => exact applyPoolMove_tearsIff blake3 s source source _ amount
  | depositSafetyBond source amount => exact applyPoolMove_tearsIff blake3 s source source _ amount
  | disburseTreasury recipient amount tag =>
    exact applyPoolMove_tearsIff blake3 s recipient _ recipient amount
  | claimInsurance claimant amount ref =>
    exact applyPoolMove_tearsIff blake3 s claimant _ claimant amount
  | distributeSlashedFunds event counterparties i t =>
    exact applyDistributeSlashedFunds_tearsIff counterparties i t

/-- **Where `apply_intent` keeps the promise of the trait.**  At any state and for any intent, a
    failure leaves every balance, every record and the state root as they were, EXACTLY when the
    intent does not fail late there. -/
theorem applyIntent_atomic_iff {blake3 : List UInt8 → Bytes32} (hres : ReservedDistinct blake3)
    (s : InMemorySubstrate) (intent : Intent) :
    (∀ e t, applyIntent blake3 intent s = (.error e, t) → Untouched blake3 s t) ↔
      ¬ LateFailure blake3 s intent :=
  (applyIntent_tearsIff hres s intent).forall_iff (untouched_refl s)

/-! ## A failure that is not atomic -/

/-- A chain with one verifying key and one committed batch; nobody holds any money. -/
def committedBatch : List SubstrateCall :=
  [ .applyIntent (.setL2VerifyingKey 0 1 0),
    .applyIntent (.commitL2StateRoot 1 7 (List.replicate 260 0) (List.replicate 240 0) 1) ]

/-- A burn of one token against that batch. -/
def unbackedBurn : Intent := .l2BurnProven 1 5 1 [] none 0

/-- From the empty substrate: the escrow is empty, so the burn FAILS for lack of funds, and yet it
    is recorded as claimed; submitted again, it is refused as a replay. -/
theorem unbackedBurn_claimed :
    let s := runCalls Blake3.hash committedBatch new
    let t := (applyIntent Blake3.hash unbackedBurn s).2
    (applyIntent Blake3.hash unbackedBurn s).1 =
        .error (.insufficientBalance (bridgeEscrowAddress Blake3.hash) 0 1) ∧
      s.readBytes (burnNullifierRegistryAddress Blake3.hash) = none ∧
      t.readBytes (burnNullifierRegistryAddress Blake3.hash) ≠ none ∧
      (applyIntent Blake3.hash unbackedBurn t).1 =
        .error (.l2BurnAlreadyClaimed (BurnNullifier.burnId Blake3.hash 0 1 5 1 [] none)) := by
  decide +kernel

/-- One token with a user, and an escrow that is full. -/
def fullEscrow : InMemorySubstrate :=
  fromBalances [(1, 1), (bridgeEscrowAddress Blake3.hash, BitVec.allOnes 128)]

/-- The equivalence on both of its sides: a transfer is atomic, a lock into a full escrow is not. -/
theorem applyIntent_atomic_iff_fullEscrow :
    (∀ e t, applyIntent Blake3.hash (.transfer 1 2 9) fullEscrow = (.error e, t) →
      Untouched Blake3.hash fullEscrow t) ∧
    ¬ ∀ e t, applyIntent Blake3.hash (.l1Lock 1 2 1 none) fullEscrow = (.error e, t) →
      Untouched Blake3.hash fullEscrow t := by
  refine ⟨(applyIntent_atomic_iff blake3_reservedDistinct _ _).mpr id, fun h => ?_⟩
  refine (applyIntent_atomic_iff blake3_reservedDistinct _ _).mp h ⟨rfl, ?_, ?_, ?_⟩
  · decide +kernel
  · decide +kernel
  · show 2 ^ 128 ≤ _
    decide +kernel

end SuwappuDag.Execution
