/-
  THE STAKE POOLS ARE SOLVENT.

  1. **Debts** — a ring owes what is bonded in its slots; the validator ring also owes what was
     delegated.  Both are sums over tables that live as bytes (`Holds`).
  2. **One application** — a slot operation moves the pool with the slot (`SlotChange.pool`), a
     delegation moves it with its entry, a genesis allocation can only raise it, and no other intent
     but a lock comes near it.
  3. **Payoff** — `stakePools_solvent`: without locks the pools always cover the debts, so the clamp of
     an ejection is idle and no withdrawal runs out of money.
-/
import SuwappuDag.Execution.Slots

namespace SuwappuDag.Execution

open Words Command Reserved InMemorySubstrate MapSum
open DelegationRegistry (DelegationMap)
open Std (ExtTreeMap)

/-! ## What a ring owes -/

section Debts

/-- The stake bonded in a table of slots. -/
def bondedStake (map : RingMap) : Nat := (map.toList.map fun e => e.2.depositedStake.toNat).sum

/-- The stake of a table of delegations. -/
def delegatedStake (map : DelegationMap) : Nat := (map.toList.map fun e => e.2.toNat).sum

/-- What the ring's stake pool has to cover. -/
def Ring.owed (map : RingMap) (reg : DelegationMap) : Ring → Nat
  | .authority => bondedStake map
  | .validator => bondedStake map + delegatedStake reg

variable (blake3 : List UInt8 → Bytes32) (s : InMemorySubstrate)

/-- The delegation record holds the table. -/
def DelegationsHeld (reg : DelegationMap) : Prop :=
  DelegationRegistry.storage.Holds (recordAt s (validatorDelegationRegistryAddress blake3)) reg

/-- The stake pool covers the tables that the records hold. -/
def Ring.Solvent (ring : Ring) : Prop :=
  ∃ map reg, ring.Holds blake3 s map ∧ DelegationsHeld blake3 s reg ∧
    ring.owed map reg ≤ (s.balance (ring.stakePoolAddress blake3)).toNat

end Debts

variable {blake3 : List UInt8 → Bytes32} {ring : Ring} {s t : InMemorySubstrate}

theorem bondedStake_empty : bondedStake ∅ = 0 := by
  rw [bondedStake, ExtTreeMap.toList_eq_nil_iff.mpr rfl]
  rfl

theorem delegatedStake_empty : delegatedStake ∅ = 0 := by
  rw [delegatedStake, ExtTreeMap.toList_eq_nil_iff.mpr rfl]
  rfl

theorem bondedStake_insert (map : RingMap) (id : UInt32) (slot : SlotRecord) :
    bondedStake (map.insert id slot) + bondedIn map[id]? =
      bondedStake map + slot.depositedStake.toNat :=
  sum_toList_insert (fun slot : SlotRecord => slot.depositedStake.toNat) map id slot

variable {id : UInt32} {slot : SlotRecord}

theorem depositedStake_le_bondedStake {map : RingMap} (h : map[id]? = some slot) :
    slot.depositedStake.toNat ≤ bondedStake map :=
  le_sum_toList (fun slot : SlotRecord => slot.depositedStake.toNat) h

theorem delegatedStake_insert (map : DelegationMap) (key : UInt32 ×ₗ Address) (amount : UInt64) :
    delegatedStake (map.insert key amount) + (map[key]?.getD 0).toNat =
      delegatedStake map + amount.toNat := by
  have hsum := sum_toList_insert (fun amount : UInt64 => amount.toNat) map key amount
  cases hkey : map[key]? <;> rw [hkey] at hsum <;> exact hsum

theorem bondedStake_le_owed (map : RingMap) (reg : DelegationMap) :
    bondedStake map ≤ ring.owed map reg := by
  cases ring
  · exact Nat.le_refl _
  · exact Nat.le_add_right _ _

/-- The debts move with the bonded stake. -/
theorem owed_add (map map' : RingMap) (reg : DelegationMap) :
    ring.owed map' reg + bondedStake map = ring.owed map reg + bondedStake map' := by
  cases ring
  · exact Nat.add_comm _ _
  · show bondedStake _ + delegatedStake _ + _ = bondedStake _ + delegatedStake _ + _
    omega

/-- A ring stays solvent where its records and its pool are left alone. -/
theorem solvent_of_frame (h : ring.Solvent blake3 s)
    (hring : ringBytes blake3 ring t = ringBytes blake3 ring s)
    (hdel : recordAt t (validatorDelegationRegistryAddress blake3) =
      recordAt s (validatorDelegationRegistryAddress blake3))
    (hpool : (s.balance (ring.stakePoolAddress blake3)).toNat ≤
      (t.balance (ring.stakePoolAddress blake3)).toNat) : ring.Solvent blake3 t := by
  obtain ⟨map, reg, hmap, hreg, howed⟩ := h
  refine ⟨map, reg, hmap.frame hring, ?_, howed.trans hpool⟩
  unfold DelegationsHeld
  rwa [hdel]

/-- An operation on a slot moves the debts by what it moves the slot's stake, and the pool with it. -/
theorem SlotChange.solvent {op : SlotOp} {map : RingMap}
    (h : SlotChange blake3 ring id op s t map slot)
    (hdel : recordAt t (validatorDelegationRegistryAddress blake3) =
      recordAt s (validatorDelegationRegistryAddress blake3)) (hsolvent : ring.Solvent blake3 s) :
    ring.Solvent blake3 t := by
  obtain ⟨map', reg, hmap, hreg, howed⟩ := hsolvent
  cases hmap.eq_of_decode h.decoded
  refine ⟨map.insert id slot, reg, h.holds, ?_, ?_⟩
  · unfold DelegationsHeld
    rwa [hdel]
  · have hbonded := bondedStake_insert map id slot
    have hpool := h.pool
    have hadd : ring.owed (map.insert id slot) reg + _ = _ := owed_add map (map.insert id slot) reg
    omega

/-! ## Delegations -/

variable (blake3 s) in
/-- A delegation changes nothing, or it pays into the pool what it adds to its entry. -/
theorem delegate_outcome (source : Address) (id : UInt32) (amount : Balance) :
    ((applyDelegate blake3 source id amount s).2 = s ∧
        ((applyDelegate blake3 source id amount s).1 = .ok () → amount = 0)) ∨
      ∃ reg total, DelegationRegistry.decode
          (recordAt s (validatorDelegationRegistryAddress blake3)) = .ok reg ∧ 0 < total ∧
        total.toNat = (reg[toLex (id, source)]?.getD 0).toNat + amount.toNat ∧
        (applyDelegate blake3 source id amount s).1 = .ok () ∧
        recordAt (applyDelegate blake3 source id amount s).2
          (validatorDelegationRegistryAddress blake3) =
            DelegationRegistry.encode (reg.insert (toLex (id, source)) total) ∧
        ((applyDelegate blake3 source id amount s).2.balance
          (validatorStakePoolAddress blake3)).toNat =
            (s.balance (validatorStakePoolAddress blake3)).toNat + amount.toNat := by
  by_cases h0 : amount = 0
  · rw [applyDelegate, if_pos h0]
    exact Or.inl ⟨rfl, fun _ => h0⟩
  have hguarded : Guarded (applyDelegate blake3 source id amount) s _ :=
    applyDelegate_guarded h0 source
  rcases hguarded with ⟨reg, hreg, -, hsource, hfit, hr⟩ | ⟨-, e, hr⟩
  swap
  · rw [hr]
    exact Or.inl ⟨rfl, by simp⟩
  rw [hr]
  rcases hmove : transferInternal source (validatorStakePoolAddress blake3) amount s
    with ⟨e | ⟨⟨⟩⟩, u⟩
  · rw [bind_run_error hmove]
    exact Or.inl ⟨transferInternal_atomicAt _ _ _ s e u hmove, by simp⟩
  rw [bind_run_ok hmove]
  have htotal := toNat_deposit hfit
  have hpos : amount.toNat ≠ 0 := fun h => h0 (BitVec.eq_of_toNat_eq h)
  refine Or.inr ⟨reg, _, hreg, ?_, htotal, rfl, ?_, ?_⟩
  · rw [UInt64.lt_iff_toNat_lt, htotal]
    show 0 < _
    omega
  · show recordAt (u.writeBytesUnchecked _ _) _ = _
    rw [recordAt, readBytes_writeBytesUnchecked, if_pos rfl]
  · show ((u.writeBytesUnchecked _ _).balance _).toNat = _
    have hne : source ≠ validatorStakePoolAddress blake3 :=
      (Account.ne_of_not_isReserved hsource .validatorStakePool).symm
    have hpool := transferInternal_balance hmove (validatorStakePoolAddress blake3)
    rw [moved_dest hne] at hpool
    rw [balance_writeBytesUnchecked]
    omega

theorem delegate_solvent {source : Address} {amount : Balance}
    (ht : t = (applyDelegate blake3 source id amount s).2)
    (hring : ringBytes blake3 ring t = ringBytes blake3 ring s)
    (hpool : ring = .authority → (s.balance (ring.stakePoolAddress blake3)).toNat ≤
      (t.balance (ring.stakePoolAddress blake3)).toNat) (h : ring.Solvent blake3 s) :
    ring.Solvent blake3 t := by
  have hout := delegate_outcome blake3 s source id amount
  rw [← ht] at hout
  rcases hout with ⟨rfl, -⟩ | ⟨reg, total, hdec, hpos, htotal, -, hrec, hpaid⟩
  · exact h
  obtain ⟨map, reg', hmap, hreg, howed⟩ := h
  have heq : reg = reg' := hreg.eq_of_decode hdec
  subst heq
  have hvalid := (DelegationRegistry.decode_pos hdec).insert (toLex (id, source)) hpos
  refine ⟨map, _, hmap.frame hring, Or.inr ⟨hrec, hvalid⟩, ?_⟩
  cases ring with
  | authority => exact howed.trans (hpool rfl)
  | validator =>
    have hinsert := delegatedStake_insert reg (toLex (id, source)) total
    have howed' : bondedStake map + delegatedStake reg ≤
      (s.balance (validatorStakePoolAddress blake3)).toNat := howed
    show bondedStake map + delegatedStake (reg.insert (toLex (id, source)) total) ≤
      (t.balance (validatorStakePoolAddress blake3)).toNat
    omega

/-! ## One application -/

/-- The intent is a lock of the bridge. -/
def Intent.isL1Lock : Intent → Bool
  | .l1Lock .. => true
  | _ => false

theorem genesis_balance_le (allocations : List (Address × Balance)) (a : Address) :
    (s.balance a).toNat ≤ ((applyGenesisAllocation allocations s).2.balance a).toNat := by
  rcases hrun : applyGenesisAllocation allocations s with ⟨e | ⟨⟨⟩⟩, t⟩
  · rw [applyGenesisAllocation_atomicAt s allocations e t hrun]
  · rw [applyGenesisAllocation_balance hrun a]
    exact Nat.le_add_right _ _

variable {intent : Intent}

/-- Who may lower a stake pool: the operations on the ring's slots, delegations and locks. -/
theorem stakePool_le (hres : ReservedDistinct blake3) (s : InMemorySubstrate)
    (hlock : intent.isL1Lock = false) (hop : ∀ id op, intent.slotOp ≠ some (ring, id, op))
    (hdel : ring = .validator → ∀ source id amount, intent ≠ .delegate source id amount) :
    (s.balance (ring.stakePoolAddress blake3)).toNat ≤
      ((applyIntent blake3 intent s).2.balance (ring.stakePoolAddress blake3)).toNat := by
  have hother : ring.stakePool ∉ intent.footprint.pools → intent.footprint.ungated = [] →
      (s.balance (ring.stakePoolAddress blake3)).toNat ≤
        ((applyIntent blake3 intent s).2.balance (ring.stakePoolAddress blake3)).toNat := by
    intro hpools hungated
    rw [← Ring.address_stakePool, (applyIntent_touches hres s intent).balance_eq hpools
      (by rw [hungated]; exact List.not_mem_nil)]
  cases intent with
  | genesisAllocation allocations => exact genesis_balance_le allocations _
  | l1Lock user l2 amount assetId => cases hlock
  | slashSequencer reason hash =>
    cases reason <;> cases ring <;> exact hother (by simp [Intent.footprint, Ring.stakePool]) rfl
  | distributeRewards epoch r recipients =>
    cases r <;> cases ring <;>
      exact hother (by simp [Intent.footprint, Ring.stakePool, Ring.rewardsPool]) rfl
  | delegate source id amount =>
    cases ring with
    | authority => exact hother (by simp [Intent.footprint, Ring.stakePool]) rfl
    | validator => exact absurd rfl (hdel rfl source id amount)
  | _ =>
    cases ring <;>
      first
      | exact absurd rfl (hop _ _)
      | exact hother (by simp [Intent.footprint, Ring.footprint, Ring.stakePool]) rfl

theorem delegations_frame (hres : ReservedDistinct blake3) (s : InMemorySubstrate)
    (h : ∀ source id amount, intent ≠ .delegate source id amount) :
    recordAt (applyIntent blake3 intent s).2 (validatorDelegationRegistryAddress blake3) =
      recordAt s (validatorDelegationRegistryAddress blake3) := by
  refine (applyIntent_touches hres s intent).record_eq hres (a := .validatorDelegationRegistry) ?_
  cases intent with
  | delegate source id amount => exact absurd rfl (h source id amount)
  | slashSequencer reason hash => cases reason <;> simp [Intent.footprint]
  | _ => simp [Intent.footprint, Ring.footprint, Ring.registry]

/-- **One application** keeps a ring solvent, whether it goes through or fails. -/
theorem solvent_step (hres : ReservedDistinct blake3) (s : InMemorySubstrate)
    (hlock : intent.isL1Lock = false) (h : ring.Solvent blake3 s) :
    ring.Solvent blake3 (applyIntent blake3 intent s).2 := by
  rcases ring_step hres ring ⟨intent, s⟩ with ⟨hop, hbytes⟩ | ⟨id, op, hop, hidle | hchange⟩
  · by_cases hdel : ∀ source id amount, intent ≠ .delegate source id amount
    · exact solvent_of_frame h hbytes (delegations_frame hres s hdel)
        (stakePool_le hres s hlock hop fun _ => hdel)
    · push Not at hdel
      obtain ⟨source, id, amount, rfl⟩ := hdel
      refine delegate_solvent rfl hbytes (fun hring => ?_) h
      exact stakePool_le hres s hlock hop fun hring' => by rw [hring] at hring'; cases hring'
  · have hsame : (applyIntent blake3 intent s).2 = s := hidle.1
    rw [hsame]
    exact h
  · obtain ⟨-, map, slot, hchange⟩ := hchange
    refine hchange.solvent (delegations_frame hres s ?_) h
    rintro source id' amount rfl
    cases hop

/-! ## What follows for ejections and withdrawals -/

theorem depositedStake_le_pool (h : ring.Solvent blake3 s)
    (hslot : ring.slotRecord blake3 s id = some slot) :
    slot.depositedStake.toNat ≤ (s.balance (ring.stakePoolAddress blake3)).toNat := by
  obtain ⟨map, reg, hmap, -, howed⟩ := h
  have hle := depositedStake_le_bondedStake (hmap.slotRecord hslot)
  exact hle.trans ((bondedStake_le_owed map reg).trans howed)

/-- The clamp of an ejection takes nothing away. -/
theorem drainedStake_eq (h : ring.Solvent blake3 s) (hslot : ring.slotRecord blake3 s id = some slot) :
    drainedStake blake3 ring s slot = BitVec.ofNat 128 slot.depositedStake.toNat := by
  refine min_eq_left ?_
  rw [BitVec.le_def, toNat_ofDeposited]
  exact depositedStake_le_pool h hslot

/-- A withdrawal that runs out of money has passed every check of its own. -/
theorem applyWithdrawStake_insufficient {dest source : Address} {amount available need : Balance}
    (h : applyWithdrawStake blake3 ring dest id amount s =
      (.error (.insufficientBalance source available need), t)) :
    ∃ slot, ring.slotRecord blake3 s id = some slot ∧ amount.toNat ≤ slot.depositedStake.toNat ∧
      transferInternal (ring.stakePoolAddress blake3) dest amount s =
        (.error (.insufficientBalance source available need), t) := by
  rw [applyWithdrawStake, read_bind_run] at h
  split at h
  · cases h
  rcases failIf_bind_eq_error_iff.mp h with ⟨-, he, -⟩ | ⟨-, h⟩
  · cases he
  rcases fetch_bind_eq_error_iff.mp h with ⟨he, -⟩ | ⟨map, hdec, h⟩
  · obtain ⟨_, -, he⟩ := mapError_eq_error_iff.mp he
    cases he
  rcases fetch_bind_eq_error_iff.mp h with ⟨he, -⟩ | ⟨slot, hslot, h⟩
  · have hfound := (getOr_eq_error_iff.mp he).2
    cases ring <;> cases hfound
  rcases failIf_bind_eq_error_iff.mp h with ⟨-, he, -⟩ | ⟨-, h⟩
  · cases he
  rcases failIf_bind_eq_error_iff.mp h with ⟨-, he, -⟩ | ⟨-, h⟩
  · cases he
  rcases failIf_bind_eq_error_iff.mp h with ⟨-, he, -⟩ | ⟨hle, h⟩
  · cases he
  refine ⟨slot, ?_, ?_, ?_⟩
  · rw [Ring.slotRecord, Ring.slots_of_decode (mapError_eq_ok_iff.mp hdec)]
    exact getOr_eq_ok_iff.mp hslot
  · rwa [gt_iff_lt, not_lt, BitVec.le_def, toNat_ofDeposited] at hle
  · rcases bind_eq_error_iff.mp h with h | ⟨_, _, -, hwrite⟩
    · exact h
    · cases hwrite

theorem withdrawal_covered (h : ring.Solvent blake3 s) (dest : Address) (id : UInt32)
    (amount : Balance) (source : Address) (available need : Balance) :
    (applyWithdrawStake blake3 ring dest id amount s).1 ≠
      .error (.insufficientBalance source available need) := by
  rcases hrun : applyWithdrawStake blake3 ring dest id amount s with ⟨r, t⟩
  rintro rfl
  obtain ⟨slot, hslot, hle, hmove⟩ := applyWithdrawStake_insufficient hrun
  have hcover : amount ≤ s.balance (ring.stakePoolAddress blake3) := by
    rw [BitVec.le_def]
    exact hle.trans (depositedStake_le_pool h hslot)
  cases (transferInternal_covered hcover hmove).2.2

/-! ## Runs -/

/-- The call is a lock of the bridge. -/
def SubstrateCall.isL1Lock : SubstrateCall → Bool
  | .setCurrentBlockHeight _ => false
  | .applyIntent intent => intent.isL1Lock

theorem solvent_new (ring : Ring) : ring.Solvent blake3 new := by
  refine ⟨∅, ∅, ring.holds_new, DelegationRegistry.storage.holds_nil, ?_⟩
  have howed : ring.owed ∅ ∅ = 0 := by
    cases ring with
    | authority => exact bondedStake_empty
    | validator => exact congrArg₂ (· + ·) bondedStake_empty delegatedStake_empty
  rw [howed]
  exact Nat.zero_le _

/-- The run lemma, by induction over the calls. -/
theorem solvent_runCalls (hres : ReservedDistinct blake3) (ring : Ring) {calls : List SubstrateCall}
    (hlock : ∀ call ∈ calls, call.isL1Lock = false) (h : ring.Solvent blake3 s) :
    ring.Solvent blake3 (runCalls blake3 calls s) := by
  induction calls generalizing s with
  | nil => exact h
  | cons call calls ih =>
    rw [List.forall_mem_cons] at hlock
    refine ih hlock.2 ?_
    cases call with
    | setCurrentBlockHeight height => exact h
    | applyIntent intent => exact solvent_step hres s hlock.1 h

/-- **The stake pools are solvent.**  Whatever a run from the empty substrate does, locks apart: each
    pool covers the stake bonded in the slots of its ring, the validators' pool the delegations too,
    summed over the tables that the records hold.  So an ejection always drains the whole stake of its
    slot, and no withdrawal, from whichever ring and of whichever amount, fails because the pool is
    short. -/
theorem stakePools_solvent (hres : ReservedDistinct blake3) (calls : List SubstrateCall)
    (hlock : ∀ call ∈ calls, call.isL1Lock = false) :
    (∃ map, Ring.authority.Holds blake3 (runCalls blake3 calls new) map ∧
      bondedStake map ≤
        ((runCalls blake3 calls new).balance (authorityStakePoolAddress blake3)).toNat) ∧
    (∃ map reg, Ring.validator.Holds blake3 (runCalls blake3 calls new) map ∧
      DelegationsHeld blake3 (runCalls blake3 calls new) reg ∧
      bondedStake map + delegatedStake reg ≤
        ((runCalls blake3 calls new).balance (validatorStakePoolAddress blake3)).toNat) ∧
    (∀ (ring : Ring) (id : UInt32) (slot : SlotRecord),
      ring.slotRecord blake3 (runCalls blake3 calls new) id = some slot →
      drainedStake blake3 ring (runCalls blake3 calls new) slot =
        BitVec.ofNat 128 slot.depositedStake.toNat) ∧
    ∀ (intent : Intent) (ring : Ring) (id : UInt32) (dest : Address) (amount : Balance),
      intent.slotOp = some (ring, id, .withdrawal dest amount) →
      ∀ source available need, (applyIntent blake3 intent (runCalls blake3 calls new)).1 ≠
        .error (.insufficientBalance source available need) := by
  have hsolvent : ∀ ring : Ring, ring.Solvent blake3 (runCalls blake3 calls new) :=
    fun ring => solvent_runCalls hres ring hlock (solvent_new ring)
  refine ⟨?_, hsolvent .validator, fun ring id slot hslot => ?_, ?_⟩
  · obtain ⟨map, reg, hmap, -, howed⟩ := hsolvent .authority
    exact ⟨map, hmap, howed⟩
  · exact drainedStake_eq (hsolvent ring) hslot
  · intro intent ring id dest amount hop source available need
    rw [applyIntent_of_slotOp hop]
    exact withdrawal_covered (hsolvent ring) dest id amount source available need

/-- A slot with a deposit of five, and a slot with a delegation of three. -/
def bondedRun : List SubstrateCall :=
  [ .applyIntent (.genesisAllocation [(1, 9)]), .applyIntent (.admitAuthority 0 0 [] []),
    .applyIntent (.admitValidator 0 0 [] []), .applyIntent (.depositAuthorityStake 1 0 5),
    .applyIntent (.delegate 1 0 3) ]

theorem stakePools_solvent_bonded :
    bondedStake (Ring.authority.slots Blake3.hash (runCalls Blake3.hash bondedRun new)) = 5 ∧
      5 ≤ ((runCalls Blake3.hash bondedRun new).balance
        (authorityStakePoolAddress Blake3.hash)).toNat := by
  have hbonded : (Ring.authority.slotRecord Blake3.hash (runCalls Blake3.hash bondedRun new) 0).isSome ∧
      bondedStake (Ring.authority.slots Blake3.hash (runCalls Blake3.hash bondedRun new)) = 5 := by
    decide +kernel
  obtain ⟨slot, hslot⟩ := Option.isSome_iff_exists.mp hbonded.1
  obtain ⟨map, hmap, hpool⟩ := (stakePools_solvent blake3_reservedDistinct bondedRun (by decide)).1
  rw [← hmap.eq_of_decode (Ring.decode_of_slotRecord hslot), hbonded.2] at hpool
  exact ⟨hbonded.2, hpool⟩

end SuwappuDag.Execution
