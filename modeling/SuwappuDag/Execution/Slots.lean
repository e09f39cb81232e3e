/-
  RING SLOTS, step by step.

  1. **Tables** — `Ring.Holds` names the table that the bytes of a ring's record stand for, also where
     the decoder no longer takes them.
  2. **Operations** — ten intents work on the slots of a ring: `Intent.slotOp` reads off the ring, the
     slot and the operation.  Every other intent leaves the ring's record alone.
  3. **`SlotOp.Step`** — what an operation makes of a slot when it goes through: the checks it has passed
     and the slot it writes.
  4. **Crux** — `ring_step`: an application leaves the ring's bytes as they were, or it succeeded and
     wrote the decoded table with ONE slot replaced as `Step` says; and then the ring's stake pool has
     moved at least as much as the slot's bonded stake.
-/
import SuwappuDag.Execution.Arms
import SuwappuDag.Execution.History

namespace SuwappuDag.Execution

open Words Command Reserved InMemorySubstrate
open RingRegistry (Capped)
open Std (ExtTreeMap)

/-! ## The table of slots -/

section Tables

variable (blake3 : List UInt8 → Bytes32) (ring : Ring) (s : InMemorySubstrate)

/-- The slots of a ring; an unreadable record shows none. -/
def Ring.slots : RingMap :=
  match ring.decode (ringBytes blake3 ring s) with
  | .ok map => map
  | .error _ => ∅

/-- `authority_record`, `validator_record`. -/
def Ring.slotRecord (id : UInt32) : Option SlotRecord := (ring.slots blake3 s)[id]?

/-- The ring's record holds the table. -/
def Ring.Holds (map : RingMap) : Prop :=
  (RingRegistry.ringStorage ring.asStr).Holds (ringBytes blake3 ring s) map

end Tables

variable {blake3 : List UInt8 → Bytes32} {ring : Ring} {s t : InMemorySubstrate}

variable {map : RingMap}

theorem Ring.slots_of_decode (h : ring.decode (ringBytes blake3 ring s) = .ok map) :
    ring.slots blake3 s = map := by
  rw [slots, h]

variable {id : UInt32} {slot : SlotRecord}

/-- A slot that is shown stands in a readable record. -/
theorem Ring.decode_of_slotRecord (h : ring.slotRecord blake3 s id = some slot) :
    ring.decode (ringBytes blake3 ring s) = .ok (ring.slots blake3 s) := by
  unfold slotRecord slots at *
  split at h
  · next map hdec => rw [hdec]
  · simp at h

theorem Ring.holds_new : ring.Holds blake3 new ∅ := Codec.Storage.holds_nil _

theorem Ring.Holds.eq_of_decode {map map' : RingMap} (h : ring.Holds blake3 s map)
    (hdec : ring.decode (ringBytes blake3 ring s) = .ok map') : map' = map := by
  rw [ring.decode_eq] at hdec
  exact Codec.Storage.Holds.eq_of_decode h hdec

/-- A shown slot is one of the table. -/
theorem Ring.Holds.slotRecord (h : ring.Holds blake3 s map)
    (hslot : ring.slotRecord blake3 s id = some slot) : map[id]? = some slot := by
  rw [← h.eq_of_decode (Ring.decode_of_slotRecord hslot)]
  exact hslot

theorem Ring.Holds.frame (h : ring.Holds blake3 s map)
    (hbytes : ringBytes blake3 ring t = ringBytes blake3 ring s) : ring.Holds blake3 t map := by
  unfold Holds at *
  rwa [hbytes]

/-! ## Operations -/

/-- What an intent asks of a slot. -/
inductive SlotOp where
  | admission (stakeSuwappu : UInt64) (mldsaPublicKey blsPublicKey : List UInt8)
  | exit
  | ejection
  | deposit (source : Address) (amount : Balance)
  | withdrawal (dest : Address) (amount : Balance)
deriving DecidableEq

/-- The ring, the slot and the operation of an intent that works on a slot. -/
def Intent.slotOp : Intent → Option (Ring × UInt32 × SlotOp)
  | .admitAuthority id stake mldsa bls => some (.authority, id, .admission stake mldsa bls)
  | .exitAuthority id => some (.authority, id, .exit)
  | .ejectAuthority id _ => some (.authority, id, .ejection)
  | .depositAuthorityStake source id amount => some (.authority, id, .deposit source amount)
  | .withdrawAuthorityStake dest id amount => some (.authority, id, .withdrawal dest amount)
  | .admitValidator id stake mldsa bls => some (.validator, id, .admission stake mldsa bls)
  | .exitValidator id => some (.validator, id, .exit)
  | .ejectValidator id _ => some (.validator, id, .ejection)
  | .depositValidatorStake source id amount => some (.validator, id, .deposit source amount)
  | .withdrawValidatorStake dest id amount => some (.validator, id, .withdrawal dest amount)
  | _ => none

namespace SlotOp

/-- The arm that carries the operation out. -/
def run (blake3 : List UInt8 → Bytes32) (ring : Ring) (id : UInt32) : SlotOp → Exec Unit
  | .admission stake mldsa bls => applyAdmit blake3 ring id stake mldsa bls
  | .exit => applyExit blake3 ring id
  | .ejection => applyEject blake3 ring id
  | .deposit source amount => applyDepositStake blake3 ring source id amount
  | .withdrawal dest amount => applyWithdrawStake blake3 ring dest id amount

/-- The operation goes through at a height: `old` is the slot it finds, `new` the one it leaves. -/
def Step (height : UInt64) (old : Option SlotRecord) (new : SlotRecord) : SlotOp → Prop
  | .admission stake mldsa bls => old = none ∧ new = ⟨mldsa, bls, stake, 0, 0, .active⟩
  | .exit => ∃ slot, old = some slot ∧ slot.status = .active ∧
      new = { slot with status := .exiting, exitBlockHeight := height }
  | .ejection => ∃ slot, old = some slot ∧ new = ejectedSlot slot
  | .deposit _ amount => amount ≠ 0 ∧ ∃ slot, old = some slot ∧ slot.status = .active ∧
      slot.depositedStake.toNat + amount.toNat < 2 ^ 64 ∧
      new = { slot with depositedStake := slot.depositedStake + UInt64.ofNat amount.toNat }
  | .withdrawal _ amount => amount ≠ 0 ∧ ∃ slot, old = some slot ∧ slot.status = .exiting ∧
      saturatingAdd slot.exitBlockHeight exitCooldownBlocks ≤ height ∧
      amount.toNat ≤ slot.depositedStake.toNat ∧
      new = { slot with depositedStake := slot.depositedStake - UInt64.ofNat amount.toNat }

end SlotOp

/-- A deposit or a withdrawal of nothing succeeds and does nothing. -/
def SlotOp.Idle : SlotOp → Prop
  | .deposit _ amount => amount = 0
  | .withdrawal _ amount => amount = 0
  | _ => False

variable {op : SlotOp}

theorem applyIntent_of_slotOp {intent : Intent} (h : intent.slotOp = some (ring, id, op)) :
    applyIntent blake3 intent = op.run blake3 ring id := by
  cases intent <;> cases h <;> rfl

/-- Only operations on its slots may write a ring's record. -/
theorem slotOp_of_record {intent : Intent} (h : intent.footprint.record = some ring.registry) :
    ∃ id op, intent.slotOp = some (ring, id, op) := by
  cases intent with
  | slashSequencer reason hash => cases reason <;> cases ring <;> cases h
  | distributeRewards epoch r recipients => cases r <;> cases ring <;> cases h
  | _ => cases ring <;> cases h <;> exact ⟨_, _, rfl⟩

/-- The stake bonded in a slot that may be empty. -/
def bondedIn (slot : Option SlotRecord) : Nat := (slot.map fun slot => slot.depositedStake.toNat).getD 0

/-- What an operation that went through did to the ring. -/
structure SlotChange (blake3 : List UInt8 → Bytes32) (ring : Ring) (id : UInt32) (op : SlotOp)
    (s t : InMemorySubstrate) (map : RingMap) (slot : SlotRecord) : Prop where
  decoded : ring.decode (ringBytes blake3 ring s) = .ok map
  step : op.Step s.currentBlockHeight map[id]? slot
  capped : Capped slot
  written : ringBytes blake3 ring t = ring.encode (map.insert id slot)
  pool : (s.balance (ring.stakePoolAddress blake3)).toNat + slot.depositedStake.toNat ≤
    (t.balance (ring.stakePoolAddress blake3)).toNat + bondedIn map[id]?

theorem SlotChange.holds (h : SlotChange blake3 ring id op s t map slot) :
    ring.Holds blake3 t (map.insert id slot) := by
  refine Or.inr ⟨?_, Ring.capped_insert h.decoded h.capped⟩
  rw [h.written, ring.encode_eq]
  rfl

/-- How an operation ends. -/
def SlotOp.Outcome (blake3 : List UInt8 → Bytes32) (ring : Ring) (id : UInt32) (op : SlotOp)
    (s : InMemorySubstrate) (r : Except ExecutionError Unit × InMemorySubstrate) : Prop :=
  (r.2 = s ∧ (r.1 = .ok () → op.Idle)) ∨
  (r.1 = .ok () ∧ ∃ map slot, SlotChange blake3 ring id op s r.2 map slot)

theorem outcome_of_error {e : ExecutionError} :
    op.Outcome blake3 ring id s (.error e, s) := Or.inl ⟨rfl, fun h => by cases h⟩

/-! ## The five operations -/

theorem ringBytes_write (map : RingMap) :
    ringBytes blake3 ring (s.writeBytesUnchecked (ring.registryAddress blake3) (ring.encode map)) =
      ring.encode map := by
  rw [ringBytes, recordAt, readBytes_writeBytesUnchecked, if_pos rfl]

theorem admission_outcome (id : UInt32) (stake : UInt64) (mldsa bls : List UInt8) :
    (SlotOp.admission stake mldsa bls).Outcome blake3 ring id s
      (applyAdmit blake3 ring id stake mldsa bls s) := by
  have hguarded : Guarded (applyAdmit blake3 ring id stake mldsa bls) s _ :=
    applyAdmit_guarded stake mldsa bls
  rcases hguarded with ⟨map, hdec, hfree, hcap, hr⟩ | ⟨-, e, hr⟩
  · rw [hr]
    have hnone : map[id]? = none := ExtTreeMap.getElem?_eq_none hfree
    refine Or.inr ⟨rfl, map, _, hdec, ⟨hnone, rfl⟩, hcap, ringBytes_write _, ?_⟩
    rw [balance_writeBytesUnchecked, hnone]
    exact Nat.le_refl _
  · rw [hr]
    exact outcome_of_error

theorem exit_outcome (id : UInt32) :
    SlotOp.exit.Outcome blake3 ring id s (applyExit blake3 ring id s) := by
  have hguarded : Guarded (applyExit blake3 ring id) s _ := applyExit_guarded
  rcases hguarded with ⟨map, slot, hdec, hslot, hactive, hr⟩ | ⟨-, e, hr⟩
  · rw [hr]
    have hcap : Capped slot := RingRegistry.ringDecode_capped (ring.decode_eq ▸ hdec) hslot
    refine Or.inr ⟨rfl, map, _, hdec, ⟨slot, hslot, hactive, rfl⟩, ⟨hcap.1, hcap.2⟩,
      ringBytes_write _, ?_⟩
    rw [balance_writeBytesUnchecked, hslot]
    exact Nat.le_refl _
  · rw [hr]
    exact outcome_of_error

/-- An operation that moves money first and then replaces the slot. -/
theorem outcome_of_move {c : Exec Unit} {r : Except ExecutionError Unit × InMemorySubstrate}
    (hat : AtomicAt c s) (hr : r = (c >>= fun _ => writeRecord (ring.registryAddress blake3)
      (ring.encode (map.insert id slot))) s) (hdec : ring.decode (ringBytes blake3 ring s) = .ok map)
    (hstep : op.Step s.currentBlockHeight map[id]? slot) (hcap : Capped slot)
    (hpool : ∀ u, c s = (.ok (), u) →
      (s.balance (ring.stakePoolAddress blake3)).toNat + slot.depositedStake.toNat ≤
        (u.balance (ring.stakePoolAddress blake3)).toNat + bondedIn map[id]?) :
    op.Outcome blake3 ring id s r := by
  rcases hrun : c s with ⟨e | ⟨⟨⟩⟩, u⟩
  · rw [hr, bind_run_error hrun, hat e u hrun]
    exact outcome_of_error
  · rw [hr, bind_run_ok hrun]
    refine Or.inr ⟨rfl, map, slot, hdec, hstep, hcap, ringBytes_write _, ?_⟩
    show _ ≤ ((u.writeBytesUnchecked _ _).balance _).toNat + _
    rw [balance_writeBytesUnchecked]
    exact hpool u hrun

/-- The waterfall leaves the stake pools. -/
theorem waterfall_ne_stakePool (hres : ReservedDistinct blake3) (amount : Balance) :
    ∀ c ∈ waterfall blake3 amount, c.1 ≠ ring.stakePoolAddress blake3 := by
  rw [← Ring.address_stakePool]
  apply waterfall_ne
  · exact Account.address_ne hres (a := .insurancePool) (by cases ring <;> decide)
  · exact Account.address_ne hres (a := .treasury) (by cases ring <;> decide)

theorem drainEjected_pool (hres : ReservedDistinct blake3) {u : InMemorySubstrate}
    (h : drainEjected blake3 (ring.stakePoolAddress blake3) (drainedStake blake3 ring s slot) s =
      (.ok (), u)) :
    (u.balance (ring.stakePoolAddress blake3)).toNat + (drainedStake blake3 ring s slot).toNat =
      (s.balance (ring.stakePoolAddress blake3)).toNat := by
  unfold drainEjected at h
  split at h
  · have hsource := drainAndCreditAtomic_source (waterfall_ne_stakePool hres _) h
    rwa [creditSum_waterfall] at hsource
  · next hpos =>
    cases h
    have hzero : (drainedStake blake3 ring s slot).toNat = 0 := by
      rw [gt_iff_lt, BitVec.lt_def] at hpos
      have : (0 : Balance).toNat = 0 := rfl
      omega
    omega

theorem toNat_ofDeposited (slot : SlotRecord) :
    (BitVec.ofNat 128 slot.depositedStake.toNat).toNat = slot.depositedStake.toNat := by
  have := slot.depositedStake.toNat_lt
  rw [BitVec.toNat_ofNat, Nat.mod_eq_of_lt (by omega)]

theorem drainedStake_le (slot : SlotRecord) :
    (drainedStake blake3 ring s slot).toNat ≤ slot.depositedStake.toNat := by
  have hle : drainedStake blake3 ring s slot ≤ BitVec.ofNat 128 slot.depositedStake.toNat :=
    min_le_left _ _
  rwa [BitVec.le_def, toNat_ofDeposited] at hle

theorem ejection_outcome (hres : ReservedDistinct blake3) (id : UInt32) :
    SlotOp.ejection.Outcome blake3 ring id s (applyEject blake3 ring id s) := by
  have hguarded : Guarded (applyEject blake3 ring id) s _ := applyEject_guarded
  rcases hguarded with ⟨map, slot, hdec, hslot, hr⟩ | ⟨-, e, hr⟩
  · have hcap : Capped slot := RingRegistry.ringDecode_capped (ring.decode_eq ▸ hdec) hslot
    refine outcome_of_move (drainEjected_atomicAt blake3 s _ _) hr hdec ⟨slot, hslot, rfl⟩
      ⟨hcap.1, hcap.2⟩ fun u hdrain => ?_
    have hpool := drainEjected_pool hres hdrain
    have hle : (drainedStake blake3 ring s slot).toNat ≤ _ := drainedStake_le slot
    rw [hslot]
    show _ + 0 ≤ _ + slot.depositedStake.toNat
    omega
  · rw [hr]
    exact outcome_of_error

theorem ne_stakePool {user : Address} (h : ¬ isReserved blake3 user = true) :
    user ≠ ring.stakePoolAddress blake3 := by
  rw [← Ring.address_stakePool]
  exact (Account.ne_of_not_isReserved h _).symm

theorem toNat_deposit {bonded : UInt64} {amount : Balance}
    (h : bonded.toNat + amount.toNat < 2 ^ 64) :
    (bonded + UInt64.ofNat amount.toNat).toNat = bonded.toNat + amount.toNat := by
  have h64 : amount.toNat < 2 ^ 64 := by omega
  rw [UInt64.toNat_add, UInt64.toNat_ofNat_of_lt' h64, Nat.mod_eq_of_lt h]

theorem toNat_withdrawal {bonded : UInt64} {amount : Balance} (h : amount.toNat ≤ bonded.toNat) :
    (bonded - UInt64.ofNat amount.toNat).toNat = bonded.toNat - amount.toNat := by
  have h64 : amount.toNat < 2 ^ 64 := by
    have := bonded.toNat_lt
    omega
  have hle : UInt64.ofNat amount.toNat ≤ bonded := by
    rw [UInt64.le_iff_toNat_le, UInt64.toNat_ofNat_of_lt' h64]
    exact h
  rw [UInt64.toNat_sub_of_le _ _ hle, UInt64.toNat_ofNat_of_lt' h64]

theorem deposit_outcome (source : Address) (id : UInt32) (amount : Balance) :
    (SlotOp.deposit source amount).Outcome blake3 ring id s
      (applyDepositStake blake3 ring source id amount s) := by
  by_cases h0 : amount = 0
  · rw [applyDepositStake, if_pos h0]
    exact Or.inl ⟨rfl, fun _ => h0⟩
  have hguarded : Guarded (applyDepositStake blake3 ring source id amount) s _ :=
    applyDepositStake_guarded h0 source
  rcases hguarded with ⟨map, slot, hdec, hslot, hsource, hactive, hfit, hr⟩ | ⟨-, e, hr⟩
  · have hcap : Capped slot := RingRegistry.ringDecode_capped (ring.decode_eq ▸ hdec) hslot
    refine outcome_of_move (transferInternal_atomicAt _ _ _ s) hr hdec
      ⟨h0, slot, hslot, hactive, hfit, rfl⟩ ⟨hcap.1, hcap.2⟩ fun u hmove => ?_
    have hpool := transferInternal_balance hmove (ring.stakePoolAddress blake3)
    rw [moved_dest (ne_stakePool hsource)] at hpool
    rw [hslot]
    show _ + (slot.depositedStake + UInt64.ofNat amount.toNat).toNat ≤ _ + slot.depositedStake.toNat
    rw [toNat_deposit hfit]
    omega
  · rw [hr]
    exact outcome_of_error

theorem withdrawal_outcome (dest : Address) (id : UInt32) (amount : Balance) :
    (SlotOp.withdrawal dest amount).Outcome blake3 ring id s
      (applyWithdrawStake blake3 ring dest id amount s) := by
  by_cases h0 : amount = 0
  · rw [applyWithdrawStake, read_bind_run, if_pos h0]
    exact Or.inl ⟨rfl, fun _ => h0⟩
  have hguarded : Guarded (applyWithdrawStake blake3 ring dest id amount) s _ :=
    applyWithdrawStake_guarded h0 dest
  rcases hguarded with ⟨map, slot, hdec, hslot, hdest, hexiting, hcool, hle, hr⟩ | ⟨-, e, hr⟩
  · have hcap : Capped slot := RingRegistry.ringDecode_capped (ring.decode_eq ▸ hdec) hslot
    refine outcome_of_move (transferInternal_atomicAt _ _ _ s) hr hdec
      ⟨h0, slot, hslot, hexiting, hcool, hle, rfl⟩ ⟨hcap.1, hcap.2⟩ fun u hmove => ?_
    have hpool := transferInternal_balance hmove (ring.stakePoolAddress blake3)
    rw [moved_source (ne_stakePool hdest)] at hpool
    rw [hslot]
    show _ + (slot.depositedStake - UInt64.ofNat amount.toNat).toNat ≤ _ + slot.depositedStake.toNat
    rw [toNat_withdrawal hle]
    omega
  · rw [hr]
    exact outcome_of_error

theorem slotOp_outcome (hres : ReservedDistinct blake3) (id : UInt32) (op : SlotOp) :
    op.Outcome blake3 ring id s (op.run blake3 ring id s) := by
  cases op with
  | admission stake mldsa bls => exact admission_outcome id stake mldsa bls
  | exit => exact exit_outcome id
  | ejection => exact ejection_outcome hres id
  | deposit source amount => exact deposit_outcome source id amount
  | withdrawal dest amount => exact withdrawal_outcome dest id amount

/-! ## One application -/

/-- **What an application does to a ring**: it works on none of the ring's slots and leaves the record
    alone; or it works on a slot and does nothing; or it succeeds and replaces that slot. -/
theorem ring_step (hres : ReservedDistinct blake3) (ring : Ring) (a : Applied) :
    ((∀ id op, a.intent.slotOp ≠ some (ring, id, op)) ∧
      ringBytes blake3 ring (a.after blake3) = ringBytes blake3 ring a.before) ∨
    ∃ id op, a.intent.slotOp = some (ring, id, op) ∧
      ((a.after blake3 = a.before ∧ (a.Succeeds blake3 → op.Idle)) ∨
        (a.Succeeds blake3 ∧ ∃ map slot,
          SlotChange blake3 ring id op a.before (a.after blake3) map slot)) := by
  by_cases hop : ∃ id op, a.intent.slotOp = some (ring, id, op)
  · obtain ⟨id, op, hop⟩ := hop
    refine Or.inr ⟨id, op, hop, ?_⟩
    have houtcome : op.Outcome blake3 ring id a.before (op.run blake3 ring id a.before) :=
      slotOp_outcome hres id op
    rwa [← applyIntent_of_slotOp hop] at houtcome
  · refine Or.inl ⟨fun id op h => hop ⟨id, op, h⟩, ?_⟩
    rw [ringBytes, ringBytes, ← Ring.address_registry]
    exact (applyIntent_touches hres a.before a.intent).record_eq hres
      fun hrec => hop (slotOp_of_record hrec)

end SuwappuDag.Execution
