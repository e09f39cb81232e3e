/-
  WHAT ADMISSION, EXIT AND EJECTION CHANGE in the substrate.

  Each of the three fails without a trace or writes the ring's record.  A write is a CHANGE when the
  new bytes differ from the old ones, and the round trip of the record's codec turns that into a
  condition on the slot: an admission of a free slot and the exit of an active one always change
  something, an ejection of a slot that is already ejected and drained does not.
-/
import SuwappuDag.Execution.Atomicity

namespace SuwappuDag.Execution

open Words Command Reserved InMemorySubstrate
open RingRegistry (Capped)
open Std (ExtTreeMap)

/-- Every balance and every record is what it was. -/
def SameRecords (s t : InMemorySubstrate) : Prop :=
  (∀ a, t.balance a = s.balance a) ∧ ∀ a, t.readBytes a = s.readBytes a

theorem sameRecords_refl (s : InMemorySubstrate) : SameRecords s s := ⟨fun _ => rfl, fun _ => rfl⟩

/-! ## The conditions -/

section Conditions

variable (blake3 : List UInt8 → Bytes32) (ring : Ring) (s : InMemorySubstrate)

/-- The bytes of the ring's record. -/
def ringBytes : List UInt8 := recordAt s (ring.registryAddress blake3)

/-- The keys are short enough and the slot is free. -/
def AdmitsSlot (id : UInt32) (mldsaPublicKey blsPublicKey : List UInt8) : Prop :=
  mldsaPublicKey.length ≤ RingRegistry.maxMldsaPkBytes ∧
  blsPublicKey.length ≤ RingRegistry.maxBlsPkBytes ∧
  ∃ map, ring.decode (ringBytes blake3 ring s) = .ok map ∧ id ∉ map

/-- The slot is active. -/
def ExitsSlot (id : UInt32) : Prop :=
  ∃ map slot, ring.decode (ringBytes blake3 ring s) = .ok map ∧ map[id]? = some slot ∧
    slot.status = .active

/-- What an ejection takes out of the stake pool. -/
def drainedStake (slot : SlotRecord) : Balance :=
  min (BitVec.ofNat 128 slot.depositedStake.toNat) (s.balance (ring.stakePoolAddress blake3))

/-- The slot is there, its stake can be paid out, and the slot is not what an ejection leaves; or the
    record is not as it would be written now. -/
def EjectsSlot (id : UInt32) : Prop :=
  ∃ map slot, ring.decode (ringBytes blake3 ring s) = .ok map ∧ map[id]? = some slot ∧
    ¬ PoolOverflows blake3 s (drainedStake blake3 ring s slot) ∧
    (slot.status ≠ .ejected ∨ slot.depositedStake ≠ 0 ∨
      ring.encode map ≠ ringBytes blake3 ring s)

end Conditions

/-! ## Writing a record -/

variable {blake3 : List UInt8 → Bytes32} {ring : Ring} {s : InMemorySubstrate}

variable {addr : Address} {bytes : List UInt8}

theorem readBytes_write (hne : bytes ≠ []) (a : Address) :
    (s.writeBytesUnchecked addr bytes).readBytes a =
      if addr = a then some bytes else s.readBytes a := by
  rw [writeBytesUnchecked, if_neg hne]
  show (s.bytesState.insert addr bytes)[a]? = _
  rw [ExtTreeMap.getElem?_insert]
  simp only [compare_eq_iff_eq]
  rfl

/-- A record that is written changes something exactly when it differs from what was there. -/
theorem sameRecords_write_iff (hne : bytes ≠ []) :
    SameRecords s (s.writeBytesUnchecked addr bytes) ↔ bytes = recordAt s addr := by
  constructor
  · rintro ⟨-, hbytes⟩
    have h := hbytes addr
    rw [readBytes_write hne, if_pos rfl] at h
    rw [recordAt, ← h]
    rfl
  · intro heq
    refine ⟨fun a => by rw [balance_writeBytesUnchecked], fun a => ?_⟩
    rw [readBytes_write hne]
    split
    · next ha =>
      subst ha
      cases hget : s.readBytes addr with
      | none =>
        rw [recordAt, hget] at heq
        exact absurd heq hne
      | some old =>
        rw [recordAt, hget] at heq
        rw [heq]
        rfl
    · rfl

theorem Ring.encode_eq (ring : Ring) : ring.encode = RingRegistry.ringEncode := by
  cases ring <;> rfl

theorem Ring.decode_eq (ring : Ring) : ring.decode = RingRegistry.ringDecode ring.asStr := by
  cases ring <;> rfl

theorem Ring.encode_ne_nil (ring : Ring) (map : RingMap) : ring.encode map ≠ [] := by
  rw [ring.encode_eq]
  exact RingRegistry.ringEncode_ne_nil map

variable {id : UInt32} {map : RingMap} {slot : SlotRecord}

/-- Replacing one slot of a decoded table keeps every key within its cap. -/
theorem Ring.capped_insert (hdec : ring.decode bytes = .ok map) (hcap : Capped slot) :
    ∀ e ∈ (map.insert id slot).toList, Capped e.2 :=
  Codec.forall_toList_insert
    (fun _ _ hslot => RingRegistry.ringDecode_capped (ring.decode_eq ▸ hdec) hslot) hcap

/-- A slot written over a decoded record leaves the bytes alone only if it was there. -/
theorem getElem?_of_encode_insert_eq (hdec : ring.decode bytes = .ok map)
    (heq : ring.encode (map.insert id slot) = bytes) (hcap : Capped slot) :
    map[id]? = some slot := by
  have hcaps : ∀ e ∈ (map.insert id slot).toList, Capped e.2 := Ring.capped_insert hdec hcap
  rw [ring.decode_eq] at hdec
  rw [ring.encode_eq] at heq
  have hsame : map = map.insert id slot :=
    RingRegistry.ringDecode_ringEncode_eq_ok hcaps (by rw [heq]; exact hdec)
  rw [hsame]
  exact ExtTreeMap.getElem?_insert_self

/-- An atomic command changes something exactly when it succeeds and does. -/
theorem changes_iff_of_atomicAt {c : Exec Unit} (hat : AtomicAt c s) :
    ¬ SameRecords s (c s).2 ↔ ∃ t, c s = (.ok (), t) ∧ ¬ SameRecords s t := by
  rcases hrun : c s with ⟨e | ⟨⟨⟩⟩, t⟩
  · rw [hat e t hrun]
    simp [sameRecords_refl]
  · simp

theorem decodeRecord_eq_ok_iff {α : Type} {decode : List UInt8 → Except String α} {a : α}
    {t : InMemorySubstrate} :
    decodeRecord addr decode s = (.ok a, t) ↔ decode (recordAt s addr) = .ok a ∧ s = t := by
  rw [decodeRecord, fetch_eq_ok_iff, mapError_eq_ok_iff]
  rfl

/-! ## Admission and exit -/

theorem applyAdmit_changes_iff {stake : UInt64} {mldsa bls : List UInt8} :
    ¬ SameRecords s (applyAdmit blake3 ring id stake mldsa bls s).2 ↔
      AdmitsSlot blake3 ring s id mldsa bls := by
  rw [changes_iff_of_atomicAt (applyAdmit_atomicAt blake3 s ring id stake mldsa bls)]
  constructor
  · rintro ⟨t, hrun, -⟩
    obtain ⟨_, s₁, h₁, hrun⟩ := bind_eq_ok_iff.mp hrun
    obtain ⟨hmldsa, rfl⟩ := failIf_eq_ok_iff.mp h₁
    obtain ⟨_, s₂, h₂, hrun⟩ := bind_eq_ok_iff.mp hrun
    obtain ⟨hbls, rfl⟩ := failIf_eq_ok_iff.mp h₂
    obtain ⟨map, s₃, h₃, hrun⟩ := bind_eq_ok_iff.mp hrun
    obtain ⟨hdec, rfl⟩ := decodeRecord_eq_ok_iff.mp h₃
    obtain ⟨_, s₄, h₄, -⟩ := bind_eq_ok_iff.mp hrun
    exact ⟨not_lt.mp hmldsa, not_lt.mp hbls, map, hdec, (failIf_eq_ok_iff.mp h₄).1⟩
  · rintro ⟨hmldsa, hbls, map, hdec, hfree⟩
    have hrun : applyAdmit blake3 ring id stake mldsa bls s = (.ok (), s.writeBytesUnchecked
        (ring.registryAddress blake3) (ring.encode (map.insert id ⟨mldsa, bls, stake, 0, 0, .active⟩))) := by
      unfold applyAdmit
      rw [failIf_bind_run_neg (not_lt.mpr hmldsa), failIf_bind_run_neg (not_lt.mpr hbls),
        bind_run_ok (decodeRecord_eq_ok_iff.mpr ⟨hdec, rfl⟩), failIf_bind_run_neg hfree]
      rfl
    refine ⟨_, hrun, fun hsame => hfree ?_⟩
    have heq := (sameRecords_write_iff (ring.encode_ne_nil _)).mp hsame
    have hget := getElem?_of_encode_insert_eq hdec heq ⟨hmldsa, hbls⟩
    exact ExtTreeMap.mem_iff_isSome_getElem?.mpr (by rw [hget]; rfl)

theorem applyExit_changes_iff :
    ¬ SameRecords s (applyExit blake3 ring id s).2 ↔ ExitsSlot blake3 ring s id := by
  rw [changes_iff_of_atomicAt (applyExit_atomicAt blake3 s ring id)]
  constructor
  · rintro ⟨t, hrun, -⟩
    rw [applyExit, read_bind_run] at hrun
    obtain ⟨map, s₁, h₁, hrun⟩ := bind_eq_ok_iff.mp hrun
    obtain ⟨hdec, rfl⟩ := decodeRecord_eq_ok_iff.mp h₁
    obtain ⟨slot, s₂, h₂, hrun⟩ := bind_eq_ok_iff.mp hrun
    obtain ⟨hslot, rfl⟩ := fetch_eq_ok_iff.mp h₂
    obtain ⟨_, s₃, h₃, -⟩ := bind_eq_ok_iff.mp hrun
    exact ⟨map, slot, hdec, getOr_eq_ok_iff.mp hslot,
      Classical.not_not.mp (failIf_eq_ok_iff.mp h₃).1⟩
  · rintro ⟨map, slot, hdec, hslot, hactive⟩
    have hrun : applyExit blake3 ring id s = (.ok (), s.writeBytesUnchecked
        (ring.registryAddress blake3) (ring.encode (map.insert id
          { slot with status := .exiting, exitBlockHeight := s.currentBlockHeight }))) := by
      unfold applyExit
      have hget : ∀ t, (fetch fun _ => getOr (ring.notFound id) map id : Exec SlotRecord) t =
          (.ok slot, t) := fun t => by rw [fetch_run, getOr_eq_ok_iff.mpr hslot]
      rw [read_bind_run, bind_run_ok (decodeRecord_eq_ok_iff.mpr ⟨hdec, rfl⟩),
        bind_run_ok (hget _), failIf_bind_run_neg (not_not.mpr hactive)]
      rfl
    refine ⟨_, hrun, fun hsame => ?_⟩
    have heq := (sameRecords_write_iff (ring.encode_ne_nil _)).mp hsame
    have hcap : Capped slot := RingRegistry.ringDecode_capped (ring.decode_eq ▸ hdec) hslot
    have hget := getElem?_of_encode_insert_eq hdec heq hcap
    -- the slot would be active and exiting at once
    rw [hslot] at hget
    have hstatus := congrArg (fun o => o.map SlotRecord.status) hget
    simp [hactive] at hstatus

/-! ## Ejection -/

/-- Credits to different accounts that have nothing staged yet can be staged exactly when each of
    them fits. -/
theorem stageCredits_ok_iff {base : Address → Balance} {credits : List (Address × Balance)}
    {staged : ExtTreeMap Address Balance} (hnd : (credits.map Prod.fst).Nodup)
    (hfresh : ∀ c ∈ credits, staged[c.1]? = none) :
    (∃ staged', stageCredits base credits staged = .ok staged') ↔
      ∀ c ∈ credits, (base c.1).toNat + c.2.toNat < 2 ^ 128 := by
  induction credits generalizing staged with
  | nil => simp [stageCredits]
  | cons c credits ih =>
    rw [List.map_cons, List.nodup_cons] at hnd
    obtain ⟨hc, hrest⟩ := List.forall_mem_cons.mp hfresh
    rw [List.forall_mem_cons, stageCredits]
    by_cases h0 : c.2 = 0
    · have hfits := (base c.1).isLt
      have hzero : c.2.toNat = 0 := by rw [h0]; rfl
      rw [if_pos h0, ih hnd.2 hrest]
      exact ⟨fun h => ⟨by omega, h⟩, And.right⟩
    · rw [if_neg h0, hc, Option.getD_none]
      cases hadd : addOr (.distributionOverflow c.1) (base c.1) c.2 with
      | error e =>
        have := (addOr_eq_error_iff.mp hadd).1
        simp only [reduceCtorEq, exists_false, false_iff, not_and]
        omega
      | ok new =>
        have hnew := addOr_eq_ok_iff.mp hadd
        have := new.isLt
        have hrest' : ∀ d ∈ credits, (staged.insert c.1 new)[d.1]? = none := by
          intro d hd
          rw [ExtTreeMap.getElem?_insert, if_neg, hrest d hd]
          rw [compare_eq_iff_eq]
          exact fun heq => hnd.1 (heq ▸ List.mem_map_of_mem hd)
        rw [ih hnd.2 hrest']
        exact ⟨fun h => ⟨by omega, h⟩, And.right⟩

/-- The two shares of a waterfall add up. -/
theorem totalOr_waterfall {e : ExecutionError} {amount : Balance} (h : amount.toNat < 2 ^ 64) :
    totalOr e (waterfall blake3 amount) 0 = .ok amount := by
  have hle := insuranceShareOf_le amount
  have h1 : addOr e 0 (insuranceShareOf amount) = .ok (insuranceShareOf amount) :=
    addOr_eq_ok_iff.mpr (by simp)
  have h2 : addOr e (insuranceShareOf amount) (amount - insuranceShareOf amount) = .ok amount := by
    rw [addOr_eq_ok_iff, BitVec.toNat_sub_of_le hle]
    rw [BitVec.le_def] at hle
    omega
  simp only [waterfall, totalOr, h1, h2]

/-- The stake of an ejected slot is paid out exactly when neither pool overflows. -/
theorem drainEjected_ok_iff (hres : ReservedDistinct blake3) {drained : Balance}
    (h64 : drained.toNat < 2 ^ 64) (hle : drained ≤ s.balance (ring.stakePoolAddress blake3)) :
    (∃ t, drainEjected blake3 (ring.stakePoolAddress blake3) drained s = (.ok (), t)) ↔
      ¬ PoolOverflows blake3 s drained := by
  have hpool : ∀ c ∈ waterfall blake3 drained, c.1 ≠ ring.stakePoolAddress blake3 := by
    apply waterfall_ne
    · cases ring
      · exact hres.ne (i := 1) (j := 13) (by decide)
      · exact hres.ne (i := 1) (j := 14) (by decide)
    · cases ring
      · exact hres.ne (i := 2) (j := 13) (by decide)
      · exact hres.ne (i := 2) (j := 14) (by decide)
  have hfits : ¬ PoolOverflows blake3 s drained ↔ ∀ c ∈ waterfall blake3 drained,
      ((if c.1 = ring.stakePoolAddress blake3 then
        s.balance (ring.stakePoolAddress blake3) - drained else s.balance c.1)).toNat
          + c.2.toNat < 2 ^ 128 := by
    rw [PoolOverflows]
    simp only [Overflows, not_exists, not_and, not_le]
    refine forall₂_congr fun c hc => ?_
    rw [if_neg (hpool c hc)]
  by_cases h0 : drained = 0
  · subst h0
    rw [drainEjected, if_neg (by simp), hfits]
    refine iff_of_true ⟨s, rfl⟩ fun c hc => ?_
    have hzero : c.2.toNat = 0 := by
      simp only [waterfall, List.mem_cons, List.not_mem_nil, or_false] at hc
      rcases hc with rfl | rfl <;> simp [insuranceShareOf]
    rw [hzero, add_zero]
    exact BitVec.isLt _
  · have hpos : drained > 0 := by
      rw [gt_iff_lt, BitVec.lt_def]
      have hne : drained.toNat ≠ 0 := fun h => h0 (BitVec.eq_of_toNat_eq h)
      show 0 < drained.toNat
      omega
    have htotal : ∀ t, (fetch fun _ => totalOr (.distributionOverflow (ring.stakePoolAddress blake3))
        (waterfall blake3 drained) 0 : Exec Balance) t = (.ok drained, t) := fun t => by
      rw [fetch_run, totalOr_waterfall h64]
    rw [drainEjected, if_pos hpos, drainAndCreditAtomic, bind_run_ok (htotal s), if_neg h0,
      read_bind_run, failIf_bind_run_neg (not_lt.mpr hle), hfits]
    have hstage : (∃ staged, stageCredits (fun dest => if dest = ring.stakePoolAddress blake3 then
        s.balance (ring.stakePoolAddress blake3) - drained else s.balance dest)
        (waterfall blake3 drained) ∅ = .ok staged) ↔ _ :=
      stageCredits_ok_iff (waterfall_nodup hres drained) fun c _ => by simp
    refine Iff.trans ?_ hstage
    constructor
    · rintro ⟨t, hrun⟩
      obtain ⟨staged, _, hstage, -⟩ := bind_eq_ok_iff.mp hrun
      exact ⟨staged, (fetch_eq_ok_iff.mp hstage).1⟩
    · rintro ⟨staged, hstage⟩
      exact ⟨_, bind_run_ok (fetch_eq_ok_iff.mpr ⟨hstage, rfl⟩)⟩

/-- The slot an ejection leaves. -/
def ejectedSlot (slot : SlotRecord) : SlotRecord :=
  { slot with depositedStake := 0, status := .ejected }

theorem ejectedSlot_eq_self_iff :
    ejectedSlot slot = slot ↔ slot.status = .ejected ∧ slot.depositedStake = 0 := by
  obtain ⟨mldsa, bls, stake, deposited, height, status⟩ := slot
  simp [ejectedSlot, and_comm, eq_comm]

theorem applyEject_eq_ok_iff {t : InMemorySubstrate} :
    applyEject blake3 ring id s = (.ok (), t) ↔
      ∃ map slot u, ring.decode (ringBytes blake3 ring s) = .ok map ∧ map[id]? = some slot ∧
        drainEjected blake3 (ring.stakePoolAddress blake3) (drainedStake blake3 ring s slot) s =
          (.ok (), u) ∧
        t = u.writeBytesUnchecked (ring.registryAddress blake3)
          (ring.encode (map.insert id (ejectedSlot slot))) := by
  constructor
  · intro hrun
    obtain ⟨map, s₁, h₁, hrun⟩ := bind_eq_ok_iff.mp hrun
    obtain ⟨hdec, rfl⟩ := decodeRecord_eq_ok_iff.mp h₁
    obtain ⟨slot, s₂, h₂, hrun⟩ := bind_eq_ok_iff.mp hrun
    obtain ⟨hslot, rfl⟩ := fetch_eq_ok_iff.mp h₂
    rw [read_bind_run] at hrun
    obtain ⟨⟨⟩, u, hdrain, hrun⟩ := bind_eq_ok_iff.mp hrun
    cases hrun
    exact ⟨map, slot, u, hdec, getOr_eq_ok_iff.mp hslot, hdrain, rfl⟩
  · rintro ⟨map, slot, u, hdec, hslot, hdrain, rfl⟩
    have hget : ∀ t, (fetch fun _ => getOr (ring.notFound id) map id : Exec SlotRecord) t =
        (.ok slot, t) := fun t => by rw [fetch_run, getOr_eq_ok_iff.mpr hslot]
    unfold applyEject
    rw [bind_run_ok (decodeRecord_eq_ok_iff.mpr ⟨hdec, rfl⟩), bind_run_ok (hget _), read_bind_run]
    exact bind_run_ok hdrain

theorem drainedStake_bounds (slot : SlotRecord) : (drainedStake blake3 ring s slot).toNat < 2 ^ 64 ∧
    drainedStake blake3 ring s slot ≤ s.balance (ring.stakePoolAddress blake3) := by
  refine ⟨?_, min_le_right _ _⟩
  have hle : drainedStake blake3 ring s slot ≤ BitVec.ofNat 128 slot.depositedStake.toNat :=
    min_le_left _ _
  have h64 := slot.depositedStake.toNat_lt
  rw [BitVec.le_def, BitVec.toNat_ofNat, Nat.mod_eq_of_lt (by omega)] at hle
  omega

/-- The record an ejection writes is the one it found only for a slot that is ejected and drained. -/
theorem encode_ejected_ne_iff (hdec : ring.decode (ringBytes blake3 ring s) = .ok map)
    (hslot : map[id]? = some slot) :
    ring.encode (map.insert id (ejectedSlot slot)) ≠ ringBytes blake3 ring s ↔
      slot.status ≠ .ejected ∨ slot.depositedStake ≠ 0 ∨
        ring.encode map ≠ ringBytes blake3 ring s := by
  by_cases hself : ejectedSlot slot = slot
  · -- nothing to write: the map is what it was
    have hmap : map.insert id (ejectedSlot slot) = map := by
      apply ExtTreeMap.ext_getElem?
      intro k
      rw [ExtTreeMap.getElem?_insert, hself]
      split
      · next hk => rw [← compare_eq_iff_eq.mp hk, hslot]
      · rfl
    obtain ⟨hstatus, hdeposited⟩ := ejectedSlot_eq_self_iff.mp hself
    simp [hmap, hstatus, hdeposited]
  · have hcap : Capped slot := RingRegistry.ringDecode_capped (ring.decode_eq ▸ hdec) hslot
    refine iff_of_true (fun heq => hself ?_) ?_
    · have hget := getElem?_of_encode_insert_eq hdec heq ⟨hcap.1, hcap.2⟩
      rw [hslot] at hget
      exact (Option.some.inj hget).symm
    · rw [ejectedSlot_eq_self_iff, not_and_or] at hself
      exact hself.imp_right .inl

/-- What a successful ejection changes is decided by the record it writes. -/
theorem sameRecords_ejected_iff {u : InMemorySubstrate}
    (hdec : ring.decode (ringBytes blake3 ring s) = .ok map) (hslot : map[id]? = some slot)
    (hdrain : drainEjected blake3 (ring.stakePoolAddress blake3) (drainedStake blake3 ring s slot) s =
      (.ok (), u)) :
    SameRecords s (u.writeBytesUnchecked (ring.registryAddress blake3)
        (ring.encode (map.insert id (ejectedSlot slot)))) ↔
      ring.encode (map.insert id (ejectedSlot slot)) = ringBytes blake3 ring s := by
  have hne := ring.encode_ne_nil (map.insert id (ejectedSlot slot))
  constructor
  · rintro ⟨-, hbytes⟩
    have h := hbytes (ring.registryAddress blake3)
    rw [readBytes_write hne, if_pos rfl] at h
    rw [ringBytes, recordAt, ← h]
    rfl
  · intro heq
    -- the slot is ejected and drained, so nothing was paid out
    have hself : slot.status = .ejected ∧ slot.depositedStake = 0 := by
      by_contra hnot
      refine (encode_ejected_ne_iff hdec hslot).mpr ?_ heq
      rw [not_and_or] at hnot
      exact hnot.imp_right .inl
    have hzero : drainedStake blake3 ring s slot = 0 := by
      rw [drainedStake, hself.2]
      exact min_eq_left (by rw [BitVec.le_def]; exact Nat.zero_le _)
    rw [hzero, drainEjected, if_neg (by simp)] at hdrain
    cases hdrain
    exact (sameRecords_write_iff hne).mpr heq

theorem applyEject_changes_iff (hres : ReservedDistinct blake3) :
    ¬ SameRecords s (applyEject blake3 ring id s).2 ↔ EjectsSlot blake3 ring s id := by
  rw [changes_iff_of_atomicAt (applyEject_atomicAt blake3 s ring id)]
  simp only [applyEject_eq_ok_iff]
  constructor
  · rintro ⟨t, ⟨map, slot, u, hdec, hslot, hdrain, rfl⟩, hchanged⟩
    obtain ⟨h64, hle⟩ := drainedStake_bounds slot
    rw [sameRecords_ejected_iff hdec hslot hdrain] at hchanged
    exact ⟨map, slot, hdec, hslot, (drainEjected_ok_iff hres h64 hle).mp ⟨u, hdrain⟩,
      (encode_ejected_ne_iff hdec hslot).mp hchanged⟩
  · rintro ⟨map, slot, hdec, hslot, hfits, hother⟩
    obtain ⟨h64, hle⟩ := drainedStake_bounds slot
    obtain ⟨u, hdrain⟩ := (drainEjected_ok_iff hres h64 hle).mpr hfits
    refine ⟨_, ⟨map, slot, u, hdec, hslot, hdrain, rfl⟩, ?_⟩
    rw [sameRecords_ejected_iff hdec hslot hdrain]
    exact (encode_ejected_ne_iff hdec hslot).mpr hother

end SuwappuDag.Execution
