/-
  THE STATE ROOT (`compute_state_root_v2`) COMMITS TO THE STATE.

  1. **Canonical form** — a balance of zero and an empty record are ABSENT, never stored.  Every write
     an intent makes keeps it so (`canonical_run`), because a balance that is inserted without a look
     is the sum with an amount that is not zero.
  2. **Unique parsing** — balances are hashed with a fixed width, records behind their length.  Either
     encoding is read back entry by entry, so equal bytes come from equal maps.
  3. **Crux** — `state_root_commits`: on reachable states with records shorter than 2^32 bytes, equal
     roots and equal reads are the same thing.  Collision freedom of BLAKE3 is asked of the six byte
     strings that are hashed for the two states, and of no others.
-/
import SuwappuDag.Execution.History

namespace SuwappuDag.Execution

open Words Command Reserved Codec InMemorySubstrate
open Std (ExtTreeMap)

/-! ## Canonical form -/

/-- No zero balance and no empty record is stored. -/
structure Canonical (s : InMemorySubstrate) : Prop where
  balances : ∀ (a : Address) (v : Balance), s.balances[a]? = some v → v ≠ 0
  records : ∀ (a : Address) (bytes : List UInt8), s.bytesState[a]? = some bytes → bytes ≠ []

/-- The step from `s` to `t` keeps the canonical form. -/
def KeepsCanonical (s t : InMemorySubstrate) : Prop := Canonical s → Canonical t

instance : IsPreorder InMemorySubstrate KeepsCanonical where
  refl _ h := h
  trans _ _ _ hst htu h := htu (hst h)

namespace Canonical

variable {s : InMemorySubstrate}

theorem insertBalance (h : Canonical s) (addr : Address) {v : Balance} (hv : v ≠ 0) :
    Canonical (s.insertBalance addr v) where
  balances a w hw := by
    rw [InMemorySubstrate.insertBalance, ExtTreeMap.getElem?_insert] at hw
    split at hw
    · cases hw
      exact hv
    · exact h.balances a w hw
  records := h.records

theorem storeBalance (h : Canonical s) (addr : Address) (v : Balance) :
    Canonical (s.storeBalance addr v) := by
  unfold InMemorySubstrate.storeBalance
  split
  · refine ⟨fun a w hw => ?_, h.records⟩
    rw [ExtTreeMap.getElem?_erase] at hw
    split at hw
    · cases hw
    · exact h.balances a w hw
  · next hv => exact h.insertBalance addr hv

theorem insertStaged (h : Canonical s) {staged : ExtTreeMap Address Balance}
    (hstaged : ∀ (a : Address) (v : Balance), staged[a]? = some v → v ≠ 0) :
    Canonical (s.insertStaged staged) where
  balances a w hw := by
    rw [InMemorySubstrate.insertStaged, getElem?_insertAll (nodup_keys_toList staged)] at hw
    cases hfind : staged.toList.find? (fun e => e.1 = a) with
    | none =>
      rw [hfind] at hw
      exact h.balances a w hw
    | some e =>
      rw [hfind] at hw
      cases hw
      exact hstaged e.1 e.2
        (ExtTreeMap.mem_toList_iff_getElem?_eq_some.mp (List.mem_of_find?_eq_some hfind))
  records := h.records

theorem writeBytesUnchecked (h : Canonical s) (addr : Address) (bytes : List UInt8) :
    Canonical (s.writeBytesUnchecked addr bytes) := by
  unfold InMemorySubstrate.writeBytesUnchecked
  split
  · refine ⟨h.balances, fun a w hw => ?_⟩
    rw [ExtTreeMap.getElem?_erase] at hw
    split at hw
    · cases hw
    · exact h.records a w hw
  · next hne =>
    refine ⟨h.balances, fun a w hw => ?_⟩
    rw [ExtTreeMap.getElem?_insert] at hw
    split at hw
    · cases hw
      exact hne
    · exact h.records a w hw

end Canonical

variable {blake3 : List UInt8 → Bytes32}

theorem permits_keepsCanonical (M : Address → Prop) : Footprint.Permits M KeepsCanonical where
  insert _ _ hv h := h.insertBalance _ hv
  store _ v h := h.storeBalance _ v
  staged hstaged h := h.insertStaged fun a v hv => (hstaged a v hv).2

theorem allows_keepsCanonical (blake3 : List UInt8 → Bytes32) (fp : Footprint) :
    Footprint.Allows blake3 fp KeepsCanonical where
  record _ _ _ _ h := h.writeBytesUnchecked _ _
  insert := (permits_keepsCanonical _).insert
  store := (permits_keepsCanonical _).store
  staged := (permits_keepsCanonical _).staged

/-- Zero balances of a genesis list are skipped. -/
theorem canonical_fromBalances (entries : List (Address × Balance)) :
    Canonical (fromBalances entries) := by
  have hgen : ∀ (entries : List (Address × Balance)) (s : InMemorySubstrate), Canonical s →
      Canonical (entries.foldl (fun s e =>
        if e.2 > 0 then { s with balances := s.balances.insert e.1 e.2 } else s) s) := by
    intro entries
    induction entries with
    | nil => exact fun s h => h
    | cons e entries ih =>
      intro s h
      rw [List.foldl_cons]
      refine ih _ ?_
      by_cases hpos : e.2 > 0
      · rw [if_pos hpos]
        exact h.insertBalance e.1 (ne_of_gt hpos)
      · rw [if_neg hpos]
        exact h
  refine hgen entries new ⟨fun a v hv => ?_, fun a bytes hb => ?_⟩
  · cases ExtTreeMap.getElem?_empty.symm.trans hv
  · cases ExtTreeMap.getElem?_empty.symm.trans hb

/-- **Every reachable state is canonical.** -/
theorem canonical_run (hres : ReservedDistinct blake3) (entries : List (Address × Balance))
    (calls : List SubstrateCall) : Canonical (runCalls blake3 calls (fromBalances entries)) := by
  refine history_invariant (P := fun _ s => Canonical s) (canonical_fromBalances entries) ?_ ?_ calls
  · exact fun _ s height h => ⟨h.balances, h.records⟩
  · exact fun _ s intent h => applyIntent_leads hres intent (allows_keepsCanonical blake3 _) s h

/-! ## What is hashed -/

def putBalance (e : Address × Balance) : List UInt8 := beBytes 20 e.1.toNat ++ beBytes 16 e.2.toNat

def putRecord (e : Address × List UInt8) : List UInt8 :=
  beBytes 20 e.1.toNat ++ beBytes 4 e.2.length ++ e.2

def balancesPreimage (s : InMemorySubstrate) : List UInt8 :=
  asciiBytes "SUWAPPU-BALANCES-V1" ++ s.balances.toList.flatMap putBalance

def recordsPreimage (s : InMemorySubstrate) : List UInt8 :=
  asciiBytes "SUWAPPU-BYTES-STATE-V1" ++ s.bytesState.toList.flatMap putRecord

def rootPreimage (blake3 : List UInt8 → Bytes32) (s : InMemorySubstrate) : List UInt8 :=
  asciiBytes "SUWAPPU-STATE-ROOT-V2" ++ beBytes 32 (blake3 (balancesPreimage s)).toNat
    ++ beBytes 32 (blake3 (recordsPreimage s)).toNat

theorem stateRoot_eq (s : InMemorySubstrate) :
    stateRoot blake3 s = blake3 (rootPreimage blake3 s) := rfl

/-- The three byte strings that are hashed for a state. -/
def hashedFor (blake3 : List UInt8 → Bytes32) (s : InMemorySubstrate) : List (List UInt8) :=
  [balancesPreimage s, recordsPreimage s, rootPreimage blake3 s]

/-- No two of the strings that are hashed for the two states collide. -/
def RootsCollisionFree (blake3 : List UInt8 → Bytes32) (s t : InMemorySubstrate) : Prop :=
  ∀ x ∈ hashedFor blake3 s, ∀ y ∈ hashedFor blake3 t, blake3 x = blake3 y → x = y

instance (s t : InMemorySubstrate) : Decidable (RootsCollisionFree blake3 s t) :=
  inferInstanceAs (Decidable
    (∀ x ∈ hashedFor blake3 s, ∀ y ∈ hashedFor blake3 t, blake3 x = blake3 y → x = y))

/-- The lengths of the records are written without loss. -/
def ShortRecords (s : InMemorySubstrate) : Prop :=
  ∀ e ∈ s.bytesState.toList, e.2.length < 2 ^ 32

instance (s : InMemorySubstrate) : Decidable (ShortRecords s) :=
  inferInstanceAs (Decidable (∀ e ∈ s.bytesState.toList, e.2.length < 2 ^ 32))

/-- No read tells the two states apart. -/
structure SameReads (s t : InMemorySubstrate) : Prop where
  balance : ∀ a, s.balance a = t.balance a
  readBytes : ∀ a, s.readBytes a = t.readBytes a

/-! ## Unique parsing -/

theorem putBalance_reads (e : Address × Balance) :
    Reads (do return (← array 160, ← array 128)) (putBalance e) e := by
  intro rest
  rw [putBalance, List.append_assoc, bind_run_ok (reads_array (k := 20) _ _),
    bind_run_ok (reads_array (k := 16) _ _)]
  rfl

theorem putRecord_reads {e : Address × List UInt8} (hlen : e.2.length < 2 ^ 32) :
    Reads (do
      let addr ← array 160
      let len ← word 4
      return (addr, ← take len)) (putRecord e) e := by
  intro rest
  rw [putRecord, List.append_assoc, List.append_assoc, bind_run_ok (reads_array (k := 20) _ _),
    bind_run_ok (reads_word (by omega) _), bind_run_ok (reads_take _ _)]
  rfl

variable {s t : InMemorySubstrate}

theorem balances_eq_of_preimage (h : balancesPreimage s = balancesPreimage t) :
    s.balances = t.balances := by
  have hne : ∀ e, putBalance e ≠ [] := by
    intro e he
    have := congrArg List.length he
    simp [putBalance] at this
  exact toList_injective (flatMap_injective hne (fun e _ => putBalance_reads e)
    (fun e _ => putBalance_reads e) (List.append_cancel_left h))

theorem bytesState_eq_of_preimage (hs : ShortRecords s) (ht : ShortRecords t)
    (h : recordsPreimage s = recordsPreimage t) : s.bytesState = t.bytesState := by
  have hne : ∀ e, putRecord e ≠ [] := by
    intro e he
    have := congrArg List.length he
    simp [putRecord] at this
  exact toList_injective (flatMap_injective hne (fun e he => putRecord_reads (hs e he))
    (fun e he => putRecord_reads (ht e he)) (List.append_cancel_left h))

/-! ## The root -/

/-- The maps of canonical states are what their reads say. -/
theorem Canonical.maps_eq (hs : Canonical s) (ht : Canonical t) (h : SameReads s t) :
    s.balances = t.balances ∧ s.bytesState = t.bytesState := by
  refine ⟨ExtTreeMap.ext_getElem? fun a => ?_, ExtTreeMap.ext_getElem? fun a => h.readBytes a⟩
  have hread := h.balance a
  unfold balance at hread
  cases hsa : s.balances[a]? with
  | none =>
    cases hta : t.balances[a]? with
    | none => rfl
    | some w =>
      rw [hsa, hta] at hread
      exact absurd hread.symm (ht.balances a w hta)
  | some v =>
    cases hta : t.balances[a]? with
    | none =>
      rw [hsa, hta] at hread
      exact absurd hread (hs.balances a v hsa)
    | some w =>
      rw [hsa, hta] at hread
      exact congrArg some hread

theorem sameReads_of_root (hs : ShortRecords s) (ht : ShortRecords t)
    (hfree : RootsCollisionFree blake3 s t) (h : stateRoot blake3 s = stateRoot blake3 t) :
    SameReads s t := by
  have hroot := hfree (rootPreimage blake3 s) (by simp [hashedFor])
    (rootPreimage blake3 t) (by simp [hashedFor]) h
  unfold rootPreimage at hroot
  obtain ⟨hfront, hrecords⟩ := List.append_inj' hroot (by rw [length_beBytes, length_beBytes])
  have hbalances := List.append_cancel_left hfront
  have hb := balances_eq_of_preimage (hfree _ (by simp [hashedFor]) _ (by simp [hashedFor])
    (BitVec.eq_of_toNat_eq (beBytes_inj (k := 32) (BitVec.isLt _) (BitVec.isLt _) hbalances)))
  have hr := bytesState_eq_of_preimage hs ht (hfree _ (by simp [hashedFor]) _ (by simp [hashedFor])
    (BitVec.eq_of_toNat_eq (beBytes_inj (k := 32) (BitVec.isLt _) (BitVec.isLt _) hrecords)))
  exact ⟨fun a => by rw [balance, balance, hb], fun a => by rw [readBytes, readBytes, hr]⟩

/-- **The state root commits to the state**, on reachable states. -/
theorem state_root_commits (hres : ReservedDistinct blake3) :
    (∀ entries calls, Canonical (runCalls blake3 calls (fromBalances entries))) ∧
    ∀ entries calls entries' calls',
      let s := runCalls blake3 calls (fromBalances entries)
      let t := runCalls blake3 calls' (fromBalances entries')
      ShortRecords s → ShortRecords t → RootsCollisionFree blake3 s t →
        (stateRoot blake3 s = stateRoot blake3 t ↔ SameReads s t) := by
  refine ⟨canonical_run hres, ?_⟩
  intro entries calls entries' calls' s t hs ht hfree
  refine ⟨sameReads_of_root hs ht hfree, fun h => ?_⟩
  obtain ⟨hb, hr⟩ := (canonical_run hres entries calls).maps_eq (canonical_run hres entries' calls') h
  rw [stateRoot_eq, stateRoot_eq, rootPreimage, rootPreimage, balancesPreimage, balancesPreimage,
    recordsPreimage, recordsPreimage, hb, hr]

/-- A transfer of 2 out of 5 ends where a genesis of 3 and 2 starts, and has its root. -/
theorem state_root_commits_transfer :
    let s := runCalls Blake3.hash [.applyIntent (.transfer 1 2 2)] (fromBalances [(1, 5)])
    let t := runCalls Blake3.hash [] (fromBalances [(1, 3), (2, 2)])
    ShortRecords s ∧ ShortRecords t ∧ RootsCollisionFree Blake3.hash s t ∧
      stateRoot Blake3.hash s = stateRoot Blake3.hash t ∧ SameReads s t := by
  intro s t
  have hs : ShortRecords s := by decide +kernel
  have ht : ShortRecords t := by decide +kernel
  have hfree : RootsCollisionFree Blake3.hash s t := by decide +kernel
  have hroot : stateRoot Blake3.hash s = stateRoot Blake3.hash t := by decide +kernel
  exact ⟨hs, ht, hfree, hroot,
    ((state_root_commits blake3_reservedDistinct).2 _ _ _ _ hs ht hfree).mp hroot⟩

end SuwappuDag.Execution
