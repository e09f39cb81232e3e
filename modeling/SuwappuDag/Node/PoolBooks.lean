/-
  THE BOOKS OF THE MEMPOOL (`suwappu-mempool/src/mempool.rs`).

  1. **Program** — `submit`, `drain_for_block` and `expire`, called in any order with any priorities and
     clock values.  The verdict of the rate limiter stays an argument.
  2. **Invariant** — `Sound`: a key spells out its entry, the dedup set holds exactly the hashes that are
     queued, no hash is queued twice, and the queue stays within its capacity.
  3. **Books** — each call moves entries: `left` are those that were queued before it and are not after.
     One balance per call gives the accounts of every run: what was accepted is what was drained,
     evicted, expired or is still queued (`Balanced`).
  4. **Crux** — erasing a key filters the ordered list of entries (`toList_erase`).  Popping the front is
     then dropping from that list, evicting is cutting off its last entry, expiring is filtering it.
-/
import SuwappuDag.Node.Mempool

namespace SuwappuDag.Node

open Words Execution MapSum
open Std (ExtTreeMap)

/-! ## The program -/

namespace Mempool

def ofCapacity (capacity : Nat) : Mempool := ⟨capacity, ∅, ∅⟩

/-- `now_ms.saturating_sub(submit_ms)`. -/
def ageMs (nowMs submitMs : UInt64) : UInt64 := if submitMs ≤ nowMs then nowMs - submitMs else 0

/-- Drop what is older than the time to live; returns how many. -/
def expire (ttlMs nowMs : UInt64) (pool : Mempool) : Nat × Mempool :=
  let toDrop := (pool.queue.toList.filter fun e => ttlMs < ageMs nowMs e.2.submitMs).map Prod.fst
  (toDrop.length, toDrop.foldl remove pool)

/-- Step 5 of `submit`. -/
def enqueue (pool : Mempool) (key : EntryKey) (entry : Entry) : Mempool :=
  { pool with queue := pool.queue.insert key entry, seen := insert key.hash pool.seen }

theorem submit_of_makeRoom_error {blake3 : List UInt8 → Bytes32} {pool : Mempool} {intent : Intent}
    {priority nowMs : UInt64} {e : MempoolError}
    (h : pool.makeRoom (intentHash blake3 intent) priority = .error e) :
    pool.submit blake3 intent priority none nowMs = (.error e, pool) := by
  simp only [submit, h]

theorem submit_of_makeRoom_ok {blake3 : List UInt8 → Bytes32} {pool room : Mempool}
    {intent : Intent} {priority nowMs : UInt64}
    (h : pool.makeRoom (intentHash blake3 intent) priority = .ok room) :
    pool.submit blake3 intent priority none nowMs = (.ok (intentHash blake3 intent),
      room.enqueue (entryKey priority nowMs (intentHash blake3 intent)) ⟨intent, nowMs⟩) := by
  simp only [submit, h]
  rfl

/-- The ways a submission ends: refused, queued, or queued in the place of the last entry. -/
theorem submit_cases {blake3 : List UInt8 → Bytes32} {pool : Mempool} (hcap : 1 ≤ pool.capacity)
    (intent : Intent) (priority : UInt64) (limited : Option UInt64) (nowMs : UInt64) :
    let key := entryKey priority nowMs (intentHash blake3 intent)
    let out := pool.submit blake3 intent priority limited nowMs
    (∃ e, out = (.error e, pool)) ∨
    (key.hash ∉ pool.seen ∧ pool.queue.size < pool.capacity ∧
      out = (.ok key.hash, pool.enqueue key ⟨intent, nowMs⟩)) ∨
    (key.hash ∉ pool.seen ∧ ∃ init last, pool.queue.toList = init ++ [last] ∧
      last.1.priority < priority ∧
      out = (.ok key.hash, (pool.remove last.1).enqueue key ⟨intent, nowMs⟩)) := by
  intro key out
  cases limited with
  | some retry => exact .inl ⟨_, rfl⟩
  | none =>
    by_cases hseen : intentHash blake3 intent ∈ pool.seen
    · refine .inl ⟨.duplicateIntent (intentHash blake3 intent), ?_⟩
      exact submit_of_makeRoom_error (by rw [makeRoom, if_pos hseen])
    by_cases hfull : pool.capacity ≤ pool.queue.size
    · -- the queue is full, so it has a last entry
      have hne : pool.queue.toList ≠ [] := by
        intro hnil
        rw [← ExtTreeMap.length_toList, hnil] at hfull
        simp at hfull
        omega
      obtain ⟨init, last, hsplit⟩ := (List.eq_nil_or_concat' pool.queue.toList).resolve_left hne
      have hlast : pool.queue.keys.getLast? = some last.1 := by
        rw [← ExtTreeMap.map_fst_toList_eq_keys, hsplit]
        simp
      by_cases hbid : priority ≤ last.1.priority
      · refine .inl ⟨.belowFloor priority last.1.priority pool.capacity, ?_⟩
        refine submit_of_makeRoom_error ?_
        simp only [makeRoom, if_neg hseen, if_pos hfull, hlast, Option.map_some, Option.getD_some,
          if_pos hbid]
      · refine .inr (.inr ⟨hseen, init, last, hsplit, not_le.mp hbid, ?_⟩)
        refine submit_of_makeRoom_ok ?_
        simp only [makeRoom, if_neg hseen, if_pos hfull, hlast, Option.map_some, Option.getD_some,
          if_neg hbid]
    · refine .inr (.inl ⟨hseen, not_le.mp hfull, ?_⟩)
      exact submit_of_makeRoom_ok (by rw [makeRoom, if_neg hseen, if_neg hfull])

/-! ## The invariant -/

structure Sound (blake3 : List UInt8 → Bytes32) (pool : Mempool) : Prop where
  /-- A key is the priority, the submission time and the content hash of its entry. -/
  keyed : ∀ {key : EntryKey} {entry : Entry}, pool.queue[key]? = some entry →
    key = entryKey key.priority entry.submitMs (intentHash blake3 entry.intent)
  seen : ∀ {h}, h ∈ pool.seen ↔ ∃ key ∈ pool.queue, EntryKey.hash key = h
  once : ∀ {key key' : EntryKey}, key ∈ pool.queue → key' ∈ pool.queue → key.hash = key'.hash →
    key = key'
  bounded : pool.queue.size ≤ pool.capacity

section Invariant

variable {blake3 : List UInt8 → Bytes32} {pool : Mempool} {key : EntryKey} {entry : Entry}

theorem sound_ofCapacity (blake3 : List UInt8 → Bytes32) (capacity : Nat) :
    Sound blake3 (ofCapacity capacity) where
  keyed h := by cases ExtTreeMap.getElem?_empty.symm.trans h
  seen := by simp [ofCapacity]
  once h := by cases ExtTreeMap.not_mem_empty h
  bounded := by simp [ofCapacity]

theorem mem_queue_remove {k : EntryKey} :
    k ∈ (pool.remove key).queue ↔ k ≠ key ∧ k ∈ pool.queue := by
  rw [remove, ExtTreeMap.mem_erase, ne_eq, Std.compare_eq_iff_eq, ne_comm, ne_eq]

/-- Taking a queued key out. -/
theorem Sound.remove (h : Sound blake3 pool) (hkey : key ∈ pool.queue) :
    Sound blake3 (pool.remove key) where
  keyed {k e} hk := by
    rw [Mempool.remove, ExtTreeMap.getElem?_erase] at hk
    split at hk
    · cases hk
    · exact h.keyed hk
  seen {x} := by
    show x ∈ pool.seen.erase key.hash ↔ _
    rw [Finset.mem_erase, h.seen]
    constructor
    · rintro ⟨hne, k, hk, rfl⟩
      exact ⟨k, mem_queue_remove.mpr ⟨fun heq => hne (heq ▸ rfl), hk⟩, rfl⟩
    · rintro ⟨k, hk, rfl⟩
      obtain ⟨hne, hk⟩ := mem_queue_remove.mp hk
      exact ⟨fun heq => hne (h.once hk hkey heq), k, hk, rfl⟩
  once hk hk' heq := h.once (mem_queue_remove.mp hk).2 (mem_queue_remove.mp hk').2 heq
  bounded := (ExtTreeMap.size_erase_le).trans h.bounded

/-- Putting a new hash in, where there is room. -/
theorem Sound.enqueue (h : Sound blake3 pool)
    (hkey : key = entryKey key.priority entry.submitMs (intentHash blake3 entry.intent))
    (hfresh : key.hash ∉ pool.seen) (hroom : pool.queue.size < pool.capacity) :
    Sound blake3 (pool.enqueue key entry) where
  keyed {k e} hk := by
    rw [Mempool.enqueue, ExtTreeMap.getElem?_insert] at hk
    split at hk
    · next heq =>
      cases hk
      rw [← Std.compare_eq_iff_eq.mp heq]
      exact hkey
    · exact h.keyed hk
  seen {x} := by
    show x ∈ insert key.hash pool.seen ↔ ∃ k ∈ pool.queue.insert key entry, _
    simp only [Finset.mem_insert, h.seen, ExtTreeMap.mem_insert, Std.compare_eq_iff_eq]
    constructor
    · rintro (rfl | ⟨k, hk, rfl⟩)
      · exact ⟨key, .inl rfl, rfl⟩
      · exact ⟨k, .inr hk, rfl⟩
    · rintro ⟨k, rfl | hk, rfl⟩
      · exact .inl rfl
      · exact .inr ⟨k, hk, rfl⟩
  once {k k'} hk hk' heq := by
    have hold : ∀ {k : EntryKey}, k ∈ pool.queue → k.hash ≠ key.hash := fun hk heq =>
      hfresh (heq ▸ h.seen.mpr ⟨_, hk, rfl⟩)
    rcases ExtTreeMap.mem_insert.mp hk with hk | hk
    · rcases ExtTreeMap.mem_insert.mp hk' with hk' | hk'
      · rw [← Std.compare_eq_iff_eq.mp hk, ← Std.compare_eq_iff_eq.mp hk']
      · rw [← Std.compare_eq_iff_eq.mp hk] at heq
        exact absurd heq.symm (hold hk')
    · rcases ExtTreeMap.mem_insert.mp hk' with hk' | hk'
      · rw [← Std.compare_eq_iff_eq.mp hk'] at heq
        exact absurd heq (hold hk)
      · exact h.once hk hk' heq
  bounded := by
    have hnew : key ∉ pool.queue := fun hin => hfresh (h.seen.mpr ⟨key, hin, rfl⟩)
    show (pool.queue.insert key entry).size ≤ pool.capacity
    rw [MapSum.size_insert_of_notMem hnew]
    exact hroom

end Invariant

/-! ## What leaves the queue -/

/-- The entries that were queued before and are not after. -/
def left (before after : Mempool) : List (EntryKey × Entry) :=
  before.queue.toList.filter fun e => e.1 ∉ after.queue

theorem left_self (pool : Mempool) : left pool pool = [] := by
  refine List.filter_eq_nil_iff.mpr fun e he => ?_
  simpa using mem_iff_exists_toList.mpr ⟨e, he, rfl⟩

/-- Nothing is added: what was queued has left or is still there. -/
theorem balance_of_shrunk (before after : Mempool)
    (h : ∀ e, e ∈ after.queue.toList → e ∈ before.queue.toList) :
    before.queue.toList.Perm (left before after ++ after.queue.toList) := by
  have hstay : (before.queue.toList.filter fun e => ¬ e.1 ∉ after.queue).Perm after.queue.toList := by
    refine (List.perm_ext_iff_of_nodup ((nodup_toList _).filter _)
      (nodup_toList _)).mpr fun e => ?_
    simp only [List.mem_filter, not_not, decide_eq_true_eq]
    constructor
    · rintro ⟨he, hkey⟩
      obtain ⟨f, hf, hfe⟩ := mem_iff_exists_toList.mp hkey
      -- one key, one entry
      have heq : f = e := List.inj_on_of_nodup_map (Codec.nodup_keys_toList before.queue) (h f hf) he hfe
      exact heq ▸ hf
    · intro he
      exact ⟨h e he, mem_iff_exists_toList.mpr ⟨e, he, rfl⟩⟩
  have hsplit := List.filter_append_perm (fun e => decide (e.1 ∉ after.queue)) before.queue.toList
  refine hsplit.symm.trans (List.Perm.append_left _ ?_)
  simpa using hstay

/-- **A drain takes the first entries of the order and leaves the rest.** -/
theorem drainForBlock_eq (blake3 : List UInt8 → Bytes32) (max : Nat) : ∀ pool : Mempool,
    (drainForBlock max pool).1 = (pool.queue.toList.take max).map (·.2.intent) ∧
    (drainForBlock max pool).2.queue.toList = pool.queue.toList.drop max ∧
    (drainForBlock max pool).2.capacity = pool.capacity ∧
    (Sound blake3 pool → Sound blake3 (drainForBlock max pool).2) := by
  induction max with
  | zero => exact fun pool => ⟨rfl, rfl, rfl, id⟩
  | succ max ih =>
    intro pool
    cases hlist : pool.queue.toList with
    | nil =>
      have hstop : drainForBlock (max + 1) pool = ([], pool) := by
        rw [drainForBlock, hlist]
        rfl
      rw [hstop]
      exact ⟨rfl, hlist, rfl, id⟩
    | cons e rest =>
      have hpop : drainForBlock (max + 1) pool =
          (e.2.intent :: (drainForBlock max (pool.remove e.1)).1,
            (drainForBlock max (pool.remove e.1)).2) := by
        rw [drainForBlock, hlist]
        rfl
      have hrest : (pool.remove e.1).queue.toList = rest := toList_erase_head hlist
      have hmem : e.1 ∈ pool.queue :=
        mem_iff_exists_toList.mpr ⟨e, hlist ▸ List.mem_cons_self, rfl⟩
      obtain ⟨hout, hqueue, hcap, hsound⟩ := ih (pool.remove e.1)
      rw [hrest] at hout hqueue
      rw [hpop]
      exact ⟨by rw [hout]; rfl, hqueue, hcap, fun h => hsound (h.remove hmem)⟩

section Expire

variable {blake3 : List UInt8 → Bytes32}

/-- Taking queued keys out one by one filters the entries. -/
theorem foldl_remove {keys : List EntryKey} : ∀ {pool : Mempool}, keys.Nodup →
    (∀ k ∈ keys, k ∈ pool.queue) → Sound blake3 pool →
    (keys.foldl remove pool).queue.toList = pool.queue.toList.filter (fun e => e.1 ∉ keys) ∧
    (keys.foldl remove pool).capacity = pool.capacity ∧ Sound blake3 (keys.foldl remove pool) := by
  induction keys with
  | nil => intro pool _ _ h; exact ⟨by simp, rfl, h⟩
  | cons k keys ih =>
    intro pool hnodup hin h
    obtain ⟨hk, hnodup⟩ := List.nodup_cons.mp hnodup
    have hin' : ∀ k' ∈ keys, k' ∈ (pool.remove k).queue := fun k' hk' =>
      mem_queue_remove.mpr ⟨fun heq => hk (heq ▸ hk'), hin k' (List.mem_cons_of_mem _ hk')⟩
    obtain ⟨hlist, hcap, hsound⟩ := ih hnodup hin' (h.remove (hin k List.mem_cons_self))
    refine ⟨?_, hcap, hsound⟩
    rw [List.foldl_cons, hlist]
    show ((pool.queue.erase k).toList.filter _) = _
    rw [toList_erase, List.filter_filter]
    refine List.filter_congr fun e _ => ?_
    simp [Bool.and_comm]

/-- **A sweep drops the entries beyond their time to live, and no others.** -/
theorem expire_eq (ttlMs nowMs : UInt64) {pool : Mempool} (h : Sound blake3 pool) :
    (expire ttlMs nowMs pool).2.queue.toList =
      pool.queue.toList.filter (fun e => ¬ ttlMs < ageMs nowMs e.2.submitMs) ∧
    (expire ttlMs nowMs pool).2.capacity = pool.capacity ∧ Sound blake3 (expire ttlMs nowMs pool).2 := by
  set toDrop := (pool.queue.toList.filter fun e => ttlMs < ageMs nowMs e.2.submitMs).map Prod.fst
    with hdrop
  have hkeys := Codec.nodup_keys_toList pool.queue
  have hnodup : toDrop.Nodup := hkeys.sublist (List.filter_sublist.map _)
  have hin : ∀ k ∈ toDrop, k ∈ pool.queue := by
    intro k hk
    obtain ⟨e, he, rfl⟩ := List.mem_map.mp hk
    exact mem_iff_exists_toList.mpr ⟨e, (List.mem_filter.mp he).1, rfl⟩
  obtain ⟨hlist, hcap, hsound⟩ := foldl_remove hnodup hin h
  refine ⟨?_, hcap, hsound⟩
  show (toDrop.foldl remove pool).queue.toList = _
  rw [hlist]
  refine List.filter_congr fun e he => ?_
  have hold : e.1 ∈ toDrop ↔ ttlMs < ageMs nowMs e.2.submitMs := by
    rw [hdrop, List.mem_map]
    constructor
    · rintro ⟨f, hf, hfe⟩
      obtain ⟨hf, hage⟩ := List.mem_filter.mp hf
      rw [← List.inj_on_of_nodup_map hkeys hf he hfe]
      simpa using hage
    · intro hage
      exact ⟨e, List.mem_filter.mpr ⟨he, by simpa using hage⟩, rfl⟩
  simp [hold]

end Expire

/-! ## One submission -/

section Submit

variable {blake3 : List UInt8 → Bytes32} {pool : Mempool}

/-- The entry of an accepted submission. -/
def admitted (intent : Intent) (priority nowMs : UInt64) :
    Except MempoolError IntentHash → List (EntryKey × Entry)
  | .ok hash => [(entryKey priority nowMs hash, ⟨intent, nowMs⟩)]
  | .error _ => []

theorem not_mem_queue_of_fresh (h : Sound blake3 pool) {key : EntryKey} (hfresh : key.hash ∉ pool.seen) :
    key ∉ pool.queue := fun hin => hfresh (h.seen.mpr ⟨key, hin, rfl⟩)

theorem toList_enqueue_perm (pool : Mempool) {key : EntryKey} (entry : Entry) (hnew : key ∉ pool.queue) :
    (pool.enqueue key entry).queue.toList.Perm ((key, entry) :: pool.queue.toList) := by
  have hperm := MapSum.toList_insert_perm pool.queue key entry
  rwa [MapSum.erase_eq_self (MapSum.notMem_iff.mp hnew)] at hperm

/-- Queueing a new key does not change what has left. -/
theorem left_enqueue (room : Mempool) {key : EntryKey} (entry : Entry) (hnew : key ∉ pool.queue) :
    left pool (room.enqueue key entry) = left pool room := by
  refine List.filter_congr fun e he => ?_
  have hne : key ≠ e.1 := fun heq => hnew (heq ▸ mem_iff_exists_toList.mpr ⟨e, he, rfl⟩)
  simp [enqueue, ExtTreeMap.mem_insert, hne]

theorem left_remove_last {init : List (EntryKey × Entry)} {last : EntryKey × Entry}
    (h : pool.queue.toList = init ++ [last]) : left pool (pool.remove last.1) = [last] := by
  have hrest : (pool.remove last.1).queue.toList = init := toList_erase_last h
  have hbalance : pool.queue.toList.Perm (left pool (pool.remove last.1) ++ init) := by
    have := balance_of_shrunk pool (pool.remove last.1) fun e he => by
      rw [h]
      rw [hrest] at he
      exact List.mem_append_left _ he
    rwa [hrest] at this
  rw [h] at hbalance
  have hone := (List.perm_append_right_iff init).mp ((List.perm_append_comm).trans hbalance)
  exact List.perm_singleton.mp hone.symm

/-- **What a submission does**: refused, it changes nothing; accepted, it adds its entry, and at most the
    last entry leaves, for a higher priority. -/
theorem submit_spec (hcap : 1 ≤ pool.capacity) (h : Sound blake3 pool) (intent : Intent)
    (priority : UInt64) (limited : Option UInt64) (nowMs : UInt64) :
    let out := pool.submit blake3 intent priority limited nowMs
    (out.1.isOk = false → out.2 = pool) ∧
    (left pool out.2 = [] ∨ ∃ last, pool.queue.toList.getLast? = some last ∧
      left pool out.2 = [last] ∧ last.1.priority < priority) ∧
    (pool.queue.toList ++ admitted intent priority nowMs out.1).Perm
      (left pool out.2 ++ out.2.queue.toList) ∧
    out.2.capacity = pool.capacity ∧ Sound blake3 out.2 := by
  intro out
  rcases submit_cases hcap intent priority limited nowMs with ⟨e, hout⟩ | ⟨hfresh, hroom, hout⟩ |
    ⟨hfresh, init, last, hsplit, hbid, hout⟩
  · have hout : out = _ := hout
    rw [hout]
    refine ⟨fun _ => rfl, .inl (left_self pool), ?_, rfl, h⟩
    rw [left_self]
    simp [admitted]
  · have hout : out = _ := hout
    have hnew := not_mem_queue_of_fresh h hfresh
    have hleft := (left_enqueue pool ⟨intent, nowMs⟩ hnew).trans (left_self pool)
    rw [hout]
    refine ⟨fun hok => (by cases hok), .inl hleft, ?_, rfl, h.enqueue rfl hfresh hroom⟩
    rw [hleft]
    exact (List.perm_append_comm).trans (toList_enqueue_perm pool _ hnew).symm
  · have hout : out = _ := hout
    have hnew := not_mem_queue_of_fresh h hfresh
    have hmem : last.1 ∈ pool.queue :=
      mem_iff_exists_toList.mpr ⟨last, by rw [hsplit]; simp, rfl⟩
    have hleft := (left_enqueue (pool.remove last.1) ⟨intent, nowMs⟩ hnew).trans
      (left_remove_last hsplit)
    have hfresh' : (entryKey priority nowMs (intentHash blake3 intent)).hash ∉ (pool.remove last.1).seen :=
      fun hin => hfresh (Finset.mem_of_mem_erase hin)
    have hnew' := not_mem_queue_of_fresh (h.remove hmem) hfresh'
    have hroom : (pool.remove last.1).queue.size < (pool.remove last.1).capacity := by
      have hsize : (pool.remove last.1).queue.size + 1 = pool.queue.size :=
        MapSum.size_erase_of_mem hmem
      have hbound := h.bounded
      show (pool.remove last.1).queue.size < pool.capacity
      omega
    rw [hout]
    refine ⟨fun hok => (by cases hok), .inr ⟨last, by rw [hsplit]; simp, hleft, hbid⟩, ?_, rfl,
      (h.remove hmem).enqueue rfl hfresh' hroom⟩
    rw [hleft, hsplit]
    have hrest : (pool.remove last.1).queue.toList = init := toList_erase_last hsplit
    have hinsert := toList_enqueue_perm (pool.remove last.1) ⟨intent, nowMs⟩ hnew'
    rw [hrest] at hinsert
    refine List.Perm.trans ?_ (List.Perm.append_left [last] hinsert.symm)
    rw [List.append_assoc]
    exact List.perm_append_comm

end Submit

end Mempool

/-! ## Runs -/

open Mempool

inductive PoolCall where
  | submit (intent : Intent) (priority : UInt64) (limited : Option UInt64) (nowMs : UInt64)
  | drainForBlock (max : Nat)
  | expire (nowMs : UInt64)

/-- The pool, and what went into it and out of it so far. -/
structure Books where
  pool : Mempool
  accepted : List (EntryKey × Entry)
  drained : List (EntryKey × Entry)
  evicted : List (EntryKey × Entry)
  expired : List (EntryKey × Entry)

namespace Books

def start (capacity : Nat) : Books := ⟨ofCapacity capacity, [], [], [], []⟩

def step (blake3 : List UInt8 → Bytes32) (ttlMs : UInt64) (b : Books) : PoolCall → Books
  | .submit intent priority limited nowMs =>
    let out := b.pool.submit blake3 intent priority limited nowMs
    { b with
      pool := out.2
      accepted := b.accepted ++ admitted intent priority nowMs out.1
      evicted := b.evicted ++ left b.pool out.2 }
  | .drainForBlock max =>
    let out := Mempool.drainForBlock max b.pool
    { b with pool := out.2, drained := b.drained ++ left b.pool out.2 }
  | .expire nowMs =>
    let out := Mempool.expire ttlMs nowMs b.pool
    { b with pool := out.2, expired := b.expired ++ left b.pool out.2 }

/-- The invariant of every run. -/
structure Balanced (blake3 : List UInt8 → Bytes32) (capacity : Nat) (b : Books) : Prop where
  sound : Sound blake3 b.pool
  capacity_eq : b.pool.capacity = capacity
  balance : b.accepted.Perm (b.drained ++ b.evicted ++ b.expired ++ b.pool.queue.toList)

section Runs

variable {blake3 : List UInt8 → Bytes32} {ttlMs : UInt64} {capacity : Nat} {b : Books}

theorem balanced_start : Balanced blake3 capacity (start capacity) where
  sound := sound_ofCapacity blake3 capacity
  capacity_eq := rfl
  balance := List.Perm.nil

/-- **The step.** -/
theorem Balanced.step (h : Balanced blake3 capacity b) (hcap : 1 ≤ capacity) (call : PoolCall) :
    Balanced blake3 capacity (b.step blake3 ttlMs call) := by
  have hbalance := List.perm_iff_count.mp h.balance
  cases call with
  | submit intent priority limited nowMs =>
    obtain ⟨-, -, hmoved, hcapacity, hsound⟩ :=
      submit_spec (h.capacity_eq ▸ hcap) h.sound intent priority limited nowMs
    refine ⟨hsound, hcapacity.trans h.capacity_eq, List.perm_iff_count.mpr fun e => ?_⟩
    have hmoved := List.perm_iff_count.mp hmoved e
    have hbalance := hbalance e
    simp only [Books.step, List.count_append] at hmoved hbalance ⊢
    omega
  | drainForBlock max =>
    obtain ⟨-, hqueue, hcapacity, hsound⟩ := drainForBlock_eq blake3 max b.pool
    refine ⟨hsound h.sound, hcapacity.trans h.capacity_eq, List.perm_iff_count.mpr fun e => ?_⟩
    have hmoved := List.perm_iff_count.mp (balance_of_shrunk b.pool
      (Mempool.drainForBlock max b.pool).2 fun e he => by
        rw [hqueue] at he
        exact List.mem_of_mem_drop he) e
    have hbalance := hbalance e
    simp only [Books.step, List.count_append] at hmoved hbalance ⊢
    omega
  | expire nowMs =>
    obtain ⟨hqueue, hcapacity, hsound⟩ := expire_eq ttlMs nowMs h.sound
    refine ⟨hsound, hcapacity.trans h.capacity_eq, List.perm_iff_count.mpr fun e => ?_⟩
    have hmoved := List.perm_iff_count.mp (balance_of_shrunk b.pool
      (Mempool.expire ttlMs nowMs b.pool).2 fun e he => by
        rw [hqueue] at he
        exact (List.mem_filter.mp he).1) e
    have hbalance := hbalance e
    simp only [Books.step, List.count_append] at hmoved hbalance ⊢
    omega

/-- **The run.** -/
theorem balanced_run (hcap : 1 ≤ capacity) (calls : List PoolCall) :
    Balanced blake3 capacity (calls.foldl (Books.step blake3 ttlMs) (start capacity)) := by
  induction calls using List.reverseRecOn with
  | nil => exact balanced_start
  | append_singleton calls call ih =>
    rw [List.foldl_append]
    exact ih.step hcap call

end Runs

end Books

/-- The order of the queue: priority falling, then submission time and content hash rising. -/
def DrainsBefore (blake3 : List UInt8 → Bytes32) (e f : EntryKey × Entry) : Prop :=
  f.1.priority < e.1.priority ∨ f.1.priority = e.1.priority ∧
    (e.2.submitMs < f.2.submitMs ∨ e.2.submitMs = f.2.submitMs ∧
      intentHash blake3 e.2.intent < intentHash blake3 f.2.intent)

theorem drainsBefore_of_compare {blake3 : List UInt8 → Bytes32} {e f : EntryKey × Entry}
    (he : e.1 = entryKey e.1.priority e.2.submitMs (intentHash blake3 e.2.intent))
    (hf : f.1 = entryKey f.1.priority f.2.submitMs (intentHash blake3 f.2.intent))
    (h : compare e.1 f.1 = .lt) : DrainsBefore blake3 e f := by
  rw [he, hf] at h
  -- the order of the map is lexicographic, with the priorities turned round
  have hlex : ((compare f.1.priority e.1.priority).then ((compare e.2.submitMs f.2.submitMs).then
      (compare (intentHash blake3 e.2.intent) (intentHash blake3 f.2.intent)))) = .lt := h
  simp only [Ordering.then_eq_lt, compare_lt_iff_lt, Std.compare_eq_iff_eq] at hlex
  exact hlex

/-- **The accounts of the mempool**, in every state that calls can lead to, and what the next call does
    in it. -/
theorem mempool_accounts (blake3 : List UInt8 → Bytes32) (ttlMs : UInt64) {capacity : Nat}
    (hcap : 1 ≤ capacity) (calls : List PoolCall) :
    let b := calls.foldl (Books.step blake3 ttlMs) (Books.start capacity)
    let hashes := b.pool.queue.toList.map fun e => intentHash blake3 e.2.intent
    (∀ h, h ∈ b.pool.seen ↔ h ∈ hashes) ∧ hashes.Nodup ∧ b.pool.queue.toList.length ≤ capacity ∧
    b.accepted.Perm (b.drained ++ b.evicted ++ b.expired ++ b.pool.queue.toList) ∧
    b.pool.queue.toList.Pairwise (DrainsBefore blake3) ∧
    (∀ max,
      (Mempool.drainForBlock max b.pool).1 = (b.pool.queue.toList.take max).map (·.2.intent) ∧
      (Mempool.drainForBlock max b.pool).2.queue.toList = b.pool.queue.toList.drop max) ∧
    (∀ nowMs, (Mempool.expire ttlMs nowMs b.pool).2.queue.toList =
      b.pool.queue.toList.filter fun e => ¬ ttlMs < ageMs nowMs e.2.submitMs) ∧
    ∀ intent priority limited nowMs,
      let out := b.pool.submit blake3 intent priority limited nowMs
      (out.1.isOk = false → out.2 = b.pool) ∧
      (left b.pool out.2 = [] ∨ ∃ last, b.pool.queue.toList.getLast? = some last ∧
        left b.pool out.2 = [last] ∧ last.1.priority < priority) := by
  intro b hashes
  have h : Books.Balanced blake3 capacity b := Books.balanced_run hcap calls
  have hkeyed : ∀ e ∈ b.pool.queue.toList,
      e.1 = entryKey e.1.priority e.2.submitMs (intentHash blake3 e.2.intent) := fun e he =>
    h.sound.keyed (ExtTreeMap.mem_toList_iff_getElem?_eq_some.mp he)
  have hhash : ∀ e ∈ b.pool.queue.toList, e.1.hash = intentHash blake3 e.2.intent := fun e he =>
    (congrArg EntryKey.hash (hkeyed e he)).trans rfl
  refine ⟨fun x => ?_, ?_, ?_, h.balance, ?_, fun max => ?_, fun nowMs => ?_,
    fun intent priority limited nowMs => ?_⟩
  · rw [h.sound.seen, List.mem_map]
    constructor
    · rintro ⟨key, hkey, rfl⟩
      obtain ⟨e, he, rfl⟩ := mem_iff_exists_toList.mp hkey
      exact ⟨e, he, (hhash e he).symm⟩
    · rintro ⟨e, he, rfl⟩
      exact ⟨e.1, mem_iff_exists_toList.mpr ⟨e, he, rfl⟩, hhash e he⟩
  · refine (nodup_toList b.pool.queue).map_on fun e he f hf heq => ?_
    have hkeys : e.1 = f.1 := h.sound.once (mem_iff_exists_toList.mpr ⟨e, he, rfl⟩)
      (mem_iff_exists_toList.mpr ⟨f, hf, rfl⟩) ((hhash e he).trans (heq.trans (hhash f hf).symm))
    exact List.inj_on_of_nodup_map (Codec.nodup_keys_toList b.pool.queue) he hf hkeys
  · rw [ExtTreeMap.length_toList, ← h.capacity_eq]
    exact h.sound.bounded
  · refine List.Pairwise.imp_of_mem ?_ (ExtTreeMap.ordered_keys_toList (t := b.pool.queue))
    exact fun {e f} he hf hlt => drainsBefore_of_compare (hkeyed e he) (hkeyed f hf) hlt
  · obtain ⟨hout, hqueue, -⟩ := drainForBlock_eq blake3 max b.pool
    exact ⟨hout, hqueue⟩
  · exact (expire_eq ttlMs nowMs h.sound).1
  · obtain ⟨hrefused, hevicted, -⟩ :=
      submit_spec (h.capacity_eq ▸ hcap) h.sound intent priority limited nowMs
    exact ⟨hrefused, hevicted⟩

/-- Room for two: the third bid evicts, the fourth is too low, one entry is drained and one expires. -/
def crowdedCalls : List PoolCall :=
  [.submit (.exitAuthority 1) 5 none 100, .submit (.exitAuthority 2) 7 none 90,
    .submit (.exitAuthority 3) 9 none 200, .submit (.exitAuthority 4) 6 none 200,
    .submit (.exitAuthority 3) 9 none 210, .submit (.exitAuthority 5) 9 (some 20) 210,
    .drainForBlock 1, .expire 60, .expire 500]

theorem mempool_accounts_crowded :
    let b := crowdedCalls.foldl (Books.step Blake3.hash 300) (Books.start 2)
    b.accepted.map (·.2.intent) = [.exitAuthority 1, .exitAuthority 2, .exitAuthority 3] ∧
    b.drained.map (·.2.intent) = [.exitAuthority 3] ∧ b.evicted.map (·.2.intent) = [.exitAuthority 1] ∧
    b.expired.map (·.2.intent) = [.exitAuthority 2] ∧
    b.accepted.Perm (b.drained ++ b.evicted ++ b.expired ++ b.pool.queue.toList) := by
  intro b
  have hmoved : b.accepted.map (·.2.intent) = [.exitAuthority 1, .exitAuthority 2, .exitAuthority 3] ∧
      b.drained.map (·.2.intent) = [.exitAuthority 3] ∧
      b.evicted.map (·.2.intent) = [.exitAuthority 1] ∧
      b.expired.map (·.2.intent) = [.exitAuthority 2] := by decide +kernel
  have hcap : 1 ≤ 2 := by decide
  have haccounts := mempool_accounts Blake3.hash 300 hcap crowdedCalls
  exact ⟨hmoved.1, hmoved.2.1, hmoved.2.2.1, hmoved.2.2.2, haccounts.2.2.2.1⟩

end SuwappuDag.Node
