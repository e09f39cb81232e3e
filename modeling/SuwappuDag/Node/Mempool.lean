/-
  THE MEMPOOL (`suwappu-mempool/src/mempool.rs`).

  1. **Program** — a queue ordered by falling priority, then submission time, then content hash, and
     a set `seen` of the hashes that are queued.  `submit` refuses what is queued ALREADY; a drain
     takes the front of the queue and forgets the hashes it took.  The per-peer rate limiter counts
     in floating point and is left open: its verdict is an argument.
  2. **Bookkeeping** — `count_submit` and `count_drainForBlock` say what happens to the queued
     intents as a multiset: an accepted submission adds one occurrence, a drain only moves them out.
-/
import SuwappuDag.Lib.MapSum
import SuwappuDag.Node.Codec

namespace SuwappuDag.Node

open Words Execution
open Std (ExtTreeMap)

abbrev IntentHash := Bytes32

/-- `(Reverse(priority), submit_ms, hash)`. -/
abbrev EntryKey := UInt64ᵒᵈ ×ₗ UInt64 ×ₗ IntentHash

def entryKey (priority submitMs : UInt64) (hash : IntentHash) : EntryKey :=
  toLex (OrderDual.toDual priority, toLex (submitMs, hash))

def EntryKey.priority (key : EntryKey) : UInt64 := OrderDual.ofDual (ofLex key).1

def EntryKey.hash (key : EntryKey) : IntentHash := (ofLex (ofLex key).2).2

structure Entry where
  intent : Intent
  submitMs : UInt64
deriving DecidableEq

inductive MempoolError where
  | rateLimited (retryAfterMs : UInt64)
  | duplicateIntent (hash : IntentHash)
  | belowFloor (given floor : UInt64) (capacity : Nat)
deriving DecidableEq

structure Mempool where
  capacity : Nat
  /-- The first entry is drained first, the last one is evicted first. -/
  queue : ExtTreeMap EntryKey Entry
  /-- Hashes of the queued intents. -/
  seen : Finset IntentHash

namespace Mempool

/-- `MempoolConfig::default()`. -/
def new : Mempool := ⟨10000, ∅, ∅⟩

/-- `pop_first` or `pop_last`, once the key is known. -/
def remove (pool : Mempool) (key : EntryKey) : Mempool :=
  { pool with queue := pool.queue.erase key, seen := pool.seen.erase key.hash }

/-- Steps 3 and 4 of `submit`: the dedup set, then the floor, which is evicted by a higher bid. -/
def makeRoom (pool : Mempool) (hash : IntentHash) (priority : UInt64) :
    Except MempoolError Mempool :=
  if hash ∈ pool.seen then .error (.duplicateIntent hash)
  else if pool.capacity ≤ pool.queue.size then
    let floor := pool.queue.keys.getLast?
    let floorPriority := (floor.map EntryKey.priority).getD 0
    if priority ≤ floorPriority then .error (.belowFloor priority floorPriority pool.capacity)
    else .ok ((floor.map pool.remove).getD pool)
  else .ok pool

/-- `submit`; `limited` is the answer of the peer's bucket: `some` with the time to wait. -/
def submit (blake3 : List UInt8 → Bytes32) (pool : Mempool) (intent : Intent) (priority : UInt64)
    (limited : Option UInt64) (nowMs : UInt64) : Except MempoolError IntentHash × Mempool :=
  let hash := intentHash blake3 intent
  match limited with
  | some retryAfterMs => (.error (.rateLimited retryAfterMs), pool)
  | none =>
    match pool.makeRoom hash priority with
    | .error e => (.error e, pool)
    | .ok room =>
      (.ok hash, { room with
        queue := room.queue.insert (entryKey priority nowMs hash) ⟨intent, nowMs⟩
        seen := insert hash room.seen })

/-- Pop up to `max` entries from the front. -/
def drainForBlock : Nat → Mempool → List Intent × Mempool
  | 0, pool => ([], pool)
  | max + 1, pool =>
    match pool.queue.toList.head? with
    | none => ([], pool)
    | some (key, entry) =>
      let out := drainForBlock max (pool.remove key)
      (entry.intent :: out.1, out.2)

/-! ## The queued intents as a multiset -/

def intents (pool : Mempool) : List Intent := pool.queue.toList.map fun e => e.2.intent

theorem intents_remove_subperm (pool : Mempool) (key : EntryKey) :
    (pool.remove key).intents.Subperm pool.intents :=
  MapSum.map_toList_erase_subperm _ pool.queue key

theorem intents_makeRoom {pool room : Mempool} {hash : IntentHash} {priority : UInt64}
    (h : pool.makeRoom hash priority = .ok room) : room.intents.Subperm pool.intents := by
  unfold makeRoom at h
  split at h
  · cases h
  split at h
  · dsimp only at h
    split at h
    · cases h
    cases hfloor : pool.queue.keys.getLast? with
    | none =>
      rw [hfloor] at h
      cases h
      exact List.Subperm.refl _
    | some key =>
      rw [hfloor] at h
      cases h
      exact intents_remove_subperm pool key
  · cases h
    exact List.Subperm.refl _

/-- What one submission does to the number of queued copies of an intent: an accepted one adds at
    most itself, a refused one changes nothing. -/
theorem count_submit {blake3 : List UInt8 → Bytes32} {pool pool' : Mempool} {intent : Intent}
    {priority nowMs : UInt64} {limited : Option UInt64} {r : Except MempoolError IntentHash}
    (h : pool.submit blake3 intent priority limited nowMs = (r, pool')) (x : Intent) :
    pool'.intents.count x ≤ pool.intents.count x + if r.isOk ∧ intent = x then 1 else 0 := by
  unfold submit at h
  cases limited with
  | some retry =>
    cases h
    exact Nat.le_add_right _ _
  | none =>
    dsimp only at h
    cases hroom : pool.makeRoom (intentHash blake3 intent) priority with
    | error e =>
      rw [hroom] at h
      cases h
      exact Nat.le_add_right _ _
    | ok room =>
      rw [hroom] at h
      cases h
      have hinsert := (MapSum.toList_insert_perm room.queue
        (entryKey priority nowMs (intentHash blake3 intent)) ⟨intent, nowMs⟩).map fun e => e.2.intent
      have herase : ((room.queue.erase _).toList.map fun e => e.2.intent).Subperm room.intents :=
        MapSum.map_toList_erase_subperm _ room.queue
          (entryKey priority nowMs (intentHash blake3 intent))
      have hle := (herase.trans (intents_makeRoom hroom)).count_le x
      unfold intents at hle ⊢
      rw [hinsert.count_eq, List.map_cons, List.count_cons]
      by_cases hx : intent = x
      · subst hx
        simp only [beq_self_eq_true, Except.isOk, Except.toBool, and_self, if_true]
        omega
      · simp only [hx, beq_iff_eq, and_false, if_false]
        omega

/-- At the lowest priority nothing is evicted: a submission finds room or is refused. -/
theorem makeRoom_zero {pool room : Mempool} {hash : IntentHash}
    (h : pool.makeRoom hash 0 = .ok room) : hash ∉ pool.seen ∧ room = pool := by
  unfold makeRoom at h
  split at h
  · cases h
  next hnew =>
  split at h
  · dsimp only at h
    rw [if_pos UInt64.zero_le] at h
    cases h
  · cases h
    exact ⟨hnew, rfl⟩

/-- The dedup set under one submission at the lowest priority: it only grows, and an accepted intent
    was not in it before and is in it after. -/
theorem submit_seen {blake3 : List UInt8 → Bytes32} {pool pool' : Mempool} {intent : Intent}
    {nowMs : UInt64} {limited : Option UInt64} {r : Except MempoolError IntentHash}
    (h : pool.submit blake3 intent 0 limited nowMs = (r, pool')) :
    pool.seen ⊆ pool'.seen ∧ (r.isOk = true →
      intentHash blake3 intent ∉ pool.seen ∧ intentHash blake3 intent ∈ pool'.seen) := by
  unfold submit at h
  cases limited with
  | some retry =>
    cases h
    exact ⟨Finset.Subset.refl _, fun hok => by cases hok⟩
  | none =>
    dsimp only at h
    cases hroom : pool.makeRoom (intentHash blake3 intent) 0 with
    | error e =>
      rw [hroom] at h
      cases h
      exact ⟨Finset.Subset.refl _, fun hok => by cases hok⟩
    | ok room =>
      obtain ⟨hnew, rfl⟩ := makeRoom_zero hroom
      rw [hroom] at h
      cases h
      exact ⟨Finset.subset_insert _ _, fun _ => ⟨hnew, Finset.mem_insert_self _ _⟩⟩

/-- A drain moves intents out of the queue and makes none. -/
theorem count_drainForBlock (max : Nat) (pool : Mempool) (x : Intent) :
    (drainForBlock max pool).1.count x + (drainForBlock max pool).2.intents.count x ≤
      pool.intents.count x := by
  induction max generalizing pool with
  | zero => simp [drainForBlock]
  | succ max ih =>
    unfold drainForBlock
    cases hhead : pool.queue.toList.head? with
    | none => simp
    | some e =>
      obtain ⟨key, entry⟩ := e
      have hget : pool.queue[key]? = some entry :=
        ExtTreeMap.mem_toList_iff_getElem?_eq_some.mp (List.mem_of_mem_head? hhead)
      have hperm := (MapSum.toList_perm_cons_erase hget).map fun e => e.2.intent
      have hcount := hperm.count_eq x
      have hrest := ih (pool.remove key)
      unfold intents at hrest ⊢
      simp only [List.map_cons, List.count_cons, remove] at hcount hrest ⊢
      omega

end Mempool

end SuwappuDag.Node
