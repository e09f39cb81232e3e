/-
  THE SEQUENCER'S QUEUE (`suwappu-l2-sequencer/src/lib.rs`).

  1. **Program** — `TxMempool`: a FIFO of transactions with a running total of their bytes.  `submit`
     refuses what is empty or too large and what would not fit, and drops what it already holds;
     `drain` hands out a batch from the front.
  2. **What the queue is for** — a caller counts a transaction as newly enqueued when it is answered
     with a hash and its BYTES are not queued yet (`newlyEnqueued`).  The queue compares hashes.
  3. **Specification (`queue_keeps_order`)** — at every moment the batches handed out so far and the
     queue behind them are the newly enqueued transactions, in order; the total is right and bounded.
  4. **Crux** — the total is a difference of sums and the code subtracts with saturation; it is right
     because the queue is what is summed up.
-/
import SuwappuDag.Lib.Blake3
import SuwappuDag.Lib.Runs
import SuwappuDag.Lib.Words

namespace SuwappuDag.L2

open Words

/-- Maximum L2 transactions in a single batch. -/
def maxTxsPerBatch : Nat := 500

def maxTxBytes : Nat := 256 * 1024

def maxMempoolBytes : Nat := 256 * 1024 * 1024

inductive SequencerError where
  | txTooLarge (max got : Nat)
  | emptyTx
  | mempoolFull (max current : Nat)
  | badPublicInputsWidth (expected got : Nat)
deriving DecidableEq, Repr

structure PendingTx where
  bytes : List UInt8
  hash : Bytes32
deriving DecidableEq

/-- `PendingTx::new`. -/
def PendingTx.new (blake3 : List UInt8 → Bytes32) (bytes : List UInt8) :
    Except SequencerError PendingTx :=
  if bytes.isEmpty then .error .emptyTx
  else if maxTxBytes < bytes.length then .error (.txTooLarge maxTxBytes bytes.length)
  else .ok ⟨bytes, blake3 bytes⟩

theorem PendingTx.new_eq_ok_iff {blake3 : List UInt8 → Bytes32} {bytes : List UInt8} {tx : PendingTx} :
    PendingTx.new blake3 bytes = .ok tx ↔
      bytes ≠ [] ∧ bytes.length ≤ maxTxBytes ∧ tx = ⟨bytes, blake3 bytes⟩ := by
  unfold PendingTx.new
  split
  · next hempty => simp [List.isEmpty_iff.mp hempty]
  next hne =>
  rw [List.isEmpty_iff] at hne
  split
  · next hlong => simp [hne, not_le.mpr hlong]
  · next hfits =>
    simp only [Except.ok.injEq, hne, not_lt.mp hfits, ne_eq, not_false_eq_true, true_and]
    exact eq_comm

/-! ## The queue -/

structure TxMempool where
  queue : List PendingTx
  bytesTotal : Nat
deriving DecidableEq

namespace TxMempool

def new : TxMempool := ⟨[], 0⟩

/-- `usize::saturating_add`, on 64 bits. -/
def saturatingAdd (a b : Nat) : Nat := min (a + b) (2 ^ 64 - 1)

/-- Refuse, drop what is queued already, or push to the back. -/
def submit (blake3 : List UInt8 → Bytes32) (bytes : List UInt8) (pool : TxMempool) :
    Except SequencerError Bytes32 × TxMempool :=
  match PendingTx.new blake3 bytes with
  | .error e => (.error e, pool)
  | .ok tx =>
    if maxMempoolBytes < saturatingAdd pool.bytesTotal tx.bytes.length then
      (.error (.mempoolFull maxMempoolBytes pool.bytesTotal), pool)
    else if pool.queue.any fun t => t.hash = tx.hash then (.ok tx.hash, pool)
    else (.ok tx.hash, ⟨pool.queue ++ [tx], pool.bytesTotal + tx.bytes.length⟩)

/-- The ways a submission ends: refused, found in the queue, or pushed. -/
theorem submit_cases (blake3 : List UInt8 → Bytes32) (bytes : List UInt8) (pool : TxMempool) :
    (∃ e, pool.submit blake3 bytes = (.error e, pool)) ∨
    (∃ tx ∈ pool.queue, tx.hash = blake3 bytes ∧
      pool.submit blake3 bytes = (.ok (blake3 bytes), pool)) ∨
    PendingTx.new blake3 bytes = .ok ⟨bytes, blake3 bytes⟩ ∧
      (∀ tx ∈ pool.queue, tx.hash ≠ blake3 bytes) ∧
      pool.bytesTotal + bytes.length ≤ maxMempoolBytes ∧
      pool.submit blake3 bytes = (.ok (blake3 bytes),
        ⟨pool.queue ++ [⟨bytes, blake3 bytes⟩], pool.bytesTotal + bytes.length⟩) := by
  cases htx : PendingTx.new blake3 bytes with
  | error e => exact .inl ⟨e, by simp only [submit, htx]⟩
  | ok tx =>
    obtain ⟨-, -, rfl⟩ := PendingTx.new_eq_ok_iff.mp htx
    by_cases hfull : maxMempoolBytes < saturatingAdd pool.bytesTotal bytes.length
    · exact .inl ⟨.mempoolFull maxMempoolBytes pool.bytesTotal, by
        simp only [submit, htx, if_pos hfull]⟩
    have hfits : pool.bytesTotal + bytes.length ≤ maxMempoolBytes := by
      have hmax : maxMempoolBytes = 268435456 := rfl
      simp only [saturatingAdd] at hfull
      omega
    cases hany : pool.queue.any fun t => t.hash = blake3 bytes with
    | true =>
      obtain ⟨t, ht, hhash⟩ := List.any_eq_true.mp hany
      refine .inr (.inl ⟨t, ht, of_decide_eq_true hhash, ?_⟩)
      simp only [submit, htx, if_neg hfull, hany, if_true]
    | false =>
      refine .inr (.inr ⟨rfl, ?_, hfits, ?_⟩)
      · intro t ht hhash
        exact List.any_eq_false.mp hany t ht (decide_eq_true hhash)
      · simp only [submit, htx, if_neg hfull, hany, Bool.false_eq_true, if_false]

/-- The loop of `drain`; `saturating_sub` is the subtraction of `Nat`. -/
def drainLoop : Nat → TxMempool → List PendingTx × TxMempool
  | 0, pool => ([], pool)
  | n + 1, pool =>
    match pool.queue with
    | [] => drainLoop n pool
    | tx :: queue =>
      let out := drainLoop n ⟨queue, pool.bytesTotal - tx.bytes.length⟩
      (tx :: out.1, out.2)

def drain (max : Nat) (pool : TxMempool) : List PendingTx × TxMempool :=
  drainLoop (min (min max pool.queue.length) maxTxsPerBatch) pool

/-- The bytes of the queue, counted from scratch. -/
def queuedBytes (pool : TxMempool) : Nat := (pool.queue.map fun tx => tx.bytes.length).sum

/-- The loop takes a part off the front. -/
theorem drainLoop_queue (n : Nat) : ∀ (pool : TxMempool),
    (drainLoop n pool).1 = pool.queue.take n ∧ (drainLoop n pool).2.queue = pool.queue.drop n := by
  induction n with
  | zero => exact fun pool => ⟨rfl, rfl⟩
  | succ n ih =>
    rintro ⟨queue, total⟩
    cases queue with
    | nil => simpa [drainLoop] using ih ⟨[], total⟩
    | cons tx queue =>
      obtain ⟨hbatch, hqueue⟩ := ih ⟨queue, total - tx.bytes.length⟩
      exact ⟨congrArg (tx :: ·) hbatch, hqueue⟩

/-- What the loop takes off the front it takes off the total. -/
theorem drainLoop_total (n : Nat) : ∀ (pool : TxMempool), pool.bytesTotal = pool.queuedBytes →
    (drainLoop n pool).2.bytesTotal = (drainLoop n pool).2.queuedBytes := by
  induction n with
  | zero => exact fun pool htotal => htotal
  | succ n ih =>
    rintro ⟨queue, total⟩ htotal
    cases queue with
    | nil => exact ih ⟨[], total⟩ htotal
    | cons tx queue =>
      simp only [queuedBytes, List.map_cons, List.sum_cons] at htotal
      exact ih ⟨queue, total - tx.bytes.length⟩ (by simp only [queuedBytes]; omega)

/-- Submitting what is queued changes nothing; there has to be room for it all the same. -/
theorem submit_of_mem {blake3 : List UInt8 → Bytes32} {pool : TxMempool} {tx : PendingTx}
    (hnew : PendingTx.new blake3 tx.bytes = .ok tx) (hin : tx ∈ pool.queue) :
    pool.submit blake3 tx.bytes =
      (if maxMempoolBytes < saturatingAdd pool.bytesTotal tx.bytes.length then
        .error (.mempoolFull maxMempoolBytes pool.bytesTotal) else .ok tx.hash, pool) := by
  have hany : (pool.queue.any fun t => t.hash = tx.hash) = true :=
    List.any_eq_true.mpr ⟨tx, hin, decide_eq_true rfl⟩
  simp only [submit, hnew, hany, if_true]
  split <;> rfl

end TxMempool

/-! ## Histories -/

inductive MempoolOp where
  | submit (bytes : List UInt8)
  | drain (max : Nat)

/-- The queue, and what its callers have seen of it. -/
structure MempoolLog where
  pool : TxMempool
  /-- The transactions newly enqueued, oldest first. -/
  enqueued : List (List UInt8)
  /-- The batches handed out, with the size that was asked for. -/
  drained : List (Nat × List PendingTx)

namespace MempoolLog

def new : MempoolLog := ⟨TxMempool.new, [], []⟩

/-- Answered with a hash, and not queued already. -/
def newlyEnqueued (blake3 : List UInt8 → Bytes32) (pool : TxMempool) (bytes : List UInt8) : Bool :=
  (pool.submit blake3 bytes).1.isOk && !(pool.queue.map PendingTx.bytes).contains bytes

def exec (blake3 : List UInt8 → Bytes32) (log : MempoolLog) : MempoolOp → MempoolLog
  | .submit bytes =>
    { log with
      pool := (log.pool.submit blake3 bytes).2
      enqueued := if newlyEnqueued blake3 log.pool bytes then log.enqueued ++ [bytes] else log.enqueued }
  | .drain max =>
    { log with
      pool := (log.pool.drain max).2
      drained := log.drained ++ [(max, (log.pool.drain max).1)] }

/-- A new queue behind a sequence of calls. -/
def run (blake3 : List UInt8 → Bytes32) (ops : List MempoolOp) : MempoolLog :=
  ops.foldl (exec blake3) new

/-- The transactions handed out and those still queued. -/
def outThenQueued (log : MempoolLog) : List PendingTx :=
  (log.drained.map Prod.snd).flatten ++ log.pool.queue

/-- `S` holds whatever has been submitted. -/
structure Sound (blake3 : List UInt8 → Bytes32) (S : List UInt8 → Prop) (log : MempoolLog) : Prop where
  total : log.pool.bytesTotal = log.pool.queuedBytes
  bounded : log.pool.bytesTotal ≤ maxMempoolBytes
  distinct : (log.pool.queue.map PendingTx.hash).Nodup
  hashed : ∀ tx ∈ log.pool.queue, S tx.bytes ∧ tx.hash = blake3 tx.bytes
  ordered : log.outThenQueued.map PendingTx.bytes = log.enqueued
  small : ∀ d ∈ log.drained, d.2.length ≤ min d.1 maxTxsPerBatch

variable {blake3 : List UInt8 → Bytes32} {S : List UInt8 → Prop} {log : MempoolLog}

theorem sound_new : Sound blake3 S new where
  total := rfl
  bounded := Nat.zero_le _
  distinct := List.nodup_nil
  hashed := List.forall_mem_nil _
  ordered := rfl
  small := List.forall_mem_nil _

theorem sound_submit (hs : Sound blake3 S log)
    (hnc : ∀ a b, S a → S b → blake3 a = blake3 b → a = b) {bytes : List UInt8} (hb : S bytes) :
    Sound blake3 S (exec blake3 log (.submit bytes)) := by
  -- a submission that leaves the queue alone is not counted
  have hkeep : (log.pool.submit blake3 bytes).2 = log.pool →
      newlyEnqueued blake3 log.pool bytes = false → Sound blake3 S (exec blake3 log (.submit bytes)) := by
    intro hpool hnew
    have hlog : exec blake3 log (.submit bytes) = log := by
      simp only [exec, hpool, hnew, Bool.false_eq_true, if_false]
    rw [hlog]
    exact hs
  rcases log.pool.submit_cases blake3 bytes with ⟨e, hout⟩ | ⟨tx, htx, hhash, hout⟩ |
    ⟨-, hfresh, hfits, hout⟩
  · exact hkeep (by rw [hout]) (by rw [newlyEnqueued, hout]; rfl)
  · -- the one with this hash has these bytes
    obtain ⟨hin, hown⟩ := hs.hashed tx htx
    have hbytes : bytes ∈ log.pool.queue.map PendingTx.bytes :=
      List.mem_map.mpr ⟨tx, htx, hnc _ _ hin hb (hown.symm.trans hhash)⟩
    refine hkeep (by rw [hout]) ?_
    rw [newlyEnqueued, List.contains_iff_mem.mpr hbytes, Bool.not_true, Bool.and_false]
  have hnew : newlyEnqueued blake3 log.pool bytes = true := by
    have hcontains : (log.pool.queue.map PendingTx.bytes).contains bytes = false := by
      rw [← Bool.not_eq_true, List.contains_iff_mem, List.mem_map]
      rintro ⟨tx, htx, rfl⟩
      exact hfresh tx htx (hs.hashed tx htx).2
    rw [newlyEnqueued, hout, hcontains]
    rfl
  have hlog : exec blake3 log (.submit bytes) = { log with
      pool := ⟨log.pool.queue ++ [⟨bytes, blake3 bytes⟩], log.pool.bytesTotal + bytes.length⟩
      enqueued := log.enqueued ++ [bytes] } := by
    simp only [exec, hout, hnew, if_true]
  rw [hlog]
  refine
    { total := ?_
      bounded := hfits
      distinct := ?_
      hashed := ?_
      ordered := ?_
      small := hs.small }
  · have htotal := hs.total
    simp only [TxMempool.queuedBytes, List.map_append, List.map_cons, List.map_nil,
      List.sum_append, List.sum_cons, List.sum_nil] at htotal ⊢
    omega
  · show ((log.pool.queue ++ [_]).map PendingTx.hash).Nodup
    rw [List.map_append, List.map_singleton]
    refine hs.distinct.append (List.nodup_singleton _) ?_
    intro h hin hlast
    obtain ⟨tx, htx, rfl⟩ := List.mem_map.mp hin
    exact hfresh tx htx (List.mem_singleton.mp hlast)
  · intro tx htx
    rcases List.mem_append.mp htx with hin | hin
    · exact hs.hashed tx hin
    · rw [List.mem_singleton.mp hin]
      exact ⟨hb, rfl⟩
  · have hordered := hs.ordered
    simp only [outThenQueued] at hordered ⊢
    rw [← List.append_assoc, List.map_append, hordered]
    rfl

theorem sound_drain (hs : Sound blake3 S log) (max : Nat) :
    Sound blake3 S (exec blake3 log (.drain max)) := by
  obtain ⟨hbatch, hqueue⟩ := TxMempool.drainLoop_queue
    (min (min max log.pool.queue.length) maxTxsPerBatch) log.pool
  have htotal : (log.pool.drain max).2.bytesTotal = (log.pool.drain max).2.queuedBytes :=
    TxMempool.drainLoop_total _ _ hs.total
  have hsplit : (log.pool.drain max).1 ++ (log.pool.drain max).2.queue = log.pool.queue := by
    show (TxMempool.drainLoop _ _).1 ++ (TxMempool.drainLoop _ _).2.queue = _
    rw [hbatch, hqueue, List.take_append_drop]
  have hrest : (log.pool.drain max).2.queue.Sublist log.pool.queue := by
    rw [← hsplit]
    exact List.sublist_append_right _ _
  refine
    { total := htotal
      bounded := ?_
      distinct := ?_
      hashed := ?_
      ordered := ?_
      small := ?_ }
  · calc (log.pool.drain max).2.bytesTotal = (log.pool.drain max).2.queuedBytes := htotal
      _ ≤ log.pool.queuedBytes := (hrest.map _).sum_le_sum fun _ _ => Nat.zero_le _
      _ = log.pool.bytesTotal := hs.total.symm
      _ ≤ maxMempoolBytes := hs.bounded
  · exact hs.distinct.sublist (hrest.map _)
  · exact fun tx htx => hs.hashed tx (hrest.subset htx)
  · refine Eq.trans ?_ hs.ordered
    refine congrArg (List.map PendingTx.bytes) ?_
    show ((log.drained ++ [(max, (log.pool.drain max).1)]).map Prod.snd).flatten ++
      (log.pool.drain max).2.queue = (log.drained.map Prod.snd).flatten ++ log.pool.queue
    rw [← hsplit]
    simp
  · intro d hd
    rcases List.mem_append.mp hd with hd | hd
    · exact hs.small d hd
    · rw [List.mem_singleton.mp hd]
      show (TxMempool.drainLoop _ _).1.length ≤ min max maxTxsPerBatch
      rw [hbatch, List.length_take]
      omega

/-- The submissions of a sequence of calls. -/
def submissions (ops : List MempoolOp) : List (List UInt8) :=
  ops.filterMap fun
    | .submit bytes => some bytes
    | .drain _ => none

/-- **The queue keeps the order**: behind every sequence of calls on a new queue the total is the sum
    of the queued lengths and within the bound, the queued hashes are distinct, the batches and the
    queue behind them are the newly enqueued transactions in their order, and no batch is larger than
    asked for or than a batch may be. -/
theorem queue_keeps_order (blake3 : List UInt8 → Bytes32) (ops : List MempoolOp)
    (hnc : ∀ a ∈ submissions ops, ∀ b ∈ submissions ops, blake3 a = blake3 b → a = b) :
    let log := run blake3 ops
    log.pool.bytesTotal = (log.pool.queue.map fun tx => tx.bytes.length).sum ∧
    log.pool.bytesTotal ≤ maxMempoolBytes ∧
    (log.pool.queue.map PendingTx.hash).Nodup ∧
    ((log.drained.map Prod.snd).flatten ++ log.pool.queue).map PendingTx.bytes = log.enqueued ∧
    ∀ d ∈ log.drained, d.2.length ≤ min d.1 maxTxsPerBatch := by
  have hall : Runs.Along (exec blake3)
      (fun _ op => ∀ bytes, op = .submit bytes → bytes ∈ submissions ops) ops new := by
    refine Runs.along_of_forall ?_ new
    rintro _ op hop bytes rfl
    exact List.mem_filterMap.mpr ⟨_, hop, rfl⟩
  have hs : Sound blake3 (· ∈ submissions ops) (run blake3 ops) := by
    refine Runs.Along.invariant ?_ sound_new hall
    intro log op hs hop
    cases op with
    | submit bytes => exact sound_submit hs (fun a b ha hb => hnc a ha b hb) (hop bytes rfl)
    | drain max => exact sound_drain hs max
  exact ⟨hs.total, hs.bounded, hs.distinct, hs.ordered, hs.small⟩

/-- Three submissions, one of them repeated, and a batch of one. -/
def resubmitted : List MempoolOp := [.submit [1], .submit [1], .submit [2], .drain 1]

theorem queue_keeps_order_resubmitted :
    (run Blake3.hash resubmitted).enqueued = [[1], [2]] ∧
    ((run Blake3.hash resubmitted).pool.queue.map PendingTx.hash).Nodup ∧
    (((run Blake3.hash resubmitted).drained.map Prod.snd).flatten ++
      (run Blake3.hash resubmitted).pool.queue).map PendingTx.bytes =
        (run Blake3.hash resubmitted).enqueued := by
  obtain ⟨-, -, hdistinct, hordered, -⟩ :=
    queue_keeps_order Blake3.hash resubmitted (by decide +kernel)
  exact ⟨by decide +kernel, hdistinct, hordered⟩

/-! ## Submitting again -/

/-- Whatever is queued is what `PendingTx::new` makes of its bytes, in every state. -/
theorem new_of_mem_queue (blake3 : List UInt8 → Bytes32) (ops : List MempoolOp) :
    ∀ tx ∈ (run blake3 ops).pool.queue, PendingTx.new blake3 tx.bytes = .ok tx := by
  refine Runs.Along.invariant (P := fun _ _ => True)
    (I := fun log : MempoolLog => ∀ tx ∈ log.pool.queue, PendingTx.new blake3 tx.bytes = .ok tx)
    ?_ (List.forall_mem_nil _) (Runs.along_of_forall (fun _ _ _ => trivial) _)
  intro log op hnew _
  cases op with
  | drain max =>
    intro tx htx
    have hqueue := (TxMempool.drainLoop_queue
      (min (min max log.pool.queue.length) maxTxsPerBatch) log.pool).2
    exact hnew tx (List.mem_of_mem_drop (hqueue ▸ htx))
  | submit bytes =>
    intro tx htx
    rcases log.pool.submit_cases blake3 bytes with ⟨e, hout⟩ | ⟨_, -, -, hout⟩ | ⟨hok, -, -, hout⟩
    all_goals simp only [exec, hout] at htx
    · exact hnew tx htx
    · exact hnew tx htx
    · rcases List.mem_append.mp htx with hin | hlast
      · exact hnew tx hin
      · rw [List.mem_singleton.mp hlast]
        exact hok

/-- **Submitting again is idempotent while there is room for a second copy**: in every state reached,
    submitting what is queued leaves queue and total alone, and it is answered with the hash exactly
    when the total and the length of the transaction still fit under the cap together. -/
theorem resubmission_idempotent_iff (blake3 : List UInt8 → Bytes32) (ops : List MempoolOp)
    (tx : PendingTx) (hin : tx ∈ (run blake3 ops).pool.queue) :
    let pool := (run blake3 ops).pool
    (pool.submit blake3 tx.bytes).2 = pool ∧
    ((pool.submit blake3 tx.bytes).1 = .ok (blake3 tx.bytes) ↔
      pool.bytesTotal + tx.bytes.length ≤ maxMempoolBytes) := by
  intro pool
  have hnew := new_of_mem_queue blake3 ops tx hin
  have hhash : tx.hash = blake3 tx.bytes := by
    rw [(PendingTx.new_eq_ok_iff.mp hnew).2.2]
  have hmax : maxMempoolBytes = 268435456 := rfl
  rw [TxMempool.submit_of_mem hnew hin, ← hhash]
  refine ⟨rfl, ?_⟩
  split
  · next hfull =>
    simp only [TxMempool.saturatingAdd] at hfull
    exact ⟨fun h => (nomatch h), fun hfits => by simp only [pool] at hfits; omega⟩
  · next hroom =>
    simp only [TxMempool.saturatingAdd] at hroom
    exact ⟨fun _ => by simp only [pool]; omega, fun _ => rfl⟩

theorem resubmission_idempotent_iff_room :
    ((run Blake3.hash [.submit [1]]).pool.submit Blake3.hash [1]).2 =
      (run Blake3.hash [.submit [1]]).pool :=
  (resubmission_idempotent_iff Blake3.hash [.submit [1]] ⟨[1], Blake3.hash [1]⟩
    (by decide +kernel)).1

/-- A transaction of the largest size that starts with the number `i`. -/
@[irreducible]
def filler (i : Nat) : List UInt8 :=
  UInt8.ofNat i :: UInt8.ofNat (i / 256) :: List.replicate (maxTxBytes - 2) 0

theorem new_filler (blake3 : List UInt8 → Bytes32) (i : Nat) :
    (filler i).length = maxTxBytes ∧
    PendingTx.new blake3 (filler i) = .ok ⟨filler i, blake3 (filler i)⟩ := by
  have hlength : (filler i).length = maxTxBytes := by
    rw [filler, List.length_cons, List.length_cons, List.length_replicate]
    decide
  refine ⟨hlength, PendingTx.new_eq_ok_iff.mpr ⟨?_, hlength.le, rfl⟩⟩
  exact List.ne_nil_of_length_pos (by rw [hlength]; decide)

theorem run_submit (blake3 : List UInt8 → Bytes32) (ops : List MempoolOp) (bytes : List UInt8) :
    (run blake3 (ops ++ [.submit bytes])).pool = ((run blake3 ops).pool.submit blake3 bytes).2 := by
  rw [run, List.foldl_append]
  rfl

/-- As many transactions of the largest size as there is room for. -/
def fillers (n : Nat) : List MempoolOp := (List.range n).map fun i => .submit (filler i)

/-- Different fillers queue up one behind the other. -/
theorem run_fillers {blake3 : List UInt8 → Bytes32} (n : Nat) (hn : n * maxTxBytes ≤ maxMempoolBytes)
    (hnc : ∀ i < n, ∀ j < n, blake3 (filler i) = blake3 (filler j) → i = j) :
    (run blake3 (fillers n)).pool =
      ⟨(List.range n).map fun i => ⟨filler i, blake3 (filler i)⟩, n * maxTxBytes⟩ := by
  induction n with
  | zero => rfl
  | succ n ih =>
    rw [Nat.succ_mul] at hn
    have hbefore := ih (by omega) fun i hi j hj => hnc i (by omega) j (by omega)
    obtain ⟨hlength, hnew⟩ := new_filler blake3 n
    have hfits : ¬ maxMempoolBytes < TxMempool.saturatingAdd (n * maxTxBytes) maxTxBytes := by
      simp only [TxMempool.saturatingAdd]
      omega
    have hfresh : (((List.range n).map fun i => (⟨filler i, blake3 (filler i)⟩ : PendingTx)).any
        fun t => t.hash = blake3 (filler n)) = false := by
      refine List.any_eq_false.mpr fun t ht hsame => ?_
      obtain ⟨i, hi, rfl⟩ := List.mem_map.mp ht
      have hlt := List.mem_range.mp hi
      exact absurd (hnc i (by omega) n (by omega) (of_decide_eq_true hsame)) hlt.ne
    rw [fillers, List.range_succ, List.map_append, List.map_singleton, run_submit, ← fillers, hbefore,
      TxMempool.submit]
    simp only [hnew, hlength, if_neg hfits, hfresh, Bool.false_eq_true, if_false, List.map_append,
      List.map_singleton, Nat.succ_mul]

/-- Where the fillers reach the cap, the first of them, submitted again, is refused. -/
theorem submit_filler_full {blake3 : List UInt8 → Bytes32} {n : Nat} (hpos : 0 < n)
    (hn : n * maxTxBytes = maxMempoolBytes)
    (hnc : ∀ i < n, ∀ j < n, blake3 (filler i) = blake3 (filler j) → i = j) :
    ⟨filler 0, blake3 (filler 0)⟩ ∈ (run blake3 (fillers n)).pool.queue ∧
    ((run blake3 (fillers n)).pool.submit blake3 (filler 0)).1 =
      .error (.mempoolFull maxMempoolBytes maxMempoolBytes) := by
  obtain ⟨hlength, hnew⟩ := new_filler blake3 0
  have hpool := run_fillers n hn.le hnc
  have hqueued : ⟨filler 0, blake3 (filler 0)⟩ ∈ (run blake3 (fillers n)).pool.queue := by
    rw [hpool]
    exact List.mem_map.mpr ⟨0, List.mem_range.mpr hpos, rfl⟩
  have htotal : (run blake3 (fillers n)).pool.bytesTotal = maxMempoolBytes := by rw [hpool, ← hn]
  refine ⟨hqueued, (congrArg Prod.fst (TxMempool.submit_of_mem hnew hqueued)).trans ?_⟩
  rw [htotal, hlength, if_pos (by decide)]

/-- A digest that reads the number at the front. -/
def frontDigest (bytes : List UInt8) : Bytes32 :=
  BitVec.ofNat 256 ((bytes.getD 0 0).toNat + 256 * (bytes.getD 1 0).toNat)

theorem frontDigest_filler {i : Nat} (hi : i < 1024) : (frontDigest (filler i)).toNat = i := by
  simp only [frontDigest, filler, List.getD_cons_zero, List.getD_cons_succ, UInt8.toNat_ofNat',
    BitVec.toNat_ofNat]
  omega

/-- 1024 transactions of the largest size fill the queue to the byte. -/
theorem resubmission_refused :
    ⟨filler 0, frontDigest (filler 0)⟩ ∈ (run frontDigest (fillers 1024)).pool.queue ∧
    ((run frontDigest (fillers 1024)).pool.submit frontDigest (filler 0)).1 =
      .error (.mempoolFull maxMempoolBytes maxMempoolBytes) := by
  refine submit_filler_full (by decide) (by decide) ?_
  intro i hi j hj hsame
  rw [← frontDigest_filler hi, hsame, frontDigest_filler hj]

end MempoolLog

end SuwappuDag.L2
