/-
  THE EXPLORER INDEX: what the indexer keeps of the events of a node (`suwappu-indexer/src/store.rs`),
  and what of a committed transaction can be found in it.

  1. **Events** — `committedEvent` is what `try_commit` emits once for every block it has executed, and
     `eventToView` is its form on the wire.  Only the fields the indexer reads are kept.
  2. **Store** — `ingestCommittedBlock` keeps ONE block per round: the first one.  A block of a round
     that is there already is dropped with all its transactions.
  3. **Spec** — after any stream the block of a round is the first block of that round in the stream
     (`blocks_ingestAll`), and the transaction index lists what the stored blocks list (`Indexed`).
  4. **Completeness** — so the index has every transaction of a run exactly when each one is listed by
     a block that is the first of its round.  Two authorities whose blocks of one round are both
     committed are enough to lose one.
-/
import SuwappuDag.Node.BridgeHeaders

namespace SuwappuDag.Indexer

open Words Consensus Node Interleave
open Std (ExtTreeMap)

/-! ## Events -/

inductive Lane where
  | main
  | fastPath
  | ltp
  | client

/-- An event of the daemon. -/
structure Event where
  lane : Lane
  event : String
  round : Option UInt64
  certHash : Option String
  intentHashes : Option (List String)

/-- The event as the indexer receives it. -/
structure EventView where
  lane : String
  event : String
  round : Option UInt64
  certHash : Option String
  intentHashes : Option (List String)

def eventToView (ev : Event) : EventView where
  lane := match ev.lane with
    | .main => "main"
    | .fastPath => "fastpath"
    | .ltp => "ltp"
    | .client => "client"
  event := ev.event
  round := ev.round
  certHash := ev.certHash
  intentHashes := ev.intentHashes

/-- `hex::encode`: two lower-case digits a byte. -/
def hexEncode (bytes : List UInt8) : String :=
  String.ofList (bytes.flatMap fun b => [Nat.digitChar (b.toNat / 16), Nat.digitChar (b.toNat % 16)])

/-- The intent hashes of a committed block, in block order. -/
def intentHashes (C : Crypto) (e : ExecutedBlock) : List String :=
  e.intents.map fun intent => hexEncode (beBytes 32 (intentHash C.blake3 intent).toNat)

/-- The event of an executed block. -/
def committedEvent (C : Crypto) (e : ExecutedBlock) : Event where
  lane := .main
  event := "committed"
  round := some e.round
  certHash := some (hexEncode (beBytes 32 e.cert.toNat))
  intentHashes := some (intentHashes C e)

/-! ## The store -/

structure IndexedBlock where
  round : UInt64
  indexedAtMs : UInt64
  certHash : String
  txHashes : List String
deriving DecidableEq

structure InMemoryStore where
  blocks : ExtTreeMap UInt64 IndexedBlock
  txIndex : ExtTreeMap String UInt64

def InMemoryStore.new : InMemoryStore := ⟨∅, ∅⟩

def InMemoryStore.ingestCommittedBlock (store : InMemoryStore) (block : IndexedBlock) :
    InMemoryStore :=
  if store.blocks.contains block.round then store
  else
    { txIndex := block.txHashes.foldl (fun index tx => index.insert tx block.round) store.txIndex
      blocks := store.blocks.insert block.round block }

def InMemoryStore.latestRound (store : InMemoryStore) : Option UInt64 := store.blocks.keys.getLast?

/-- The block of an event received at `nowMs`. -/
def blockFromCommittedEvent (ev : EventView) (nowMs : UInt64) : Option IndexedBlock :=
  if ev.event ≠ "committed" ∨ ev.lane ≠ "main" then none
  else do
    let round ← ev.round
    let certHash ← ev.certHash
    let txHashes := ev.intentHashes.getD []
    some ⟨round, nowMs, certHash, txHashes⟩

/-- One frame of the subscription. -/
def handleFrame (store : InMemoryStore) (frame : EventView × UInt64) : InMemoryStore :=
  match blockFromCommittedEvent frame.1 frame.2 with
  | some block => store.ingestCommittedBlock block
  | none => store

/-! ## One block per round -/

section Ingest

theorem contains_iff_exists {m : ExtTreeMap UInt64 IndexedBlock} {r : UInt64} :
    m.contains r = true ↔ ∃ b, m[r]? = some b := by
  rw [ExtTreeMap.contains_eq_isSome_getElem?, Option.isSome_iff_exists]

/-- A stored block stays; a round without one takes the block if it is of that round. -/
theorem blocks_ingest (store : InMemoryStore) (block : IndexedBlock) (r : UInt64) :
    (store.ingestCommittedBlock block).blocks[r]? =
      store.blocks[r]?.or (if block.round = r then some block else none) := by
  unfold InMemoryStore.ingestCommittedBlock
  split
  next hstored =>
    obtain ⟨b, hb⟩ := contains_iff_exists.mp hstored
    by_cases hr : block.round = r
    · rw [← hr, hb]
      rfl
    · rw [if_neg hr, Option.or_none]
  next hfresh =>
    rw [ExtTreeMap.getElem?_insert]
    by_cases hr : block.round = r
    · have hnone : store.blocks[r]? = none := by
        rw [← hr, ← Option.not_isSome_iff_eq_none, ← ExtTreeMap.contains_eq_isSome_getElem?]
        exact hfresh
      rw [hnone, if_pos hr, if_pos (Std.LawfulEqCmp.compare_eq_iff_eq.mpr hr)]
      rfl
    · rw [if_neg hr, Option.or_none, if_neg fun h => hr (Std.LawfulEqCmp.eq_of_compare h)]

/-- **The block of a round is the first one of that round.** -/
theorem blocks_ingestAll (blocks : List IndexedBlock) (store : InMemoryStore) (r : UInt64) :
    (blocks.foldl InMemoryStore.ingestCommittedBlock store).blocks[r]? =
      store.blocks[r]?.or (blocks.find? fun b => b.round = r) := by
  induction blocks generalizing store with
  | nil => exact (Option.or_none).symm
  | cons block blocks ih =>
    rw [List.foldl_cons, ih, blocks_ingest, Option.or_assoc, List.find?_cons]
    by_cases hr : block.round = r <;> simp [hr]

/-- A hash listed by a block is found at its round, any other hash where it was. -/
theorem getElem?_indexTxs (txHashes : List String) (round : UInt64)
    (index : ExtTreeMap String UInt64) (tx : String) :
    (txHashes.foldl (fun index tx => index.insert tx round) index)[tx]? =
      if tx ∈ txHashes then some round else index[tx]? := by
  induction txHashes generalizing index with
  | nil => simp
  | cons t txHashes ih =>
    rw [List.foldl_cons, ih, ExtTreeMap.getElem?_insert]
    by_cases htx : tx ∈ txHashes
    · simp [htx]
    · by_cases ht : t = tx
      · simp [ht]
      · have ht' : tx ≠ t := fun h => ht h.symm
        simp [htx, ht, ht']

/-- The transaction index lists what the stored blocks list, each hash at the round of such a block. -/
structure Indexed (store : InMemoryStore) : Prop where
  listed : ∀ {tx : String} {r : UInt64}, store.txIndex[tx]? = some r →
    ∃ b : IndexedBlock, store.blocks[r]? = some b ∧ tx ∈ b.txHashes
  found : ∀ {r : UInt64} {b : IndexedBlock} {tx : String}, store.blocks[r]? = some b → tx ∈ b.txHashes →
    ∃ r', store.txIndex[tx]? = some r'

theorem indexed_new : Indexed InMemoryStore.new where
  listed {tx r} h := by
    have h : (∅ : ExtTreeMap String UInt64)[tx]? = some r := h
    simp at h
  found {r b tx} h := by
    have h : (∅ : ExtTreeMap UInt64 IndexedBlock)[r]? = some b := h
    simp at h

/-- One block. -/
theorem Indexed.ingest {store : InMemoryStore} (h : Indexed store) (block : IndexedBlock) :
    Indexed (store.ingestCommittedBlock block) := by
  have hblocks := blocks_ingest store block
  by_cases hstored : store.blocks.contains block.round = true
  · rwa [InMemoryStore.ingestCommittedBlock, if_pos hstored]
  -- The round is new: its block is this one, and every hash of it is found at this round.
  have hnone : store.blocks[block.round]? = none := by
    rw [← Option.not_isSome_iff_eq_none, ← ExtTreeMap.contains_eq_isSome_getElem?]
    exact hstored
  have htxs : ∀ tx, (store.ingestCommittedBlock block).txIndex[tx]? =
      if tx ∈ block.txHashes then some block.round else store.txIndex[tx]? := by
    intro tx
    rw [InMemoryStore.ingestCommittedBlock, if_neg hstored]
    exact getElem?_indexTxs _ _ _ _
  constructor
  · intro tx r hr
    rw [htxs] at hr
    split at hr
    next hmem =>
      cases hr
      refine ⟨block, ?_, hmem⟩
      rw [hblocks, hnone, if_pos rfl]
      rfl
    next =>
      obtain ⟨b, hb, hmem⟩ := h.listed hr
      refine ⟨b, ?_, hmem⟩
      rw [hblocks, hb]
      rfl
  · intro r b tx hb hmem
    rw [htxs]
    split
    · exact ⟨_, rfl⟩
    next hnew =>
      rw [hblocks] at hb
      rcases Option.or_eq_some_iff.mp hb with hold | ⟨-, hb⟩
      · exact h.found hold hmem
      · split at hb <;> cases hb
        exact absurd hmem hnew

/-- Any stream of blocks. -/
theorem Indexed.ingestAll {store : InMemoryStore} (h : Indexed store) (blocks : List IndexedBlock) :
    Indexed (blocks.foldl InMemoryStore.ingestCommittedBlock store) := by
  induction blocks generalizing store with
  | nil => exact h
  | cons block blocks ih => exact ih (h.ingest block)

end Ingest

/-! ## The index of a run -/

section Runs

variable {C : Crypto}

/-- The block the indexer makes of an executed block whose event it receives at `nowMs`. -/
def indexedBlock (C : Crypto) (p : ExecutedBlock × UInt64) : IndexedBlock :=
  ⟨p.1.round, p.2, hexEncode (beBytes 32 p.1.cert.toNat), intentHashes C p.1⟩

/-- The frames of the blocks, each with the time at which it is received. -/
def committedFrames (C : Crypto) (emitted : List (ExecutedBlock × UInt64)) : List (EventView × UInt64) :=
  emitted.map fun p => (eventToView (committedEvent C p.1), p.2)

theorem foldl_handleFrame (emitted : List (ExecutedBlock × UInt64)) (store : InMemoryStore) :
    (committedFrames C emitted).foldl handleFrame store =
      (emitted.map (indexedBlock C)).foldl InMemoryStore.ingestCommittedBlock store := by
  rw [committedFrames, List.foldl_map, List.foldl_map]
  rfl

/-- `e` is the first block of its round. -/
def FirstOfRound (blocks : List ExecutedBlock) (e : ExecutedBlock) : Prop :=
  blocks.find? (fun b => b.round = e.round) = some e

theorem FirstOfRound.mem {blocks : List ExecutedBlock} {e : ExecutedBlock}
    (h : FirstOfRound blocks e) : e ∈ blocks := List.mem_of_find?_eq_some h

/-- Where no round has two blocks, every block is the first of its round. -/
theorem firstOfRound_of_nodup {blocks : List ExecutedBlock} {e : ExecutedBlock}
    (hnodup : (blocks.map ExecutedBlock.round).Nodup) (he : e ∈ blocks) : FirstOfRound blocks e := by
  induction blocks with
  | nil => cases he
  | cons b blocks ih =>
    rw [List.map_cons, List.nodup_cons] at hnodup
    rcases List.mem_cons.mp he with rfl | hmem
    · exact List.find?_cons_of_pos (by simp)
    · have hne : b.round ≠ e.round := fun h => hnodup.1 (h ▸ List.mem_map_of_mem hmem)
      rw [FirstOfRound, List.find?_cons_of_neg (by simpa using hne)]
      exact ih hnodup.2 hmem

/-- What the store has at a round is the first block of that round. -/
theorem blocks_committedFrames (emitted : List (ExecutedBlock × UInt64)) (r : UInt64) :
    ((committedFrames C emitted).foldl handleFrame InMemoryStore.new).blocks[r]? =
      (emitted.find? fun p => p.1.round = r).map (indexedBlock C) := by
  have hempty : InMemoryStore.new.blocks[r]? = none := ExtTreeMap.getElem?_empty
  rw [foldl_handleFrame, blocks_ingestAll, hempty, Option.none_or, List.find?_map]
  rfl

theorem indexed_committedFrames (emitted : List (ExecutedBlock × UInt64)) :
    Indexed ((committedFrames C emitted).foldl handleFrame InMemoryStore.new) := by
  rw [foldl_handleFrame]
  exact indexed_new.ingestAll _

/-- Every hash in the index is listed by a first block of a round, at that round. -/
theorem firstOfRound_of_indexed {emitted : List (ExecutedBlock × UInt64)} {tx : String} {r : UInt64}
    (h : ((committedFrames C emitted).foldl handleFrame InMemoryStore.new).txIndex[tx]? = some r) :
    ∃ d, FirstOfRound (emitted.map Prod.fst) d ∧ d.round = r ∧ tx ∈ intentHashes C d := by
  obtain ⟨b, hb, hmem⟩ := (indexed_committedFrames emitted).listed h
  rw [blocks_committedFrames, Option.map_eq_some_iff] at hb
  obtain ⟨p, hp, rfl⟩ := hb
  have hround : p.1.round = r := by simpa using List.find?_some hp
  refine ⟨p.1, ?_, hround, hmem⟩
  subst hround
  rw [FirstOfRound, List.find?_map]
  exact congrArg (Option.map Prod.fst) hp

/-- Every hash of a first block is in the index. -/
theorem indexed_of_firstOfRound {emitted : List (ExecutedBlock × UInt64)} {tx : String}
    {d : ExecutedBlock} (hd : FirstOfRound (emitted.map Prod.fst) d) (htx : tx ∈ intentHashes C d) :
    ∃ r, ((committedFrames C emitted).foldl handleFrame InMemoryStore.new).txIndex[tx]? = some r := by
  rw [FirstOfRound, List.find?_map, Option.map_eq_some_iff] at hd
  obtain ⟨p, hp, rfl⟩ := hd
  refine (indexed_committedFrames emitted).found (r := p.1.round) (b := indexedBlock C p) ?_ htx
  rw [blocks_committedFrames]
  exact congrArg (Option.map (indexedBlock C)) hp

/-- `tx` is in the index, with the round of a committed block that lists it. -/
def Findable (C : Crypto) (s : State) (store : InMemoryStore) (tx : String) : Prop :=
  ∃ r, store.txIndex[tx]? = some r ∧
    ∃ e ∈ s.executions, s.CommittedAt r e.cert ∧ tx ∈ intentHashes C e

/-- **Completeness.**  A walk emits the event of a block after it has executed it, outside every lock;
    so the events of a run are those of executed blocks, in an order of their own.  Whatever this
    order is, every hash of every event can be found exactly when each one is listed by a block whose
    event is the first of its round. -/
theorem index_complete_iff {manifest : GenesisManifest} {selfId : AuthorityId} {tasks : List Task}
    (hidle : ∀ t ∈ tasks, t.idle = true) (schedule : List Nat)
    {emitted : List (ExecutedBlock × UInt64)}
    (hemitted : (emitted.map Prod.fst).Subperm
      ((started C manifest selfId tasks).run (Task.step C) schedule).shared.executions) :
    let s := ((started C manifest selfId tasks).run (Task.step C) schedule).shared
    let frames := committedFrames C emitted
    (∀ frame ∈ frames, ∀ hashes, frame.1.intentHashes = some hashes → ∀ tx ∈ hashes,
      Findable C s (frames.foldl handleFrame InMemoryStore.new) tx) ↔
    ∀ e ∈ emitted.map Prod.fst, ∀ tx ∈ intentHashes C e,
      ∃ d, FirstOfRound (emitted.map Prod.fst) d ∧ tx ∈ intentHashes C d := by
  intro s frames
  have hm := Runs.Along.invariant (fun m i h _ => accounted_move m i h)
    ⟨backed_started manifest selfId hidle, accounted_started (C := C) manifest selfId hidle⟩
    (along_true (Task.step C) schedule _)
  constructor
  · intro hall e he tx htx
    obtain ⟨p, hp, rfl⟩ := List.mem_map.mp he
    obtain ⟨r, hr, -⟩ := hall _ (List.mem_map_of_mem hp) _ rfl tx htx
    obtain ⟨d, hd, -, hmem⟩ := firstOfRound_of_indexed hr
    exact ⟨d, hd, hmem⟩
  · intro hfirst frame hframe hashes hhashes tx htx
    obtain ⟨p, hp, rfl⟩ := List.mem_map.mp hframe
    cases hhashes
    obtain ⟨d, hd, hmem⟩ := hfirst p.1 (List.mem_map_of_mem hp) tx htx
    obtain ⟨r, hr⟩ := indexed_of_firstOfRound hd hmem
    obtain ⟨e, he, rfl, hmem'⟩ := firstOfRound_of_indexed hr
    have hexec := hemitted.subset he.mem
    exact ⟨e.round, hr, e, hexec, committedAt_of_executed hm.1 hm.2 hexec, hmem'⟩

end Runs

/-! ## Two committed blocks of one round

    A node that has received everything it needs; its walks are over, so that every event of an executed
    block is out, in the order of execution since one task runs. -/

/-- The blocks, certificates and votes of two authorities, from one peer: a block of round 0 each. -/
def pairTasks : List Node.Task :=
  [.inbox false ([.block (emptyBlock root0), .block fund1Block, .block (emptyBlock cite1)] ++
      pairUniverse.map (fun p => .cert (briefSigned p)) ++ [.vote ⟨1, root0.1⟩, .vote ⟨1, cite1.1⟩])
      .idle]

def pairRun : Machine State Node.Task :=
  (started briefScheme briefManifest 2 pairTasks).run (Task.step briefScheme) (List.replicate 190 0)

/-- **A transaction is lost**: `root0` and `fund1` are both committed at round 0, and the intent of
    `fund1` is not in the index. -/
theorem second_block_of_round_lost :
    let frames := committedFrames briefScheme (pairRun.shared.executions.map fun e => (e, 0))
    let store := frames.foldl handleFrame InMemoryStore.new
    ((∀ t ∈ pairTasks, t.idle = true) ∧ (∀ t ∈ pairRun.tasks, t.idle = true) ∧
      pairRun.shared.executions.map (fun e => (e.round, e.cert)) =
        [(0, root0.1), (0, fund1.1), (1, cite1.1)]) ∧
    ¬ ∀ frame ∈ frames, ∀ hashes, frame.1.intentHashes = some hashes → ∀ tx ∈ hashes,
      Findable briefScheme pairRun.shared store tx := by
  intro frames store
  have hrun : ((∀ t ∈ pairTasks, t.idle = true) ∧ (∀ t ∈ pairRun.tasks, t.idle = true) ∧
      pairRun.shared.executions.map (fun e => (e.round, e.cert)) =
        [(0, root0.1), (0, fund1.1), (1, cite1.1)]) ∧
      ∃ frame ∈ frames, ∃ tx ∈ frame.1.intentHashes.getD [], store.txIndex[tx]? = none := by
    decide +kernel
  refine ⟨hrun.1, fun hall => ?_⟩
  obtain ⟨frame, hframe, tx, htx, hnone⟩ := hrun.2
  cases hhashes : frame.1.intentHashes with
  | none => simp [hhashes] at htx
  | some hashes =>
    rw [hhashes] at htx
    obtain ⟨r, hr, -⟩ := hall frame hframe hashes hhashes tx htx
    rw [hnone] at hr
    cases hr

/-- The chain of one authority whose first block carries the same intent. -/
def paid0 : CertHash × Certificate :=
  (0xcd4e2b99a6081cce18c4e0eb25fbad84e091289d7d4a2b655b437e08eecdb426#256,
    ⟨0, 0, [], fund1.2.payloadDigest, []⟩)

def paid1 : CertHash × Certificate :=
  (0x77688f133f96c2e68146d2b890c85fc08ba5c5a5682b564de23d8c95add383bb#256,
    ⟨0, 1, [paid0.1], emptyPayload, []⟩)

def paid2 : CertHash × Certificate :=
  (0x9d443bcdff6ee0d4e072999cdc9b7ea61de5e25b53675bff57d8df11cbc57ca5#256,
    ⟨0, 2, [paid1.1], emptyPayload, []⟩)

def paidTasks : List Node.Task :=
  [.inbox false [.cert (briefSigned paid0),
      .block ⟨paid0.2.payloadDigest, 0, 0, paid0.1, fund1Block.intents, []⟩,
      .cert (briefSigned paid1), .cert (briefSigned paid2), .vote ⟨0, paid0.1⟩] .idle]

def paidRun : Machine State Node.Task :=
  (started briefScheme soloManifest 1 paidTasks).run (Task.step briefScheme) (List.replicate 86 0)

/-- One block per round, and the intent is found. -/
theorem index_complete_iff_paid :
    let frames := committedFrames briefScheme (paidRun.shared.executions.map fun e => (e, 0))
    let store := frames.foldl handleFrame InMemoryStore.new
    paidRun.shared.executions.map (intentHashes briefScheme) =
      [["a24b70d7c1e3445b5ec10dd867e1abf58b45f1061111c473be76d74bee50415f"]] ∧
    ∀ frame ∈ frames, ∀ hashes, frame.1.intentHashes = some hashes → ∀ tx ∈ hashes,
      Findable briefScheme paidRun.shared store tx := by
  intro frames store
  have hrun : (∀ t ∈ paidTasks, t.idle = true) ∧
      (paidRun.shared.executions.map ExecutedBlock.round).Nodup ∧
      paidRun.shared.executions.map (intentHashes briefScheme) =
        [["a24b70d7c1e3445b5ec10dd867e1abf58b45f1061111c473be76d74bee50415f"]] := by decide +kernel
  obtain ⟨hidle, hrounds, hlisted⟩ := hrun
  have hfst : (paidRun.shared.executions.map fun e => (e, (0 : UInt64))).map Prod.fst =
      paidRun.shared.executions := by
    rw [List.map_map]
    exact List.map_id _
  have hemitted : ((paidRun.shared.executions.map fun e => (e, (0 : UInt64))).map Prod.fst).Subperm
      paidRun.shared.executions := by rw [hfst]
  unfold paidRun at hemitted
  have hcomplete := index_complete_iff hidle _ hemitted
  rw [← paidRun, hfst] at hcomplete
  exact ⟨hlisted,
    hcomplete.mpr fun e he tx htx => ⟨e, firstOfRound_of_nodup hrounds he, htx⟩⟩

end SuwappuDag.Indexer
