/-
  CATCH-UP: the walk from the store to the chain head at startup (`suwappu-indexer/src/backfill.rs`).

  1. **Answers** — what the node says: its head, and for each round an error, no block, or a block.
     Each round is asked for at most once, so one answer a round is all a walk can see.
  2. **Walk** — `walk` takes the rounds in batches and saturates at the largest word.  An error stops
     it and keeps what has been ingested.  It runs on fuel; `walk_returns` says when fuel suffices: for
     every head but the largest word, at which the source never leaves its loop.
  3. **Spec** — a walk that ends adds to the store exactly the served blocks from its first round to the
     head (`blocks_catchUp`).  The first round is the one behind the HIGHEST stored round, so a hole
     below that stays.
-/
import SuwappuDag.Indexer.Store

namespace SuwappuDag.Indexer

open Words Execution
open Std (ExtTreeMap)

/-! ## The node's answers -/

structure BlockView where
  round : UInt64
  certHash : String
  txHashes : List String

/-- What the node has of a round; its answer carries the round that was asked for. -/
structure ServedBlock where
  certHash : String
  txHashes : List String

structure Rpc where
  getEpoch : Except String UInt64
  blockAtRound : UInt64 → Except String (Option ServedBlock)

def Rpc.getBlock (rpc : Rpc) (round : UInt64) : Except String (Option BlockView) :=
  match rpc.blockAtRound round with
  | .ok (some block) => .ok (some ⟨round, block.certHash, block.txHashes⟩)
  | .ok none => .ok none
  | .error e => .error e

/-- `h.strip_prefix("0x").unwrap_or(h)`. -/
def withoutHexMark (h : String) : String :=
  match h.toList with
  | '0' :: 'x' :: digits => String.ofList digits
  | _ => h

def blockFromView (view : BlockView) (nowMs : UInt64) : IndexedBlock where
  round := view.round
  indexedAtMs := nowMs
  certHash := view.certHash
  txHashes := view.txHashes.map withoutHexMark

/-! ## The walk -/

structure CatchUpError where
  context : String
  cause : String
deriving DecidableEq

/-- `next..end`. -/
def roundsBetween (next stop : UInt64) : List UInt64 :=
  (List.range' next.toNat (stop.toNat - next.toNat)).map UInt64.ofNat

section Walk

variable (rpc : Rpc) (clock : UInt64 → UInt64)

/-- One batch; `clock r` is the time at which round `r` is ingested. -/
def ingestRounds : List UInt64 → UInt64 → InMemoryStore → Except CatchUpError UInt64 × InMemoryStore
  | [], ingested, store => (.ok ingested, store)
  | r :: rounds, ingested, store =>
    match rpc.getBlock r with
    | .ok (some view) =>
      ingestRounds rounds (ingested + 1) (store.ingestCommittedBlock (blockFromView view (clock r)))
    | .ok none => ingestRounds rounds ingested store
    | .error e => (.error ⟨s!"backfill: get_block(round={r}) failed", e⟩, store)

/-- The end of the batch that starts at `next`. -/
def batchEnd (maxPerIter head next : UInt64) : UInt64 :=
  min (saturatingAdd next maxPerIter) (saturatingAdd head 1)

/-- The batches; `none` when the fuel is out. -/
def walk (maxPerIter head : UInt64) : Nat → UInt64 → UInt64 → InMemoryStore →
    Option (Except CatchUpError UInt64 × InMemoryStore)
  | 0, _, _, _ => none
  | fuel + 1, next, ingested, store =>
    if next ≤ head then
      match ingestRounds rpc clock (roundsBetween next (batchEnd maxPerIter head next)) ingested store with
      | (.ok ingested, store) =>
        walk maxPerIter head fuel (batchEnd maxPerIter head next) ingested store
      | (.error e, store) => some (.error e, store)
    else some (.ok ingested, store)

/-- The round at which the walk starts. -/
def firstMissing (store : InMemoryStore) : UInt64 :=
  match store.latestRound with
  | some r => saturatingAdd r 1
  | none => 0

def catchUp (fuel : Nat) (maxPerIter : UInt64) (store : InMemoryStore) :
    Option (Except CatchUpError UInt64 × InMemoryStore) :=
  match rpc.getEpoch with
  | .error e => some (.error ⟨"backfill: get_epoch failed", e⟩, store)
  | .ok head =>
    if head < firstMissing store then some (.ok 0, store)
    else walk rpc clock (max maxPerIter 1) head fuel (firstMissing store) 0 store

end Walk

/-! ## What a walk adds -/

theorem saturatingAdd_toNat (a b : UInt64) :
    (saturatingAdd a b).toNat = min (a.toNat + b.toNat) (2 ^ 64 - 1) := by
  unfold saturatingAdd
  split
  next h =>
    rw [UInt64.toNat_add, Nat.mod_eq_of_lt h]
    omega
  next h =>
    rw [UInt64.toNat_ofNat_of_lt' (by decide)]
    omega

theorem mem_roundsBetween {next stop r : UInt64} : r ∈ roundsBetween next stop ↔ next ≤ r ∧ r < stop := by
  rw [roundsBetween, List.mem_map, UInt64.le_iff_toNat_le, UInt64.lt_iff_toNat_lt]
  constructor
  · rintro ⟨n, hn, rfl⟩
    have hn := List.mem_range'_1.mp hn
    have hstop := stop.toNat_lt
    have hsmall : n < UInt64.size := by
      show n < 2 ^ 64
      omega
    rw [UInt64.toNat_ofNat_of_lt' hsmall]
    omega
  · intro h
    exact ⟨r.toNat, List.mem_range'_1.mpr (by omega), UInt64.ofNat_toNat⟩

section Spec

variable {rpc : Rpc} {clock : UInt64 → UInt64}

/-- The block the indexer makes of what the node serves at round `r`. -/
def servedAt (rpc : Rpc) (clock : UInt64 → UInt64) (r : UInt64) : Option IndexedBlock :=
  match rpc.getBlock r with
  | .ok (some view) => some (blockFromView view (clock r))
  | _ => none

variable {r : UInt64}

theorem getBlock_round {view : BlockView} (h : rpc.getBlock r = .ok (some view)) :
    view.round = r := by
  unfold Rpc.getBlock at h
  split at h <;> cases h
  rfl

/-- The parts of a range of rounds are filled one after the other. -/
theorem or_if_or_if {α : Type} {p q : Prop} [Decidable p] [Decidable q] (o x : Option α) :
    (o.or (if p then x else none)).or (if q then x else none) = o.or (if p ∨ q then x else none) := by
  by_cases hp : p <;> by_cases hq : q <;> simp [hp, hq, Option.or_assoc]

variable {store store' : InMemoryStore}

/-- One batch. -/
theorem blocks_ingestRounds {rounds : List UInt64} {ingested count : UInt64}
    (h : ingestRounds rpc clock rounds ingested store = (.ok count, store')) (r : UInt64) :
    store'.blocks[r]? = store.blocks[r]?.or (if r ∈ rounds then servedAt rpc clock r else none) := by
  induction rounds generalizing ingested store with
  | nil =>
    cases h
    simp
  | cons k rounds ih =>
    -- What this round adds, and what the rest of the batch adds to it.
    have hhead : ∀ store₁ : InMemoryStore,
        store₁.blocks[r]? = store.blocks[r]?.or (if r = k then servedAt rpc clock r else none) →
        store'.blocks[r]? =
          store₁.blocks[r]?.or (if r ∈ rounds then servedAt rpc clock r else none) →
        store'.blocks[r]? =
          store.blocks[r]?.or (if r ∈ k :: rounds then servedAt rpc clock r else none) := by
      intro store₁ hfirst hrest
      rw [hrest, hfirst, or_if_or_if]
      simp only [List.mem_cons]
    unfold ingestRounds at h
    split at h
    next view hview =>
      refine hhead _ ?_ (ih h)
      rw [blocks_ingest]
      by_cases hk : r = k
      · subst hk
        have hround : (blockFromView view (clock r)).round = r := getBlock_round hview
        rw [if_pos hround, if_pos rfl, servedAt, hview]
      · have hround : (blockFromView view (clock k)).round = k := getBlock_round hview
        rw [hround, if_neg hk, if_neg fun h => hk h.symm]
    next hview =>
      refine hhead store ?_ (ih h)
      by_cases hk : r = k
      · subst hk
        simp [servedAt, hview]
      · simp [hk]
    next => cases h

theorem batchEnd_toNat (maxPerIter head next : UInt64) :
    (batchEnd maxPerIter head next).toNat =
      min (min (next.toNat + maxPerIter.toNat) (2 ^ 64 - 1)) (min (head.toNat + 1) (2 ^ 64 - 1)) := by
  have hmono : Monotone UInt64.toNat := fun a b h => UInt64.le_iff_toNat_le.mp h
  rw [batchEnd, hmono.map_min, saturatingAdd_toNat, saturatingAdd_toNat]
  rfl

variable {fuel : Nat} {maxPerIter head : UInt64}

/-- All batches. -/
theorem blocks_walk {next ingested count : UInt64}
    (h : walk rpc clock maxPerIter head fuel next ingested store = some (.ok count, store'))
    (r : UInt64) :
    store'.blocks[r]? =
      store.blocks[r]?.or (if next ≤ r ∧ r ≤ head then servedAt rpc clock r else none) := by
  induction fuel generalizing next ingested store with
  | zero => cases h
  | succ fuel ih =>
    unfold walk at h
    split at h
    next hnext =>
      have hend := batchEnd_toNat maxPerIter head next
      split at h
      next ingested₁ store₁ hbatch =>
        rw [ih h, blocks_ingestRounds hbatch, or_if_or_if]
        congr 1
        refine if_congr ?_ rfl rfl
        rw [mem_roundsBetween]
        have hhead := head.toNat_lt
        simp only [UInt64.le_iff_toNat_le, UInt64.lt_iff_toNat_lt] at hnext ⊢
        omega
      next => cases h
    next hnext =>
      cases h
      have hnone : ¬ (next ≤ r ∧ r ≤ head) := fun hr => hnext (hr.1.trans hr.2)
      rw [if_neg hnone, Option.or_none]

/-- **What catch-up adds**: the served blocks from its first round to the head. -/
theorem blocks_catchUp {maxPerIter head count : UInt64} (hhead : rpc.getEpoch = .ok head)
    (h : catchUp rpc clock fuel maxPerIter store = some (.ok count, store')) (r : UInt64) :
    store'.blocks[r]? =
      store.blocks[r]?.or
        (if firstMissing store ≤ r ∧ r ≤ head then servedAt rpc clock r else none) := by
  unfold catchUp at h
  rw [hhead] at h
  simp only at h
  split at h
  next hahead =>
    cases h
    have hnone : ¬ (firstMissing store ≤ r ∧ r ≤ head) := fun hr =>
      absurd (hr.1.trans hr.2) (not_le.mpr hahead)
    rw [if_neg hnone, Option.or_none]
  next => exact blocks_walk h r

/-! ## The walk ends -/

/-- Below the largest word every batch moves on. -/
theorem lt_batchEnd {maxPerIter head next : UInt64} (hmax : 1 ≤ maxPerIter) (hnext : next ≤ head)
    (hhead : head.toNat < 2 ^ 64 - 1) : next.toNat < (batchEnd maxPerIter head next).toNat := by
  have hmax : 1 ≤ maxPerIter.toNat := UInt64.le_iff_toNat_le.mp hmax
  rw [UInt64.le_iff_toNat_le] at hnext
  rw [batchEnd_toNat]
  exact lt_min (lt_min (by omega) (by omega)) (lt_min (by omega) (by omega))

theorem walk_returns (hmax : 1 ≤ maxPerIter) (hhead : head.toNat < 2 ^ 64 - 1) {next : UInt64}
    (hfuel : head.toNat + 1 - next.toNat < fuel) (ingested : UInt64) (store : InMemoryStore) :
    ∃ result, walk rpc clock maxPerIter head fuel next ingested store = some result := by
  induction fuel generalizing next ingested store with
  | zero => omega
  | succ fuel ih =>
    unfold walk
    split
    next hnext =>
      have hmoves := lt_batchEnd hmax hnext hhead
      rw [UInt64.le_iff_toNat_le] at hnext
      split
      · exact ih (by omega) _ _
      · exact ⟨_, rfl⟩
    next => exact ⟨_, rfl⟩

theorem catchUp_returns {head : UInt64} (hepoch : rpc.getEpoch = .ok head)
    (hhead : head.toNat < 2 ^ 64 - 1) (maxPerIter : UInt64) (store : InMemoryStore) :
    ∃ fuel result, catchUp rpc clock fuel maxPerIter store = some result := by
  refine ⟨head.toNat + 2, ?_⟩
  unfold catchUp
  rw [hepoch]
  simp only
  split
  · exact ⟨_, rfl⟩
  · exact walk_returns (le_max_right _ _) hhead (by omega) _ _

/-- Where the node has an answer for every round no batch fails. -/
theorem ingestRounds_completes (hanswers : ∀ r, ∃ served, rpc.blockAtRound r = .ok served) :
    ∀ (rounds : List UInt64) (ingested : UInt64) (store : InMemoryStore),
      ∃ count store', ingestRounds rpc clock rounds ingested store = (.ok count, store') := by
  intro rounds
  induction rounds with
  | nil => exact fun ingested store => ⟨ingested, store, rfl⟩
  | cons r rounds ih =>
    intro ingested store
    obtain ⟨served, hserved⟩ := hanswers r
    rw [ingestRounds, Rpc.getBlock, hserved]
    cases served with
    | none => exact ih _ _
    | some block => exact ih _ _

theorem walk_completes (hanswers : ∀ r, ∃ served, rpc.blockAtRound r = .ok served) {fuel : Nat}
    {next ingested : UInt64} {store store' : InMemoryStore} {result : Except CatchUpError UInt64}
    (h : walk rpc clock maxPerIter head fuel next ingested store = some (result, store')) :
    ∃ count, result = .ok count := by
  induction fuel generalizing next ingested store with
  | zero => cases h
  | succ fuel ih =>
    rw [walk] at h
    split at h
    · obtain ⟨count, store'', hbatch⟩ : ∃ count store'', ingestRounds rpc clock
          (roundsBetween next (batchEnd maxPerIter head next)) ingested store = (.ok count, store'') :=
        ingestRounds_completes hanswers _ _ _
      rw [hbatch] at h
      exact ih h
    · cases h
      exact ⟨_, rfl⟩

/-- With the largest word as the head no round is above it, and the loop has no way out but an error. -/
theorem walk_ne_ok (hhead : head.toNat = 2 ^ 64 - 1) (fuel : Nat) (next ingested count : UInt64)
    (store store' : InMemoryStore) :
    walk rpc clock maxPerIter head fuel next ingested store ≠ some (.ok count, store') := by
  induction fuel generalizing next ingested store with
  | zero => exact nofun
  | succ fuel ih =>
    have hnext : next ≤ head := by
      have hlt := next.toNat_lt
      rw [UInt64.le_iff_toNat_le]
      omega
    unfold walk
    rw [if_pos hnext]
    split
    · exact ih _ _ _
    · exact nofun

/-- **Catch-up completes exactly below the largest head**, with a node that answers every request: at
    `u64::MAX` the walk never gets past the head and goes on for ever. -/
theorem catchUp_completes_iff (rpc : Rpc) (clock : UInt64 → UInt64) (maxPerIter : UInt64)
    (store : InMemoryStore) {head : UInt64} (hepoch : rpc.getEpoch = .ok head)
    (hanswers : ∀ r, ∃ served, rpc.blockAtRound r = .ok served) :
    (∃ fuel count store', catchUp rpc clock fuel maxPerIter store = some (.ok count, store')) ↔
      head.toNat < 2 ^ 64 - 1 := by
  constructor
  · rintro ⟨fuel, count, store', h⟩
    by_contra hlarge
    have hhead : head.toNat = 2 ^ 64 - 1 := by
      have := head.toNat_lt
      omega
    have hstart : ¬ head < firstMissing store := by
      have := (firstMissing store).toNat_lt
      rw [UInt64.lt_iff_toNat_lt]
      omega
    rw [catchUp, hepoch] at h
    exact walk_ne_ok hhead _ _ _ _ _ _ ((if_neg hstart).symm.trans h)
  · intro hhead
    obtain ⟨fuel, ⟨result, store'⟩, h⟩ : ∃ fuel result, catchUp rpc clock fuel maxPerIter store =
      some result := catchUp_returns hepoch hhead maxPerIter store
    refine ⟨fuel, ?_⟩
    rw [h]
    rw [catchUp, hepoch] at h
    dsimp only at h
    split at h
    · cases h
      exact ⟨_, _, rfl⟩
    · obtain ⟨count, rfl⟩ := walk_completes hanswers h
      exact ⟨_, _, rfl⟩

/-! ## Gaps -/

theorem latestRound_stored {store : InMemoryStore} {l : UInt64} (h : store.latestRound = some l) :
    l ∈ store.blocks := ExtTreeMap.mem_keys.mp (List.mem_of_getLast? h)

/-- The walk leaves out what is not above the highest stored round. -/
theorem lt_firstMissing_iff {store : InMemoryStore} (hr : r ∉ store.blocks) :
    r < firstMissing store ↔ ∃ l, store.latestRound = some l ∧ r ≤ l := by
  unfold firstMissing
  cases hlatest : store.latestRound with
  | none =>
    have hzero : ¬ r < 0 := by
      rw [UInt64.lt_iff_toNat_lt]
      exact Nat.not_lt_zero _
    simp [hzero]
  | some l =>
    -- At the largest word `l + 1` saturates to `l`, which is stored.
    have hne : r ≠ l := fun h => hr (h ▸ latestRound_stored hlatest)
    have hne' : r.toNat ≠ l.toNat := fun h => hne (UInt64.toNat_inj.mp h)
    have hr := r.toNat_lt
    have hone : (1 : UInt64).toNat = 1 := rfl
    simp only [Option.some.injEq, exists_eq_left', UInt64.lt_iff_toNat_lt, UInt64.le_iff_toNat_le,
      saturatingAdd_toNat]
    have hl := l.toNat_lt
    omega

/-- Every round up to the head for which the node serves a block is stored. -/
def NoGap (rpc : Rpc) (head : UInt64) (store : InMemoryStore) : Prop :=
  ∀ r ≤ head, ∀ view, rpc.getBlock r = .ok (some view) → r ∈ store.blocks

/-- The same, of the rounds that are not above the highest stored one. -/
def NoHole (rpc : Rpc) (head : UInt64) (store : InMemoryStore) : Prop :=
  ∀ l, store.latestRound = some l → ∀ r ≤ head, r ≤ l → ∀ view, rpc.getBlock r = .ok (some view) →
    r ∈ store.blocks

theorem mem_catchUp_iff {maxPerIter head count : UInt64} (hepoch : rpc.getEpoch = .ok head)
    (h : catchUp rpc clock fuel maxPerIter store = some (.ok count, store')) (hr : r ≤ head)
    {view : BlockView} (hview : rpc.getBlock r = .ok (some view)) :
    r ∈ store'.blocks ↔ r ∈ store.blocks ∨ firstMissing store ≤ r := by
  have hserved : servedAt rpc clock r = some (blockFromView view (clock r)) := by
    rw [servedAt, hview]
  rw [ExtTreeMap.mem_iff_isSome_getElem?, ExtTreeMap.mem_iff_isSome_getElem?, blocks_catchUp hepoch h,
    Option.isSome_or, Bool.or_eq_true, hserved]
  by_cases hfirst : firstMissing store ≤ r <;> simp [hfirst, hr]

/-- **Gaps.**  Below the largest head catch-up returns.  Whenever it returns `Ok`, what was stored is
    unchanged, and no gap is left up to the head exactly when there was none up to the highest stored
    round. -/
theorem catchUp_leaves_no_gap_iff (rpc : Rpc) (clock : UInt64 → UInt64) (maxPerIter : UInt64)
    (store : InMemoryStore) {head : UInt64} (hepoch : rpc.getEpoch = .ok head) :
    (head.toNat < 2 ^ 64 - 1 → ∃ fuel result, catchUp rpc clock fuel maxPerIter store = some result) ∧
    ∀ fuel count store', catchUp rpc clock fuel maxPerIter store = some (.ok count, store') →
      ((NoGap rpc head store' ∧
          ∀ (r : UInt64) b, store.blocks[r]? = some b → store'.blocks[r]? = some b) ↔
        NoHole rpc head store) := by
  refine ⟨fun hhead => catchUp_returns hepoch hhead maxPerIter store, ?_⟩
  intro fuel count store' h
  constructor
  · rintro ⟨hgap, -⟩ l hlatest r hr hrl view hview
    by_contra hmissing
    have hlt := (lt_firstMissing_iff hmissing).mpr ⟨l, hlatest, hrl⟩
    rcases (mem_catchUp_iff hepoch h hr hview).mp (hgap r hr view hview) with hold | hfirst
    · exact hmissing hold
    · exact absurd hlt (not_lt.mpr hfirst)
  · intro hhole
    refine ⟨fun r hr view hview => (mem_catchUp_iff hepoch h hr hview).mpr ?_, fun r b hb => ?_⟩
    · by_contra hneither
      obtain ⟨hmissing, hfirst⟩ := not_or.mp hneither
      obtain ⟨l, hlatest, hrl⟩ := (lt_firstMissing_iff hmissing).mp (not_le.mp hfirst)
      exact hmissing (hhole l hlatest r hr hrl view hview)
    · rw [blocks_catchUp hepoch h, hb]
      rfl

end Spec

/-! ## A hole below the highest stored round -/

/-- A node at head 7 with blocks of the rounds 3, 5 and 6. -/
def sparseRpc : Rpc where
  getEpoch := .ok 7
  blockAtRound r := .ok (if r = 3 ∨ r = 5 ∨ r = 6 then some ⟨"0xab", ["0xcd"]⟩ else none)

theorem catchUp_completes_sparse : ∃ fuel count store',
    catchUp sparseRpc id fuel 2 InMemoryStore.new = some (.ok count, store') :=
  (catchUp_completes_iff sparseRpc id 2 InMemoryStore.new rfl fun _ => ⟨_, rfl⟩).mpr (by decide)

/-- The live stream has brought round 5 before the crash. -/
def crashedStore : InMemoryStore := InMemoryStore.new.ingestCommittedBlock ⟨5, 1, "ab", ["cd"]⟩

/-- Catch-up returns `Ok(1)`: it takes round 6 and never asks for round 3. -/
theorem hole_left_behind :
    ∃ store', catchUp sparseRpc id 2 256 crashedStore = some (.ok 1, store') ∧
      store'.blocks.keys = [5, 6] ∧ ¬ NoGap sparseRpc 7 store' := by
  have hrun : (catchUp sparseRpc id 2 256 crashedStore).map
      (fun p => (p.1, p.2.blocks.keys)) = some (.ok 1, [5, 6]) := by decide +kernel
  obtain ⟨⟨result, store'⟩, hresult, heq⟩ := Option.map_eq_some_iff.mp hrun
  obtain ⟨rfl, hkeys⟩ := Prod.mk.inj heq
  refine ⟨store', hresult, hkeys, fun hgap => ?_⟩
  have hmem := ExtTreeMap.mem_keys.mpr (hgap 3 (by decide) ⟨3, "0xab", ["0xcd"]⟩ rfl)
  rw [hkeys] at hmem
  exact absurd hmem (by decide)

/-- From the empty store every served round comes in, in batches of two. -/
theorem catchUp_leaves_no_gap_iff_empty :
    ∃ store', catchUp sparseRpc id 6 2 InMemoryStore.new = some (.ok 3, store') ∧
      NoGap sparseRpc 7 store' := by
  have hrun : (catchUp sparseRpc id 6 2 InMemoryStore.new).map
      (fun p => p.1) = some (.ok 3) := by decide +kernel
  obtain ⟨⟨result, store'⟩, hresult, rfl⟩ := Option.map_eq_some_iff.mp hrun
  have hnothing : NoHole sparseRpc 7 InMemoryStore.new := by
    intro l hlatest
    have hempty : InMemoryStore.new.latestRound = none := by decide +kernel
    rw [hempty] at hlatest
    cases hlatest
  have hspec := (catchUp_leaves_no_gap_iff sparseRpc id 2 InMemoryStore.new rfl).2 6 3 store' hresult
  exact ⟨store', hresult, (hspec.mpr hnothing).1⟩

end SuwappuDag.Indexer
