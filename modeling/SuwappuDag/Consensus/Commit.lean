/-
  THE DagBft-C COMMIT RULE (`suwappu-consensus/src/commit.rs`).

  1. **Program** — a slot is a round; its leader is `round mod n`.  `tryDirectDecide` commits the
     leader's certificate when a quorum of authors cite it one round later.  `decideSlot` falls back
     on every directly decided anchor two rounds up or more, and takes the leader's certificate if
     the anchor's `causalHistory` reaches it.  `finalize` walks the slots upwards and appends, for
     each decided one, the part of its history that is not in the list yet.
  2. **Arithmetic** — rounds are `u64`: `round + 1` and `round + 2` wrap (the release profile sets no
     overflow checks), and the number of supporters is cast to `u32` before it is compared.
  3. **Specifications** — one lemma per function (`certAt_eq_some_iff`, `mem_supporters`,
     `mem_causalHistory`, `decideSlot_eq_direct_iff`, …); the results about the rule use these and
     never the definitions.
-/
import SuwappuDag.Lib.Worklist
import SuwappuDag.Lib.Emit
import SuwappuDag.Consensus.Dag

namespace SuwappuDag.Consensus

open Words
open Worklist (visit Visits Reaches visits_visit)
open Emit (appendNew)
open Std (ExtTreeMap)

/-- Number of registered authorities (`u32`). -/
abbrev CommitteeSize := UInt32

/-- `q = n − ⌊(n−1)/3⌋`; an empty committee asks for one vote. -/
def quorumThreshold (n : CommitteeSize) : UInt32 := if n = 0 then 1 else n - (n - 1) / 3

/-- Round-robin leader.  The source asserts `n > 0`. -/
def leader (round : Round) (n : CommitteeSize) : AuthorityId := (round % n.toUInt64).toUInt32

/-- The least hash of `author` at `round`, if any.  The source's `expect` (a hash of the round index
    always resolves) is `WellFormed.indexed`. -/
def certAt (dag : DagStore) (round : Round) (author : AuthorityId) : Option CertHash :=
  ((dag.roundHashes round).filter fun h => (dag.get h).any fun c => c.author == author).min?

/-- The distinct authors at `round` that cite `target` as a parent. -/
def supporters (dag : DagStore) (target : CertHash) (round : Round) : Finset AuthorityId :=
  ((dag.roundHashes round).filterMap fun h =>
    match dag.get h with
    | some c => if target ∈ c.parents then some c.author else none
    | none => none).toFinset

/-- Decision for one leader slot. -/
inductive LeaderStatus where
  | direct (h : CertHash)
  | skip
  | undecided
deriving DecidableEq, Repr

/-- Direct rule: a quorum of supporters one round later. -/
def tryDirectDecide (dag : DagStore) (round : Round) (n : CommitteeSize) : LeaderStatus :=
  match certAt dag round (leader round n) with
  | none => .undecided
  | some leaderHash =>
    -- `support.len() as u32`
    if quorumThreshold n ≤ UInt32.ofNat (supporters dag leaderHash (round + 1)).card then
      .direct leaderHash
    else .undecided

namespace DagStore

/-- What the history walk pushes for `h`: its parents, nothing for a hash not in the store. -/
def parentsOf (dag : DagStore) (h : CertHash) : List CertHash :=
  match dag.get h with
  | some c => c.parents
  | none => []

/-- One pop for the start and one for every parent entry of the store. -/
def historyFuel (dag : DagStore) : Nat := 1 + ∑ h ∈ dag.certs.keys.toFinset, (dag.parentsOf h).length

/-- The sort key `(round, author, hash)` of the linear order. -/
def historyKey (dag : DagStore) (h : CertHash) : Round ×ₗ AuthorityId ×ₗ CertHash :=
  match dag.get h with
  | some c => toLex (c.round, toLex (c.author, h))
  | none => toLex (0, toLex (0, h))

end DagStore

/-- Every ancestor of `start` in the store, `start` included, sorted by `(round, author, hash)`. -/
def causalHistory (dag : DagStore) (start : CertHash) : List CertHash :=
  ((visit dag.parentsOf dag.historyFuel [start] []).filter dag.contains).insertionSort
    fun a b => dag.historyKey a ≤ dag.historyKey b

/-- Indirect rule: the target leader's certificate in the history of a directly decided anchor. -/
def tryIndirectDecide (dag : DagStore) (targetRound : Round) (anchor : CertHash)
    (n : CommitteeSize) : LeaderStatus :=
  match certAt dag targetRound (leader targetRound n) with
  | none => .skip
  | some targetHash => if targetHash ∈ causalHistory dag anchor then .direct targetHash else .skip

/-- The rounds `lo..=hi`, ascending. -/
def roundsIncl (lo hi : Round) : List Round :=
  (List.range' lo.toNat (hi.toNat + 1 - lo.toNat)).map UInt64.ofNat

/-- The rounds `0..hi`, ascending. -/
def roundsBelow (hi : Round) : List Round := (List.range hi.toNat).map UInt64.ofNat

/-- The anchor loop of `decide_slot`; `anyAnchorSeen` is the flag the source carries. -/
def scanAnchors (dag : DagStore) (targetRound : Round) (n : CommitteeSize) :
    Bool → List Round → LeaderStatus
  | anyAnchorSeen, [] => if anyAnchorSeen then .skip else .undecided
  | anyAnchorSeen, anchorRound :: rest =>
    match tryDirectDecide dag anchorRound n with
    | .direct anchorHash =>
      match tryIndirectDecide dag targetRound anchorHash n with
      | .direct h => .direct h
      -- this anchor does not reach the leader; a later one may
      | _ => scanAnchors dag targetRound n true rest
    | _ => scanAnchors dag targetRound n anyAnchorSeen rest

/-- Top-level slot decision: direct rule first, then every anchor upwards from `target + 2`. -/
def decideSlot (dag : DagStore) (targetRound : Round) (n : CommitteeSize) : LeaderStatus :=
  match tryDirectDecide dag targetRound n with
  | .direct h => .direct h
  | .skip => .skip
  | .undecided =>
    match dag.maxRound with
    | none => .undecided
    | some maxRound => scanAnchors dag targetRound n false (roundsIncl (targetRound + 2) maxRound)

/-- The body of the `finalize` loop at slot `r`; `included` holds what `finalized` holds, so
    `if included.insert(h) { finalized.push(h) }` is `appendNew`. -/
def finalizeSlot (dag : DagStore) (n : CommitteeSize) (acc : List CertHash) (r : Round) :
    List CertHash :=
  match decideSlot dag r n with
  | .direct leaderHash => appendNew acc (causalHistory dag leaderHash)
  | _ => acc

/-- The finalized linear history: slots `0..max_round` upwards. -/
def finalize (dag : DagStore) (n : CommitteeSize) : List CertHash :=
  match dag.maxRound with
  | none => []
  | some maxRound => (roundsBelow maxRound).foldl (finalizeSlot dag n) []


/-! ## Round ranges -/

theorem mem_roundsIncl {lo hi r : Round} : r ∈ roundsIncl lo hi ↔ lo ≤ r ∧ r ≤ hi := by
  simp only [roundsIncl, List.mem_map, List.mem_range'_1, UInt64.le_iff_toNat_le]
  constructor
  · rintro ⟨k, ⟨h1, h2⟩, rfl⟩
    have hk : k < 2 ^ 64 := by have := hi.toNat_lt; omega
    rw [UInt64.toNat_ofNat_of_lt' hk]; omega
  · rintro ⟨h1, h2⟩
    exact ⟨r.toNat, ⟨h1, by omega⟩, UInt64.ofNat_toNat⟩

theorem mem_roundsBelow {hi r : Round} : r ∈ roundsBelow hi ↔ r < hi := by
  simp only [roundsBelow, List.mem_map, List.mem_range, UInt64.lt_iff_toNat_lt]
  constructor
  · rintro ⟨k, hk, rfl⟩
    have hk' : k < 2 ^ 64 := by have := hi.toNat_lt; omega
    rw [UInt64.toNat_ofNat_of_lt' hk']; exact hk
  · intro h
    exact ⟨r.toNat, h, UInt64.ofNat_toNat⟩

/-! ## Specifications of the two lookups -/

section Lookups

variable {blake3 : List UInt8 → Bytes32} {dag : DagStore}

/-- `cert_at` is the least hash of the author at the round. -/
theorem certAt_eq_some_iff (wf : dag.WellFormed blake3) {round : Round} {author : AuthorityId}
    {h : CertHash} :
    certAt dag round author = some h ↔
      (∃ c, dag.get h = some c ∧ c.round = round ∧ c.author = author) ∧
      ∀ k c, dag.get k = some c → c.round = round → c.author = author → h ≤ k := by
  have hmem : ∀ k, k ∈ (dag.roundHashes round).filter
      (fun h => (dag.get h).any fun c => c.author == author) ↔
      ∃ c, dag.get k = some c ∧ c.round = round ∧ c.author = author := by
    intro k
    rw [List.mem_filter, wf.indexed]
    constructor
    · rintro ⟨⟨c, hc, hr⟩, ha⟩
      rw [hc] at ha
      exact ⟨c, hc, hr, by simpa using ha⟩
    · rintro ⟨c, hc, hr, ha⟩
      exact ⟨⟨c, hc, hr⟩, by rw [hc]; simpa using ha⟩
  rw [certAt, List.min?_eq_some_iff, hmem]
  refine and_congr_right fun _ => ⟨fun hmin k c hc hr ha => ?_, fun hmin k hk => ?_⟩
  · exact hmin k ((hmem k).mpr ⟨c, hc, hr, ha⟩)
  · obtain ⟨c, hc, hr, ha⟩ := (hmem k).mp hk
    exact hmin k c hc hr ha

theorem mem_supporters (wf : dag.WellFormed blake3) {target : CertHash} {round : Round}
    {a : AuthorityId} :
    a ∈ supporters dag target round ↔
      ∃ k c, dag.get k = some c ∧ c.round = round ∧ target ∈ c.parents ∧ c.author = a := by
  rw [supporters, List.mem_toFinset, List.mem_filterMap]
  constructor
  · rintro ⟨k, hk, hf⟩
    obtain ⟨c, hc, hr⟩ := wf.indexed.mp hk
    rw [hc] at hf
    simp only at hf
    split at hf
    · next hp => exact ⟨k, c, hc, hr, hp, by simpa using hf⟩
    · cases hf
  · rintro ⟨k, c, hc, hr, hp, ha⟩
    exact ⟨k, wf.indexed.mpr ⟨c, hc, hr⟩, by rw [hc]; simp [hp, ha]⟩

end Lookups

/-! ## Specification of the history walk -/

section History

variable {blake3 : List UInt8 → Bytes32} {dag : DagStore}

/-- **The walk ends**, with what the fuelled walk returns. -/
theorem visits_history (dag : DagStore) (start : CertHash) :
    Visits dag.parentsOf [start] [] (visit dag.parentsOf dag.historyFuel [start] []) := by
  refine visits_visit (fun k hk => ?_) start
  rw [List.mem_toFinset, ExtTreeMap.mem_keys] at hk
  rw [DagStore.parentsOf, show dag.get k = none from ExtTreeMap.getElem?_eq_none hk]

/-- **The walk is exact**: the history of `start` is what `start` reaches inside the store. -/
theorem mem_causalHistory {start h : CertHash} :
    h ∈ causalHistory dag start ↔
      (∃ c, dag.get h = some c) ∧ Reaches dag.parentsOf start h := by
  rw [causalHistory, List.mem_insertionSort, List.mem_filter, (visits_history dag start).mem_iff,
    DagStore.contains_iff, and_comm]

theorem causalHistory_nodup (start : CertHash) : (causalHistory dag start).Nodup :=
  (List.perm_insertionSort _ _).nodup_iff.mpr
    (((visits_history dag start).nodup List.nodup_nil).filter _)

theorem historyKey_injective : Function.Injective dag.historyKey := by
  intro a b h
  have hlast : ∀ k, (ofLex (ofLex (dag.historyKey k)).2).2 = k := by
    intro k; unfold DagStore.historyKey; split <;> rfl
  rw [← hlast a, h, hlast b]

/-- The history is strictly increasing in `(round, author, hash)`. -/
theorem causalHistory_sorted (start : CertHash) :
    (causalHistory dag start).Pairwise fun a b => dag.historyKey a < dag.historyKey b := by
  have hle : (causalHistory dag start).Pairwise fun a b => dag.historyKey a ≤ dag.historyKey b :=
    List.pairwise_insertionSort _ _
  refine (hle.and (causalHistory_nodup start)).imp ?_
  rintro a b ⟨hab, hne⟩
  exact lt_of_le_of_ne hab fun h => hne (historyKey_injective h)

end History


/-! ## Specifications of the decisions -/

section Decisions

variable {blake3 : List UInt8 → Bytes32} {dag : DagStore} {n : CommitteeSize}

variable {h : CertHash} {r : Round}

theorem tryDirectDecide_eq_direct_iff :
    tryDirectDecide dag r n = .direct h ↔
      certAt dag r (leader r n) = some h ∧
      quorumThreshold n ≤ UInt32.ofNat (supporters dag h (r + 1)).card := by
  rw [tryDirectDecide]
  cases hc : certAt dag r (leader r n) with
  | none => simp
  | some k =>
    simp only [Option.some.injEq]
    split
    · next hq =>
      constructor
      · intro he; cases he; exact ⟨rfl, hq⟩
      · rintro ⟨rfl, -⟩; rfl
    · next hq =>
      constructor
      · intro he; cases he
      · rintro ⟨rfl, h⟩; exact absurd h hq

theorem tryDirectDecide_ne_skip : tryDirectDecide dag r n ≠ .skip := by
  rw [tryDirectDecide]
  split
  · simp
  · split <;> simp

theorem tryIndirectDecide_eq_direct_iff {a h : CertHash} :
    tryIndirectDecide dag r a n = .direct h ↔
      certAt dag r (leader r n) = some h ∧ h ∈ causalHistory dag a := by
  rw [tryIndirectDecide]
  cases hc : certAt dag r (leader r n) with
  | none => simp
  | some k =>
    simp only [Option.some.injEq]
    split
    · next hm =>
      constructor
      · intro he; cases he; exact ⟨rfl, hm⟩
      · rintro ⟨rfl, -⟩; rfl
    · next hm =>
      constructor
      · intro he; cases he
      · rintro ⟨rfl, h⟩; exact absurd h hm

/-- The anchor loop commits the leader's certificate iff SOME directly decided anchor of the range
    reaches it; which one is found first does not matter. -/
theorem scanAnchors_eq_direct_iff {seen : Bool} {rs : List Round} :
    scanAnchors dag r n seen rs = .direct h ↔
      certAt dag r (leader r n) = some h ∧
      ∃ R ∈ rs, ∃ a, tryDirectDecide dag R n = .direct a ∧ h ∈ causalHistory dag a := by
  induction rs generalizing seen with
  | nil => rw [scanAnchors]; split <;> simp
  | cons R rs ih =>
    rw [scanAnchors]
    cases hd : tryDirectDecide dag R n with
    | skip => exact absurd hd tryDirectDecide_ne_skip
    | undecided => simp [ih, hd]
    | direct a =>
      cases hi : tryIndirectDecide dag r a n with
      | direct k =>
        obtain ⟨hk, hm⟩ := tryIndirectDecide_eq_direct_iff.mp hi
        simp only [hi]
        constructor
        · intro he; cases he
          exact ⟨hk, R, List.mem_cons_self, a, hd, hm⟩
        · rintro ⟨hh, -⟩
          rw [hk] at hh; cases hh; rfl
      | skip =>
        simp only [hi, ih]
        have hno : ∀ k, ¬ (certAt dag r (leader r n) = some k ∧ k ∈ causalHistory dag a) := by
          intro k hk
          rw [tryIndirectDecide_eq_direct_iff.mpr hk] at hi; cases hi
        constructor
        · rintro ⟨hh, R', hR', ha⟩
          exact ⟨hh, R', List.mem_cons_of_mem _ hR', ha⟩
        · rintro ⟨hh, R', hR', b, hb, hm⟩
          rcases List.mem_cons.mp hR' with rfl | hR'
          · rw [hd] at hb; cases hb; exact absurd ⟨hh, hm⟩ (hno h)
          · exact ⟨hh, R', hR', b, hb, hm⟩
      | undecided => unfold tryIndirectDecide at hi; split at hi <;> (try split at hi) <;> cases hi

/-- A decided anchor exists inside the store, so its round is at most `max_round`. -/
theorem round_le_maxRound (wf : dag.WellFormed blake3) {R m : Round} {a : CertHash}
    (hm : dag.maxRound = some m) (hd : tryDirectDecide dag R n = .direct a) : R ≤ m := by
  obtain ⟨⟨c, hc, hr, -⟩, -⟩ :=
    (certAt_eq_some_iff wf).mp (tryDirectDecide_eq_direct_iff.mp hd).1
  rw [← hr]
  exact (wf.maxRound_eq_some.mp hm).2 a c hc

/-- An anchor for slot `r` with certificate `h`: decided by the direct rule two rounds up or more,
    and reaching `h`. -/
def Anchored (dag : DagStore) (n : CommitteeSize) (r : Round) (h : CertHash) : Prop :=
  ∃ R a, r + 2 ≤ R ∧ tryDirectDecide dag R n = .direct a ∧ h ∈ causalHistory dag a

/-- **The slot decision**: the leader's certificate, cited by a quorum or reached by an anchor. -/
theorem decideSlot_eq_direct_iff (wf : dag.WellFormed blake3) :
    decideSlot dag r n = .direct h ↔
      certAt dag r (leader r n) = some h ∧
      (tryDirectDecide dag r n = .direct h ∨ Anchored dag n r h) := by
  rw [decideSlot]
  cases hd : tryDirectDecide dag r n with
  | skip => exact absurd hd tryDirectDecide_ne_skip
  | direct k =>
    have hk := (tryDirectDecide_eq_direct_iff.mp hd).1
    constructor
    · intro he; cases he; exact ⟨hk, .inl rfl⟩
    · rintro ⟨hh, -⟩
      rw [hk] at hh; cases hh; rfl
  | undecided =>
    cases hm : dag.maxRound with
    | none =>
      simp only [reduceCtorEq, false_or, false_iff, not_and]
      intro hc
      obtain ⟨⟨c, hget, -⟩, -⟩ := (certAt_eq_some_iff wf).mp hc
      exact absurd hm (wf.maxRound_ne_none hget)
    | some m =>
      simp only [reduceCtorEq, false_or, scanAnchors_eq_direct_iff, mem_roundsIncl]
      refine and_congr_right fun _ => ⟨?_, ?_⟩
      · rintro ⟨R, ⟨hlo, -⟩, a, ha, hmem⟩; exact ⟨R, a, hlo, ha, hmem⟩
      · rintro ⟨R, a, hlo, ha, hmem⟩
        exact ⟨R, ⟨hlo, round_le_maxRound wf hm ha⟩, a, ha, hmem⟩

theorem decideSlot_of_tryDirectDecide (hd : tryDirectDecide dag r n = .direct h) :
    decideSlot dag r n = .direct h := by
  rw [decideSlot, hd]

end Decisions

/-! ## Reaching: rounds go down, histories nest -/

section Reach

variable {blake3 : List UInt8 → Bytes32} {dag : DagStore}

variable {a b : CertHash} {ca : Certificate}

/-- From a stored certificate only stored ones are reached, each at a smaller round or the start
    itself. -/
theorem reaches_stored (wf : dag.WellFormed blake3) (ha : dag.get a = some ca)
    (hr : Reaches dag.parentsOf a b) :
    ∃ cb, dag.get b = some cb ∧ (b = a ∨ cb.round < ca.round) := by
  induction hr with
  | refl => exact ⟨ca, ha, .inl rfl⟩
  | @tail x y _ hxy ih =>
    obtain ⟨cx, hx, hle⟩ := ih
    simp only [DagStore.parentsOf, hx] at hxy
    obtain ⟨cy, hy, hlt⟩ := wf.closed hx hxy
    refine ⟨cy, hy, .inr ?_⟩
    rcases hle with rfl | hle
    · rw [ha] at hx; cases hx; exact hlt
    · exact lt_trans hlt hle

theorem mem_causalHistory_iff (wf : dag.WellFormed blake3) (ha : dag.get a = some ca) :
    b ∈ causalHistory dag a ↔ Reaches dag.parentsOf a b := by
  rw [mem_causalHistory]
  refine ⟨And.right, fun hr => ⟨?_, hr⟩⟩
  obtain ⟨cb, hb, -⟩ := reaches_stored wf ha hr
  exact ⟨cb, hb⟩

theorem self_mem_causalHistory {a : CertHash} (ha : dag.get a = some ca) :
    a ∈ causalHistory dag a := mem_causalHistory.mpr ⟨⟨ca, ha⟩, .refl⟩

theorem causalHistory_subset (h : b ∈ causalHistory dag a) :
    causalHistory dag b ⊆ causalHistory dag a := by
  intro x hx
  obtain ⟨hget, hr⟩ := mem_causalHistory.mp hx
  exact mem_causalHistory.mpr ⟨hget, (mem_causalHistory.mp h).2.trans hr⟩

end Reach

end SuwappuDag.Consensus
