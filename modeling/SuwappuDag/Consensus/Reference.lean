/-
  THE COMMIT RULE READS THE ORDER OF THE STORE, NOT ITS INDEX (`commit.rs`, module `equivalence`).

  The commit path looks certificates up in the round index, whose lists stand in the order of
  insertion.  It replaced bodies that filtered `linearize()`; those survive as the reference
  implementations of a test.

  1. **Order** — `linearize` is strictly increasing in `(round, author, hash)`
     (`Reachable.linearize_sorted`), so it is fixed by the certificates alone.
  2. **Reference** — a reference body reads two things of a store, its `linearize` and its `get`: a
     `Listing`.  `certAtReference`, …, `finalizeReference` are the bodies of the test, over it.
  3. **Refinement** — each function of the commit path equals its reference on every reachable store.
     A filtered `linearize` and a sorted closure are two increasing lists with the same members.
  4. **Insertion order** — two stores with the same certificates have the same `Listing`, hence by 3
     the same answers, although their round indices differ.
-/
import SuwappuDag.Consensus.Equivocation
import SuwappuDag.Consensus.Universe

namespace SuwappuDag.Consensus

open Words
open Worklist (visit Reaches visits_visit)
open Emit (appendNew eq_of_mem_iff head?_eq_some_iff)
open Std (ExtTreeMap)

/-! ## The linear order -/

section Order

variable {blake3 : List UInt8 → Bytes32} {dag : DagStore}

namespace DagStore

theorem historyKey_of_get {h : CertHash} {c : Certificate} (hc : dag.get h = some c) :
    dag.historyKey h = toLex (c.round, toLex (c.author, h)) := by
  rw [historyKey, hc]

theorem roundKey_of_get {h : CertHash} {c : Certificate} (hc : dag.get h = some c) :
    dag.roundKey h = toLex (c.author, h) := by
  rw [roundKey, hc]

/-- **The linearisation is strictly increasing in `(round, author, hash)`.** -/
theorem Reachable.linearize_sorted (hr : dag.Reachable blake3) :
    dag.linearize.Pairwise fun a b => dag.historyKey a < dag.historyKey b := by
  have hin : ∀ e ∈ dag.byRound.toList,
      ∀ h ∈ e.2.insertionSort fun h k => dag.roundKey h ≤ dag.roundKey k,
      ∃ c, dag.get h = some c ∧ c.round = e.1 := by
    intro e he h hh
    rw [List.mem_insertionSort, snd_of_mem_byRound he] at hh
    exact hr.wellFormed.indexed.mp hh
  have hle : dag.linearize.Pairwise fun a b => dag.historyKey a ≤ dag.historyKey b := by
    rw [linearize, List.pairwise_flatMap]
    refine ⟨fun e he => ?_, ?_⟩
    · -- within a round the sort key decides
      refine List.Pairwise.imp_of_mem ?_
        (List.pairwise_insertionSort (fun h k => dag.roundKey h ≤ dag.roundKey k) e.2)
      intro a b ha hb hab
      obtain ⟨c, hc, hcr⟩ := hin e he a ha
      obtain ⟨d, hd, hdr⟩ := hin e he b hb
      rw [roundKey_of_get hc, roundKey_of_get hd] at hab
      rw [historyKey_of_get hc, historyKey_of_get hd, hcr, hdr]
      exact Prod.Lex.toLex_le_toLex.mpr (.inr ⟨rfl, hab⟩)
    · -- across rounds the round does
      refine List.Pairwise.imp_of_mem ?_ (ExtTreeMap.ordered_keys_toList (t := dag.byRound))
      intro e f he hf hlt a ha b hb
      obtain ⟨c, hc, hcr⟩ := hin e he a ha
      obtain ⟨d, hd, hdr⟩ := hin f hf b hb
      rw [historyKey_of_get hc, historyKey_of_get hd, hcr, hdr]
      exact Prod.Lex.toLex_le_toLex.mpr (.inl (compare_lt_iff_lt.mp hlt))
  refine (hle.and hr.nodup_linearize).imp ?_
  rintro a b ⟨hab, hne⟩
  exact lt_of_le_of_ne hab fun h => hne (historyKey_injective h)

end DagStore

end Order

/-! ## The reference implementations -/

/-- All that a reference implementation reads of a store. -/
structure Listing where
  linearize : List CertHash
  get : CertHash → Option Certificate

/-- What a store shows. -/
def DagStore.listing (dag : DagStore) : Listing := ⟨dag.linearize, dag.get⟩

/-- The first certificate of the author at the round. -/
def certAtReference (dag : Listing) (round : Round) (author : AuthorityId) : Option CertHash :=
  dag.linearize.find? fun h => (dag.get h).any fun c => c.round == round && c.author == author

def supportersReference (dag : Listing) (target : CertHash) (round : Round) : Finset AuthorityId :=
  (dag.linearize.filterMap fun h =>
    match dag.get h with
    | some c => if c.round = round ∧ target ∈ c.parents then some c.author else none
    | none => none).toFinset

def maxRoundReference (dag : Listing) : Option Round :=
  (dag.linearize.filterMap fun h => (dag.get h).map (·.round)).max?

/-- What the walk of the reference pushes for `h`. -/
def Listing.parentsOf (dag : Listing) (h : CertHash) : List CertHash :=
  match dag.get h with
  | some c => c.parents
  | none => []

/-- The `seen` set of the breadth-first walk from `start`; the fuel is one pop for the start and one
    for every parent entry. -/
def seenReference (dag : Listing) (start : CertHash) : List CertHash :=
  visit dag.parentsOf (1 + ∑ h ∈ dag.linearize.toFinset, (dag.parentsOf h).length) [start] []

def causalHistoryReference (dag : Listing) (start : CertHash) : List CertHash :=
  dag.linearize.filter (· ∈ seenReference dag start)

def tryDirectDecideReference (dag : Listing) (round : Round) (n : CommitteeSize) : LeaderStatus :=
  match certAtReference dag round (leader round n) with
  | none => .undecided
  | some leaderHash =>
    if quorumThreshold n ≤ UInt32.ofNat (supportersReference dag leaderHash (round + 1)).card then
      .direct leaderHash
    else .undecided

def tryIndirectDecideReference (dag : Listing) (targetRound : Round) (anchor : CertHash)
    (n : CommitteeSize) : LeaderStatus :=
  match certAtReference dag targetRound (leader targetRound n) with
  | none => .skip
  | some targetHash =>
    if targetHash ∈ causalHistoryReference dag anchor then .direct targetHash else .skip

def scanAnchorsReference (dag : Listing) (targetRound : Round) (n : CommitteeSize) :
    Bool → List Round → LeaderStatus
  | anyAnchorSeen, [] => if anyAnchorSeen then .skip else .undecided
  | anyAnchorSeen, anchorRound :: rest =>
    match tryDirectDecideReference dag anchorRound n with
    | .direct anchorHash =>
      match tryIndirectDecideReference dag targetRound anchorHash n with
      | .direct h => .direct h
      | _ => scanAnchorsReference dag targetRound n true rest
    | _ => scanAnchorsReference dag targetRound n anyAnchorSeen rest

def decideSlotReference (dag : Listing) (targetRound : Round) (n : CommitteeSize) : LeaderStatus :=
  match tryDirectDecideReference dag targetRound n with
  | .direct h => .direct h
  | .skip => .skip
  | .undecided =>
    match maxRoundReference dag with
    | none => .undecided
    | some maxRound =>
      scanAnchorsReference dag targetRound n false (roundsIncl (targetRound + 2) maxRound)

def finalizeReference (dag : Listing) (n : CommitteeSize) : List CertHash :=
  match maxRoundReference dag with
  | none => []
  | some maxRound =>
    (roundsBelow maxRound).foldl (fun acc r =>
      match decideSlotReference dag r n with
      | .direct leaderHash => appendNew acc (causalHistoryReference dag leaderHash)
      | _ => acc) []

/-! ## Refinement, function by function -/

section Refinement

variable {blake3 : List UInt8 → Bytes32} {dag : DagStore}

/-- The index returns the least hash, the reference the first of the order; among certificates of one
    author at one round these are the same. -/
theorem certAt_eq_reference (hr : dag.Reachable blake3) (round : Round) (author : AuthorityId) :
    certAt dag round author = certAtReference dag.listing round author := by
  have wf := hr.wellFormed
  set p : CertHash → Bool := fun h =>
    (dag.get h).any fun c => c.round == round && c.author == author with hp
  have hmem : ∀ h, h ∈ dag.linearize.filter p ↔
      ∃ c, dag.get h = some c ∧ c.round = round ∧ c.author = author := by
    intro h
    simp only [hp, List.mem_filter, wf.mem_linearize, Option.any_eq_true, Bool.and_eq_true, beq_iff_eq]
    exact ⟨And.right, fun ⟨c, hc, hcond⟩ => ⟨⟨c, hc⟩, c, hc, hcond⟩⟩
  have hkey : ∀ {h c}, dag.get h = some c → c.round = round → c.author = author →
      dag.historyKey h = toLex (round, toLex (author, h)) := by
    rintro h c hc rfl rfl
    exact DagStore.historyKey_of_get hc
  ext h
  rw [certAt_eq_some_iff wf]
  show _ ↔ dag.linearize.find? p = some h
  rw [← List.head?_filter, head?_eq_some_iff (hr.linearize_sorted.filter p), hmem]
  refine and_congr_right fun ⟨c, hc, hcr, hca⟩ => ?_
  have hle : ∀ {k d}, dag.get k = some d → d.round = round → d.author = author →
      (dag.historyKey h ≤ dag.historyKey k ↔ h ≤ k) := by
    intro k d hd hdr hda
    rw [hkey hc hcr hca, hkey hd hdr hda]
    simp [Prod.Lex.toLex_le_toLex]
  constructor
  · intro hmin k hk
    obtain ⟨d, hd, hdr, hda⟩ := (hmem k).mp hk
    exact (hle hd hdr hda).mpr (hmin k d hd hdr hda)
  · intro hmin k d hd hdr hda
    exact (hle hd hdr hda).mp (hmin k ((hmem k).mpr ⟨d, hd, hdr, hda⟩))

theorem supporters_eq_reference (hr : dag.Reachable blake3) (target : CertHash) (round : Round) :
    supporters dag target round = supportersReference dag.listing target round := by
  have wf := hr.wellFormed
  ext a
  rw [mem_supporters wf, supportersReference, List.mem_toFinset, List.mem_filterMap]
  constructor
  · rintro ⟨k, c, hc, hround, hp, rfl⟩
    refine ⟨k, wf.mem_linearize.mpr ⟨c, hc⟩, ?_⟩
    show (match dag.get k with
      | some c => if c.round = round ∧ target ∈ c.parents then some c.author else none
      | none => none) = some c.author
    rw [hc]
    exact if_pos ⟨hround, hp⟩
  · rintro ⟨k, -, hf⟩
    change (match dag.get k with
      | some c => if c.round = round ∧ target ∈ c.parents then some c.author else none
      | none => none) = some a at hf
    cases hc : dag.get k with
    | none => rw [hc] at hf; cases hf
    | some c =>
      rw [hc] at hf
      simp only [Option.ite_none_right_eq_some, Option.some.injEq] at hf
      exact ⟨k, c, hc, hf.1.1, hf.1.2, hf.2⟩

theorem maxRound_eq_reference (hr : dag.Reachable blake3) :
    dag.maxRound = maxRoundReference dag.listing := by
  have wf := hr.wellFormed
  have hmem : ∀ r, r ∈ dag.linearize.filterMap (fun h => (dag.get h).map (·.round)) ↔
      ∃ h c, dag.get h = some c ∧ c.round = r := by
    intro r
    simp only [List.mem_filterMap, Option.map_eq_some_iff]
    constructor
    · rintro ⟨h, -, c, hc, hcr⟩
      exact ⟨h, c, hc, hcr⟩
    · rintro ⟨h, c, hc, hcr⟩
      exact ⟨h, wf.mem_linearize.mpr ⟨c, hc⟩, c, hc, hcr⟩
  ext m
  rw [wf.maxRound_eq_some]
  show _ ↔ (dag.linearize.filterMap fun h => (dag.get h).map (·.round)).max? = some m
  rw [List.max?_eq_some_iff, hmem]
  refine and_congr_right fun _ => ⟨fun hall r hmr => ?_, fun hall h c hc => ?_⟩
  · obtain ⟨h, c, hc, rfl⟩ := (hmem r).mp hmr
    exact hall h c hc
  · exact hall c.round ((hmem _).mpr ⟨h, c, hc, rfl⟩)

theorem mem_seenReference (wf : dag.WellFormed blake3) {start h : CertHash} :
    h ∈ seenReference dag.listing start ↔ Reaches dag.parentsOf start h := by
  have hout : ∀ k, k ∉ dag.linearize.toFinset → dag.parentsOf k = [] := by
    intro k hk
    rw [List.mem_toFinset, wf.mem_linearize] at hk
    rw [DagStore.parentsOf]
    cases hget : dag.get k with
    | none => rfl
    | some c => exact absurd ⟨c, hget⟩ hk
  exact (visits_visit hout start).mem_iff h

/-- **Sorting the closure is filtering the linearisation by it.** -/
theorem causalHistory_eq_reference (hr : dag.Reachable blake3) (start : CertHash) :
    causalHistory dag start = causalHistoryReference dag.listing start := by
  refine eq_of_mem_iff (causalHistory_sorted start) (hr.linearize_sorted.filter _) fun h => ?_
  rw [mem_causalHistory, causalHistoryReference, List.mem_filter, decide_eq_true_eq,
    mem_seenReference hr.wellFormed]
  exact and_congr_left fun _ => hr.wellFormed.mem_linearize.symm

theorem tryDirectDecide_eq_reference (hr : dag.Reachable blake3) (round : Round) (n : CommitteeSize) :
    tryDirectDecide dag round n = tryDirectDecideReference dag.listing round n := by
  unfold tryDirectDecide tryDirectDecideReference
  cases hlead : certAtReference dag.listing round (leader round n) <;>
    simp only [certAt_eq_reference hr, hlead, supporters_eq_reference hr]

theorem tryIndirectDecide_eq_reference (hr : dag.Reachable blake3) (targetRound : Round)
    (anchor : CertHash) (n : CommitteeSize) :
    tryIndirectDecide dag targetRound anchor n =
      tryIndirectDecideReference dag.listing targetRound anchor n := by
  unfold tryIndirectDecide tryIndirectDecideReference
  cases hlead : certAtReference dag.listing targetRound (leader targetRound n) <;>
    simp only [certAt_eq_reference hr, hlead, causalHistory_eq_reference hr]

theorem scanAnchors_eq_reference (hr : dag.Reachable blake3) (targetRound : Round)
    (n : CommitteeSize) (rounds : List Round) : ∀ seen : Bool,
    scanAnchors dag targetRound n seen rounds =
      scanAnchorsReference dag.listing targetRound n seen rounds := by
  induction rounds with
  | nil => exact fun seen => rfl
  | cons anchorRound rest ih =>
    intro seen
    unfold scanAnchors scanAnchorsReference
    cases hdirect : tryDirectDecideReference dag.listing anchorRound n with
    | direct anchorHash =>
      cases htry : tryIndirectDecideReference dag.listing targetRound anchorHash n <;>
        simp only [tryDirectDecide_eq_reference hr, hdirect, tryIndirectDecide_eq_reference hr, htry, ih]
    | skip => simp only [tryDirectDecide_eq_reference hr, hdirect, ih]
    | undecided => simp only [tryDirectDecide_eq_reference hr, hdirect, ih]

theorem decideSlot_eq_reference (hr : dag.Reachable blake3) (targetRound : Round)
    (n : CommitteeSize) :
    decideSlot dag targetRound n = decideSlotReference dag.listing targetRound n := by
  unfold decideSlot decideSlotReference
  cases hdirect : tryDirectDecideReference dag.listing targetRound n with
  | direct h => simp only [tryDirectDecide_eq_reference hr, hdirect]
  | skip => simp only [tryDirectDecide_eq_reference hr, hdirect]
  | undecided =>
    cases hmax : maxRoundReference dag.listing <;>
      simp only [tryDirectDecide_eq_reference hr, hdirect, maxRound_eq_reference hr, hmax,
        scanAnchors_eq_reference hr]

theorem finalize_eq_reference (hr : dag.Reachable blake3) (n : CommitteeSize) :
    finalize dag n = finalizeReference dag.listing n := by
  have hslot : finalizeSlot dag n = fun acc r =>
      match decideSlotReference dag.listing r n with
      | .direct leaderHash => appendNew acc (causalHistoryReference dag.listing leaderHash)
      | _ => acc := by
    funext acc r
    unfold finalizeSlot
    cases hslot : decideSlotReference dag.listing r n <;>
      simp only [decideSlot_eq_reference hr, hslot, causalHistory_eq_reference hr]
  unfold finalize finalizeReference
  cases hmax : maxRoundReference dag.listing <;> simp only [maxRound_eq_reference hr, hmax, hslot]

end Refinement

/-- **The indexed commit path refines the linearised one**, on the store that any sequence of insert
    calls leaves, refused ones included. -/
theorem commit_path_eq_reference (blake3 : List UInt8 → Bytes32) (calls : List Certificate) :
    let dag := DagStore.insertAll blake3 DagStore.new calls
    (∀ round h, h ∈ dag.roundHashes round ↔ ∃ c, dag.get h = some c ∧ c.round = round) ∧
    (∀ round, (dag.roundHashes round).Nodup) ∧
    (∀ h c, dag.get h = some c → ∀ p ∈ c.parents, ∃ q, dag.get p = some q ∧ q.round < c.round) ∧
    (∀ round author, certAt dag round author = certAtReference dag.listing round author) ∧
    (∀ target round, supporters dag target round = supportersReference dag.listing target round) ∧
    dag.maxRound = maxRoundReference dag.listing ∧
    (∀ start, causalHistory dag start = causalHistoryReference dag.listing start) ∧
    (∀ round n, decideSlot dag round n = decideSlotReference dag.listing round n) ∧
    ∀ n, finalize dag n = finalizeReference dag.listing n := by
  intro dag
  have hr : dag.Reachable blake3 := DagStore.extends_insertAll calls
  exact ⟨fun _ _ => hr.wellFormed.indexed, hr.nodup_roundHashes,
    fun _ _ hc _ hp => hr.wellFormed.closed hc hp, certAt_eq_reference hr,
    supporters_eq_reference hr, maxRound_eq_reference hr, causalHistory_eq_reference hr,
    decideSlot_eq_reference hr, finalize_eq_reference hr⟩

/-! ## Orders of insertion -/

namespace DagStore

/-- Insert one after the other; the first refusal ends it. -/
def insertEach (blake3 : List UInt8 → Bytes32) (dag : DagStore) :
    List Certificate → Except ConsensusError DagStore
  | [] => .ok dag
  | c :: cs =>
    match dag.insert blake3 c with
    | .error e => .error e
    | .ok (_, dag') => dag'.insertEach blake3 cs

section InsertEach

variable {blake3 : List UInt8 → Bytes32}

theorem insertEach_cons_ok {dag dag' : DagStore} {c : Certificate} {cs : List Certificate}
    (h : dag.insertEach blake3 (c :: cs) = .ok dag') :
    ∃ hash mid, dag.insert blake3 c = .ok (hash, mid) ∧ mid.insertEach blake3 cs = .ok dag' := by
  rw [insertEach] at h
  cases hins : dag.insert blake3 c with
  | error e => rw [hins] at h; cases h
  | ok out => rw [hins] at h; exact ⟨out.1, out.2, rfl, h⟩

theorem extends_insertEach {cs : List Certificate} : ∀ {dag dag' : DagStore},
    dag.insertEach blake3 cs = .ok dag' → Extends blake3 dag dag' := by
  induction cs with
  | nil => intro dag dag' h; cases h; exact .refl
  | cons c cs ih =>
    intro dag dag' h
    obtain ⟨hash, mid, hins, hrest⟩ := insertEach_cons_ok h
    exact .head ⟨c, hash, hins⟩ (ih hrest)

/-- The store holds what it held and the certificates inserted, each under its hash. -/
theorem get_insertEach {cs : List Certificate} {h : CertHash} {c : Certificate} :
    ∀ {dag dag' : DagStore}, dag.insertEach blake3 cs = .ok dag' →
      (dag'.get h = some c ↔ dag.get h = some c ∨ c ∈ cs ∧ c.hash blake3 = h) := by
  induction cs with
  | nil => intro dag dag' hins; cases hins; simp
  | cons d cs ih =>
    intro dag dag' hins
    obtain ⟨hash, mid, hins, hrest⟩ := insertEach_cons_ok hins
    obtain ⟨-, -, hfresh, rfl, rfl⟩ := insert_ok_iff.mp hins
    rw [ih hrest, get_record, List.mem_cons]
    by_cases hd : d.hash blake3 = h
    · subst hd
      rw [if_pos rfl, hfresh, Option.some.injEq]
      simp only [reduceCtorEq, false_or]
      constructor
      · rintro (rfl | ⟨hc, heq⟩)
        · exact ⟨.inl rfl, rfl⟩
        · exact ⟨.inr hc, heq⟩
      · rintro ⟨rfl | hc, heq⟩
        · exact .inl rfl
        · exact .inr ⟨hc, heq⟩
    · rw [if_neg hd]
      refine or_congr_right ⟨fun ⟨hc, heq⟩ => ⟨.inr hc, heq⟩, ?_⟩
      rintro ⟨rfl | hc, heq⟩
      · exact absurd heq hd
      · exact ⟨hc, heq⟩

/-- Stores that hold the same certificates show the same listing. -/
theorem Reachable.listing_eq {dag₁ dag₂ : DagStore} (hr₁ : dag₁.Reachable blake3)
    (hr₂ : dag₂.Reachable blake3) (hget : ∀ h, dag₁.get h = dag₂.get h) :
    dag₁.listing = dag₂.listing := by
  have hkey : dag₁.historyKey = dag₂.historyKey := by
    funext h
    rw [historyKey, historyKey, hget]
  have hsorted := hr₁.linearize_sorted
  rw [hkey] at hsorted
  have horder : dag₁.linearize = dag₂.linearize := by
    refine eq_of_mem_iff hsorted hr₂.linearize_sorted fun h => ?_
    rw [hr₁.wellFormed.mem_linearize, hr₂.wellFormed.mem_linearize, hget]
  rw [listing, listing, horder, funext hget]

end InsertEach

end DagStore

/-- The detector reads the listing only. -/
theorem detectAuthorityEquivocation_congr {dag₁ dag₂ : DagStore} (h : dag₁.listing = dag₂.listing) :
    detectAuthorityEquivocation dag₁ = detectAuthorityEquivocation dag₂ := by
  obtain ⟨horder, hget⟩ := Listing.mk.injEq .. ▸ h
  simp only [detectAuthorityEquivocation, DagStore.entries, horder, hget]

/-- **Consensus does not depend on the order of insertion.** -/
theorem insertion_order_independent {blake3 : List UInt8 → Bytes32} {cs₁ cs₂ : List Certificate}
    {dag₁ dag₂ : DagStore} (hsame : ∀ c, c ∈ cs₁ ↔ c ∈ cs₂)
    (h₁ : DagStore.new.insertEach blake3 cs₁ = .ok dag₁)
    (h₂ : DagStore.new.insertEach blake3 cs₂ = .ok dag₂) :
    dag₁.linearize = dag₂.linearize ∧
    (∀ round author, certAt dag₁ round author = certAt dag₂ round author) ∧
    (∀ round n, decideSlot dag₁ round n = decideSlot dag₂ round n) ∧
    (∀ start, causalHistory dag₁ start = causalHistory dag₂ start) ∧
    (∀ n, finalize dag₁ n = finalize dag₂ n) ∧
    detectAuthorityEquivocation dag₁ = detectAuthorityEquivocation dag₂ := by
  have hr₁ : dag₁.Reachable blake3 := DagStore.extends_insertEach h₁
  have hr₂ : dag₂.Reachable blake3 := DagStore.extends_insertEach h₂
  have hget : ∀ h, dag₁.get h = dag₂.get h := by
    intro h
    ext c
    rw [DagStore.get_insertEach h₁, DagStore.get_insertEach h₂, hsame]
  have hlist : dag₁.listing = dag₂.listing := hr₁.listing_eq hr₂ hget
  refine ⟨congrArg Listing.linearize hlist, fun round author => ?_, fun round n => ?_, fun start => ?_,
    fun n => ?_, detectAuthorityEquivocation_congr hlist⟩
  · rw [certAt_eq_reference hr₁, certAt_eq_reference hr₂, hlist]
  · rw [decideSlot_eq_reference hr₁, decideSlot_eq_reference hr₂, hlist]
  · rw [causalHistory_eq_reference hr₁, causalHistory_eq_reference hr₂, hlist]
  · rw [finalize_eq_reference hr₁, finalize_eq_reference hr₂, hlist]

/-- Two authorities at each of two rounds, both rounds inserted the other way round: the indices
    differ, the answers do not. -/
theorem insertion_order_independent_swapped :
    let cs₁ := [root0.2, root1.2, first1.2, first2.2]
    let cs₂ := [root1.2, root0.2, first2.2, first1.2]
    let dag₁ := DagStore.new.recordAll [root0, root1, first1, first2]
    let dag₂ := DagStore.new.recordAll [root1, root0, first2, first1]
    (∀ c, c ∈ cs₁ ↔ c ∈ cs₂) ∧ DagStore.new.insertEach Blake3.hash cs₁ = .ok dag₁ ∧
    DagStore.new.insertEach Blake3.hash cs₂ = .ok dag₂ ∧ dag₁.roundHashes 0 ≠ dag₂.roundHashes 0 ∧
    finalize dag₁ 2 = finalize dag₂ 2 := by
  have hsame : ∀ c, c ∈ [root0.2, root1.2, first1.2, first2.2] ↔
      c ∈ [root1.2, root0.2, first2.2, first1.2] := by
    intro c
    simp only [List.mem_cons, List.not_mem_nil, or_false]
    tauto
  have h₁ : DagStore.new.insertEach Blake3.hash [root0.2, root1.2, first1.2, first2.2] =
      .ok (DagStore.new.recordAll [root0, root1, first1, first2]) := by decide +kernel
  have h₂ : DagStore.new.insertEach Blake3.hash [root1.2, root0.2, first2.2, first1.2] =
      .ok (DagStore.new.recordAll [root1, root0, first2, first1]) := by decide +kernel
  exact ⟨hsame, h₁, h₂, by decide +kernel, (insertion_order_independent hsame h₁ h₂).2.2.2.2.1 2⟩

end SuwappuDag.Consensus
