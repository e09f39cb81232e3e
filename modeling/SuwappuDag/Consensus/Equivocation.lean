/-
  THE DETECTORS (`suwappu-consensus/src/equivocation.rs`).

  1. **Authorities** — `detectAuthorityEquivocation` groups the store by author and round; a group of
     two yields a proof.  It names exactly those who equivocate (`detectAuthorityEquivocation_iff`).
  2. **Validators** — `detectValidatorDoubleVote` groups votes by validator ALONE, without any height:
     it names exactly those who have voted for two candidates (`detectValidatorDoubleVote_iff`),
     whatever rounds these stand at.
-/
import SuwappuDag.Lib.Buckets
import SuwappuDag.Consensus.Agreement
import SuwappuDag.Consensus.Joint

namespace SuwappuDag.Consensus

open Words Buckets Emit
open Std (ExtTreeMap)

/-- Two certificates of one author at one round. -/
structure EquivocationProof where
  author : AuthorityId
  round : Round
  certA : CertHash
  certB : CertHash
deriving DecidableEq

/-- Two candidates of one validator. -/
structure ValidatorEquivocationProof where
  validator : ValidatorId
  candidateA : CertHash
  candidateB : CertHash
deriving DecidableEq

/-! ## Authorities -/

/-- The store as a list, in the order of its linearisation. -/
def DagStore.entries (dag : DagStore) : List (CertHash × Certificate) :=
  dag.linearize.filterMap fun h => (dag.get h).map fun c => (h, c)

def authorRoundKey (e : CertHash × Certificate) : AuthorityId ×ₗ Round :=
  toLex (e.2.author, e.2.round)

/-- One proof for each author and round with two certificates. -/
def detectAuthorityEquivocation (dag : DagStore) : List EquivocationProof :=
  (buckets (fun l h => l ++ [h]) authorRoundKey Prod.fst dag.entries).toList.filterMap fun e =>
    (twoSmallest e.2).map fun p => ⟨(ofLex e.1).1, (ofLex e.1).2, p.1, p.2⟩

section Authorities

variable {blake3 : List UInt8 → Bytes32} {dag : DagStore}

theorem DagStore.WellFormed.mem_entries (wf : dag.WellFormed blake3) {h : CertHash}
    {c : Certificate} : (h, c) ∈ dag.entries ↔ dag.get h = some c := by
  simp only [DagStore.entries, List.mem_filterMap, Option.map_eq_some_iff, Prod.mk.injEq]
  constructor
  · rintro ⟨k, -, d, hd, rfl, rfl⟩
    exact hd
  · intro hc
    exact ⟨h, wf.mem_linearize.mpr ⟨c, hc⟩, c, hc, rfl, rfl⟩

theorem DagStore.Reachable.nodup_entries (hr : dag.Reachable blake3) :
    (dag.entries.map Prod.fst).Nodup := by
  refine List.Nodup.sublist ?_ hr.nodup_linearize
  have hsub : ∀ l : List CertHash,
      ((l.filterMap fun h => (dag.get h).map fun c => (h, c)).map Prod.fst).Sublist l := by
    intro l
    induction l with
    | nil => exact List.Sublist.refl _
    | cons h l ih =>
      rw [List.filterMap_cons]
      cases dag.get h with
      | none => exact ih.cons h
      | some c => exact ih.cons_cons h
  exact hsub dag.linearize

theorem foldl_concat (xs : List CertHash) : xs.foldl (fun l h => l ++ [h]) [] = xs := by
  have hfold : ∀ (xs acc : List CertHash), xs.foldl (fun l h => l ++ [h]) acc = acc ++ xs := by
    intro xs
    induction xs with
    | nil => exact fun acc => (List.append_nil acc).symm
    | cons x xs ih =>
      intro acc
      rw [List.foldl_cons, ih, List.append_assoc, List.singleton_append]
  rw [hfold, List.nil_append]

/-- What is in a bucket: the certificates of its author at its round, each once. -/
theorem mem_authorBucket (wf : dag.WellFormed blake3) {k : AuthorityId ×ₗ Round} {h : CertHash} :
    h ∈ ((dag.entries.filter fun e => authorRoundKey e = k).map Prod.fst) ↔
      ∃ c, dag.get h = some c ∧ toLex (c.author, c.round) = k := by
  simp only [List.mem_map, List.mem_filter, decide_eq_true_eq, Prod.exists, exists_and_right,
    exists_eq_right]
  constructor
  · rintro ⟨c, hmem, hkey⟩
    exact ⟨c, wf.mem_entries.mp hmem, hkey⟩
  · rintro ⟨c, hget, hkey⟩
    exact ⟨c, wf.mem_entries.mpr hget, hkey⟩

/-- The author has two certificates at the round. -/
def DagStore.Doubled (dag : DagStore) (a : AuthorityId) (r : Round) : Prop :=
  ∃ h c k d, dag.get h = some c ∧ dag.get k = some d ∧ h ≠ k ∧
    toLex (c.author, c.round) = toLex (a, r) ∧ toLex (d.author, d.round) = toLex (a, r)

/-- **The detector names exactly the authors and rounds with two certificates.** -/
theorem detectAuthorityEquivocation_at_iff (hr : dag.Reachable blake3) {a : AuthorityId} {r : Round} :
    (∃ p ∈ detectAuthorityEquivocation dag, p.author = a ∧ p.round = r) ↔ dag.Doubled a r := by
  have wf := hr.wellFormed
  set m := buckets (fun l h => l ++ [h]) authorRoundKey Prod.fst dag.entries with hm
  have hbucket : ∀ k : AuthorityId ×ₗ Round, m[k]?.getD [] =
      (dag.entries.filter fun e => authorRoundKey e = k).map Prod.fst := by
    intro k
    rw [hm, getD_buckets, foldl_concat]
  simp only [detectAuthorityEquivocation, List.mem_filterMap, Option.map_eq_some_iff]
  constructor
  · rintro ⟨p, ⟨⟨k, l⟩, hentry, ⟨x, y⟩, htwo, rfl⟩, rfl, rfl⟩
    have hl : l = (dag.entries.filter fun e => authorRoundKey e = k).map Prod.fst := by
      rw [← hbucket, ExtTreeMap.mem_toList_iff_getElem?_eq_some.mp hentry, Option.getD_some]
    obtain ⟨hx, hy, hdistinct⟩ := twoSmallest_eq_some htwo
    have hnodup : l.Nodup := by
      rw [hl]
      exact hr.nodup_entries.sublist (List.filter_sublist.map Prod.fst)
    rw [hl] at hx hy
    obtain ⟨c, hc, hkc⟩ := (mem_authorBucket wf).mp hx
    obtain ⟨d, hd, hkd⟩ := (mem_authorBucket wf).mp hy
    exact ⟨x, c, y, d, hc, hd, hdistinct hnodup, hkc, hkd⟩
  · rintro ⟨x, c, y, d, hc, hd, hne, hkc, hkd⟩
    have hx : x ∈ m[toLex (a, r)]?.getD [] := by
      rw [hbucket]
      exact (mem_authorBucket wf).mpr ⟨c, hc, hkc⟩
    have hy : y ∈ m[toLex (a, r)]?.getD [] := by
      rw [hbucket]
      exact (mem_authorBucket wf).mpr ⟨d, hd, hkd⟩
    obtain ⟨p, hp⟩ := twoSmallest_isSome hx hy hne
    cases hget : m[toLex (a, r)]? with
    | none =>
      rw [hget] at hx
      cases hx
    | some l =>
      rw [hget] at hp
      exact ⟨_, ⟨(toLex (a, r), l),
        ExtTreeMap.mem_toList_iff_getElem?_eq_some.mpr hget, p, hp, rfl⟩, rfl, rfl⟩

/-- **The detector names exactly the equivocators of the store.** -/
theorem detectAuthorityEquivocation_iff (hr : dag.Reachable blake3) {a : AuthorityId} :
    (∃ p ∈ detectAuthorityEquivocation dag, p.author = a) ↔ Equivocates blake3 dag.Holds a := by
  have wf := hr.wellFormed
  constructor
  · rintro ⟨p, hp, rfl⟩
    obtain ⟨x, c, y, d, hc, hd, hne, hkc, hkd⟩ :=
      (detectAuthorityEquivocation_at_iff hr).mp ⟨p, hp, rfl, rfl⟩
    obtain ⟨hca, hcr⟩ := Prod.mk.inj (toLex_inj.mp hkc)
    obtain ⟨hda, hdr⟩ := Prod.mk.inj (toLex_inj.mp hkd)
    refine ⟨c, d, ⟨x, hc⟩, ⟨y, hd⟩, hca, hda, hcr.trans hdr.symm, ?_⟩
    rw [wf.hashed hc, wf.hashed hd]
    exact hne
  · rintro ⟨c, d, ⟨x, hc⟩, ⟨y, hd⟩, rfl, hauthor, hround, hne⟩
    rw [wf.hashed hc, wf.hashed hd] at hne
    obtain ⟨p, hp, hpa, -⟩ := (detectAuthorityEquivocation_at_iff hr).mpr
      ⟨x, c, y, d, hc, hd, hne, rfl, by rw [hauthor, hround]⟩
    exact ⟨p, hp, hpa⟩

end Authorities

/-! ## Validators -/

/-- One proof for each validator with two candidates; a repeated vote counts once. -/
def detectValidatorDoubleVote (votes : List Vote) : List ValidatorEquivocationProof :=
  (buckets (fun l h => if h ∈ l then l else l ++ [h]) Vote.validator Vote.candidate
    votes).toList.filterMap fun e => (twoSmallest e.2).map fun p => ⟨e.1, p.1, p.2⟩

/-- **The detector names exactly those who have voted for two candidates.** -/
theorem detectValidatorDoubleVote_iff {votes : List Vote} {v : ValidatorId} :
    (∃ p ∈ detectValidatorDoubleVote votes, p.validator = v) ↔
      ∃ x ∈ votes, ∃ y ∈ votes, x.validator = v ∧ y.validator = v ∧ x.candidate ≠ y.candidate := by
  set m := buckets (fun l h => if h ∈ l then l else l ++ [h]) Vote.validator Vote.candidate votes
    with hm
  have hbucket : ∀ k : ValidatorId, m[k]?.getD [] =
      appendNew [] ((votes.filter fun x => x.validator = k).map Vote.candidate) := by
    intro k
    rw [hm, getD_buckets]
    rfl
  have hmem : ∀ {k : ValidatorId} {h : CertHash}, h ∈ m[k]?.getD [] ↔
      ∃ x ∈ votes, x.validator = k ∧ x.candidate = h := by
    intro k h
    rw [hbucket, mem_appendNew]
    simp only [List.not_mem_nil, false_or, List.mem_map, List.mem_filter, decide_eq_true_eq, and_assoc]
  simp only [detectValidatorDoubleVote, List.mem_filterMap, Option.map_eq_some_iff]
  constructor
  · rintro ⟨p, ⟨⟨k, l⟩, hentry, ⟨a, b⟩, htwo, rfl⟩, rfl⟩
    have hl : m[k]?.getD [] = l := by
      rw [ExtTreeMap.mem_toList_iff_getElem?_eq_some.mp hentry, Option.getD_some]
    obtain ⟨ha, hb, hne⟩ := twoSmallest_eq_some htwo
    have hne := hne (by rw [← hl, hbucket]; exact appendNew_nodup List.nodup_nil)
    rw [← hl] at ha hb
    obtain ⟨x, hx, hxk, rfl⟩ := hmem.mp ha
    obtain ⟨y, hy, hyk, rfl⟩ := hmem.mp hb
    exact ⟨x, hx, y, hy, hxk, hyk, hne⟩
  · rintro ⟨x, hx, y, hy, hxv, hyv, hne⟩
    obtain ⟨p, hp⟩ := twoSmallest_isSome (hmem.mpr ⟨x, hx, hxv, rfl⟩) (hmem.mpr ⟨y, hy, hyv, rfl⟩) hne
    cases hget : m[v]? with
    | none =>
      rw [hget] at hp
      cases hp
    | some l =>
      rw [hget] at hp
      exact ⟨_, ⟨(v, l), ExtTreeMap.mem_toList_iff_getElem?_eq_some.mpr hget, p, hp, rfl⟩, rfl⟩

end SuwappuDag.Consensus
