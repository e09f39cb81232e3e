/-
  A VIEW INSIDE A LARGER ONE — what the commit rule sees of the same certificates in two stores.

  `Sub D D'` says that `D'` holds every certificate of `D` under its hash; a store and any extension
  of it are so related, and so is a node's store and the whole universe of certificates.  Under it

  1. supporters only increase (`Sub.supporters_subset`), so a quorum stays a quorum as long as all
     authors are below the committee size and the `u32` cast of the count is exact
     (`quorum_le_iff`);
  2. the causal history of a certificate of `D` is the SAME LIST in both (`Sub.causalHistory_eq`):
     parents are present in `D`, and the sort key reads only the certificates themselves.
-/
import SuwappuDag.Lib.Quorum
import SuwappuDag.Consensus.Commit

namespace SuwappuDag.Consensus

open Words
open Worklist (Reaches)

/-! ## Counting supporters -/

/-- Every stored certificate is by one of the authorities `0 .. n-1`. -/
def AuthorsBelow (n : CommitteeSize) (dag : DagStore) : Prop :=
  ∀ h c, dag.get h = some c → c.author < n

/-- The authorities `0 .. n-1`. -/
def committee (n : CommitteeSize) : Finset AuthorityId := (Finset.range n.toNat).image UInt32.ofNat

theorem mem_committee {n : CommitteeSize} {a : AuthorityId} : a ∈ committee n ↔ a < n := by
  rw [committee, Finset.mem_image, UInt32.lt_iff_toNat_lt]
  constructor
  · rintro ⟨k, hk, rfl⟩
    have hk := Finset.mem_range.mp hk
    have hlt : k < 2 ^ 32 := by have := n.toNat_lt; omega
    rw [UInt32.toNat_ofNat_of_lt' hlt]; exact hk
  · intro h
    exact ⟨a.toNat, Finset.mem_range.mpr h, UInt32.ofNat_toNat⟩

theorem card_committee (n : CommitteeSize) : (committee n).card = n.toNat := by
  have hinj : Set.InjOn UInt32.ofNat (Finset.range n.toNat) := by
    intro i hi j hj heq
    have hi : i < UInt32.size := (Finset.mem_range.mp hi).trans n.toNat_lt
    have hj : j < UInt32.size := (Finset.mem_range.mp hj).trans n.toNat_lt
    have heq := congrArg UInt32.toNat heq
    rwa [UInt32.toNat_ofNat_of_lt' hi, UInt32.toNat_ofNat_of_lt' hj] at heq
  rw [committee, Finset.card_image_of_injOn hinj, Finset.card_range]

theorem toNat_quorumThreshold {n : CommitteeSize} (hn : 0 < n) :
    (quorumThreshold n).toNat = n.toNat - (n.toNat - 1) / 3 := by
  have hpos : 0 < n.toNat := UInt32.lt_iff_toNat_lt.mp hn
  have hone : (1 : UInt32) ≤ n := UInt32.le_iff_toNat_le.mpr hpos
  have hsub : (n - 1).toNat = n.toNat - 1 := UInt32.toNat_sub_of_le _ _ hone
  have hdiv : ((n - 1) / 3).toNat = (n.toNat - 1) / 3 := by rw [UInt32.toNat_div, hsub]; rfl
  have hle : (n - 1) / 3 ≤ n := by rw [UInt32.le_iff_toNat_le, hdiv]; omega
  rw [quorumThreshold, if_neg (ne_of_gt hn), UInt32.toNat_sub_of_le _ _ hle, hdiv]

section Counting

variable {blake3 : List UInt8 → Bytes32} {dag : DagStore} {n : CommitteeSize}

theorem supporters_subset_committee (wf : dag.WellFormed blake3) (hn : AuthorsBelow n dag)
    (t : CertHash) (r : Round) : supporters dag t r ⊆ committee n := by
  intro a ha
  obtain ⟨k, c, hc, -, -, rfl⟩ := (mem_supporters wf).mp ha
  exact mem_committee.mpr (hn k c hc)

/-- No certificate has all the `2^32` ids as supporters: the `u32` cast of the count is exact. -/
def CountsFit (dag : DagStore) : Prop := ∀ t r, (supporters dag t r).card < 2 ^ 32

theorem AuthorsBelow.countsFit (hn : AuthorsBelow n dag) (wf : dag.WellFormed blake3) :
    CountsFit dag := by
  intro t r
  have hcard : (supporters dag t r).card ≤ n.toNat :=
    (Finset.card_le_card (supporters_subset_committee wf hn t r)).trans (card_committee n).le
  have hlt := n.toNat_lt
  omega

theorem quorum_le_iff (wf : dag.WellFormed blake3) (hn : AuthorsBelow n dag) {t : CertHash}
    {r : Round} :
    quorumThreshold n ≤ UInt32.ofNat (supporters dag t r).card ↔
      (quorumThreshold n).toNat ≤ (supporters dag t r).card := by
  rw [UInt32.le_iff_toNat_le, UInt32.toNat_ofNat_of_lt' (hn.countsFit wf t r)]

end Counting

/-! ## Views -/

/-- Every certificate of `dag` is in `dag'`, under the same hash. -/
def DagStore.Sub (dag dag' : DagStore) : Prop := ∀ h c, dag.get h = some c → dag'.get h = some c

theorem DagStore.Extends.sub {blake3 : List UInt8 → Bytes32} {dag dag' : DagStore}
    (he : DagStore.Extends blake3 dag dag') : dag.Sub dag' := fun _ _ hc => he.get hc

namespace DagStore.Sub

variable {blake3 : List UInt8 → Bytes32} {dag dag' : DagStore} {n : CommitteeSize}

theorem supporters_subset (hs : dag.Sub dag') (wf : dag.WellFormed blake3)
    (wf' : dag'.WellFormed blake3) (t : CertHash) (r : Round) :
    supporters dag t r ⊆ supporters dag' t r := by
  intro a ha
  obtain ⟨k, c, hc, hrest⟩ := (mem_supporters wf).mp ha
  exact (mem_supporters wf').mpr ⟨k, c, hs k c hc, hrest⟩

/-- A quorum of supporters in a view is one in the larger store. -/
theorem quorum_le (hs : dag.Sub dag') (wf : dag.WellFormed blake3) (wf' : dag'.WellFormed blake3)
    (hfit : CountsFit dag') {t : CertHash} {r : Round}
    (hq : quorumThreshold n ≤ UInt32.ofNat (supporters dag t r).card) :
    quorumThreshold n ≤ UInt32.ofNat (supporters dag' t r).card := by
  rw [UInt32.le_iff_toNat_le] at hq ⊢
  rw [UInt32.toNat_ofNat_of_lt' (hfit t r)]
  calc (quorumThreshold n).toNat
      ≤ (UInt32.ofNat (supporters dag t r).card).toNat := hq
    _ ≤ (supporters dag t r).card := Nat.mod_le _ _
    _ ≤ (supporters dag' t r).card := Finset.card_le_card (hs.supporters_subset wf wf' t r)

/-- A walk from a stored certificate takes the same steps in the larger store. -/
theorem reaches_iff (hs : dag.Sub dag') (wf : dag.WellFormed blake3) {a b : CertHash}
    {ca : Certificate} (ha : dag.get a = some ca) :
    Reaches dag'.parentsOf a b ↔ Reaches dag.parentsOf a b := by
  constructor
  · intro hr
    induction hr with
    | refl => exact .refl
    | @tail x y _ hxy ih =>
      obtain ⟨cx, hx, -⟩ := reaches_stored wf ha ih
      refine ih.tail ?_
      simpa only [DagStore.parentsOf, hx, hs x cx hx] using hxy
  · intro hr
    induction hr with
    | refl => exact .refl
    | @tail x y hax hxy ih =>
      obtain ⟨cx, hx, -⟩ := reaches_stored wf ha hax
      refine ih.tail ?_
      simpa only [DagStore.parentsOf, hx, hs x cx hx] using hxy

theorem mem_causalHistory_iff (hs : dag.Sub dag') (wf : dag.WellFormed blake3)
    (wf' : dag'.WellFormed blake3) {a b : CertHash} {ca : Certificate} (ha : dag.get a = some ca) :
    b ∈ causalHistory dag' a ↔ b ∈ causalHistory dag a := by
  rw [Consensus.mem_causalHistory_iff wf' (hs a ca ha), Consensus.mem_causalHistory_iff wf ha,
    hs.reaches_iff wf ha]

theorem historyKey_eq (hs : dag.Sub dag') {h : CertHash} {c : Certificate} (hc : dag.get h = some c) :
    dag'.historyKey h = dag.historyKey h := by
  simp only [DagStore.historyKey, hc, hs h c hc]

/-- **A history is view-independent**: the same list wherever its head is stored. -/
theorem causalHistory_eq (hs : dag.Sub dag') (wf : dag.WellFormed blake3)
    (wf' : dag'.WellFormed blake3) {a : CertHash} {ca : Certificate} (ha : dag.get a = some ca) :
    causalHistory dag' a = causalHistory dag a := by
  -- both lists are sorted by the key of the larger store
  have hsort : (causalHistory dag a).Pairwise fun x y => dag'.historyKey x < dag'.historyKey y := by
    have hown : (causalHistory dag a).Pairwise fun x y => dag.historyKey x < dag.historyKey y :=
      causalHistory_sorted a
    refine hown.imp_of_mem ?_
    intro x y hx hy hlt
    obtain ⟨⟨cx, hcx⟩, -⟩ := mem_causalHistory.mp hx
    obtain ⟨⟨cy, hcy⟩, -⟩ := mem_causalHistory.mp hy
    rwa [hs.historyKey_eq hcx, hs.historyKey_eq hcy]
  exact Emit.eq_of_mem_iff (causalHistory_sorted a) hsort fun b => hs.mem_causalHistory_iff wf wf' ha

end DagStore.Sub

end SuwappuDag.Consensus
