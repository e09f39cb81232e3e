/-
  AGREEMENT OF THE DIRECT RULE ACROSS VIEWS.

  Two nodes hold different stores and each commits the leader of the same slot by the direct rule.
  They commit the SAME certificate, although the leader may have signed several:

    * each decision rests on `n − ⌊(n−1)/3⌋` citing authors, so the two quorums share an author who
      has only one certificate at the citing round (`Quorum.exists_common_not_mem`);
    * that one certificate cites both leader certificates, and a store holds the parents of what it
      holds — so BOTH stores hold BOTH of them;
    * each node took the least hash it holds, hence the same one.

  BLAKE3 enters once: a hash that two stores hold must name the same certificate, so collisions are
  excluded among the certificates of the two stores, and only among those.
-/
import SuwappuDag.Lib.Blake3
import SuwappuDag.Consensus.Growth

namespace SuwappuDag.Consensus

open Words

/-- `c` is stored in `dag`. -/
def DagStore.Holds (dag : DagStore) (c : Certificate) : Prop := ∃ h, dag.get h = some c

/-- `a` has two distinct certificates (by hash) at one round among the certificates in `S`. -/
def Equivocates (blake3 : List UInt8 → Bytes32) (S : Certificate → Prop) (a : AuthorityId) : Prop :=
  ∃ c d, S c ∧ S d ∧ c.author = a ∧ d.author = a ∧ c.round = d.round ∧ c.hash blake3 ≠ d.hash blake3

/-- At most `⌊(n−1)/3⌋` authors equivocate among the certificates in `S`. -/
def FewEquivocators (blake3 : List UInt8 → Bytes32) (n : CommitteeSize) (S : Certificate → Prop) :
    Prop :=
  ∃ F : Finset AuthorityId, F.card ≤ (n.toNat - 1) / 3 ∧ ∀ a, Equivocates blake3 S a → a ∈ F

section CrossView

variable {blake3 : List UInt8 → Bytes32} {n : CommitteeSize} {D₁ D₂ : DagStore}

/-- Two direct decisions of one slot rest on a common author who does not equivocate. -/
theorem exists_common_supporter (wf₁ : D₁.WellFormed blake3) (wf₂ : D₂.WellFormed blake3)
    (hn₁ : AuthorsBelow n D₁) (hn₂ : AuthorsBelow n D₂) {F : Finset AuthorityId}
    (hF : F.card ≤ (n.toNat - 1) / 3) {r : Round} {h₁ h₂ : CertHash}
    (hd₁ : tryDirectDecide D₁ r n = .direct h₁) (hd₂ : tryDirectDecide D₂ r n = .direct h₂) :
    ∃ a, a ∈ supporters D₁ h₁ (r + 1) ∧ a ∈ supporters D₂ h₂ (r + 1) ∧ a ∉ F := by
  obtain ⟨hc₁, hq₁⟩ := tryDirectDecide_eq_direct_iff.mp hd₁
  obtain ⟨-, hq₂⟩ := tryDirectDecide_eq_direct_iff.mp hd₂
  rw [quorum_le_iff wf₁ hn₁] at hq₁
  rw [quorum_le_iff wf₂ hn₂] at hq₂
  -- the leader's certificate is by an author below `n`, so the committee is not empty
  have hpos : 0 < n := by
    obtain ⟨⟨c, hget, -⟩, -⟩ := (certAt_eq_some_iff wf₁).mp hc₁
    have hlt := UInt32.lt_iff_toNat_lt.mp (hn₁ _ c hget)
    exact UInt32.lt_iff_toNat_lt.mpr (by simpa using Nat.zero_lt_of_lt hlt)
  rw [toNat_quorumThreshold hpos] at hq₁ hq₂
  have htwo := Quorum.two_quorums (UInt32.lt_iff_toNat_lt.mp hpos) hF
  have hU := (card_committee n).le
  exact Quorum.exists_common_not_mem (supporters_subset_committee wf₁ hn₁ _ _)
    (supporters_subset_committee wf₂ hn₂ _ _) (by omega)

/-- If a certificate of `D₁` cites `h₂`, and `h₂` is the leader's certificate in `D₂`, then `D₁`
    holds it as the leader's certificate too, and its own choice is at most `h₂`. -/
theorem certAt_le_of_cited (wf₁ : D₁.WellFormed blake3) (wf₂ : D₂.WellFormed blake3)
    (hcoll : NoCollision blake3 fun c => D₁.Holds c ∨ D₂.Holds c) {r : Round} {a : AuthorityId}
    {h₁ h₂ k : CertHash} {x : Certificate} (hc₁ : certAt D₁ r a = some h₁)
    (hc₂ : certAt D₂ r a = some h₂) (hx : D₁.get k = some x) (hcite : h₂ ∈ x.parents) :
    h₁ ≤ h₂ := by
  obtain ⟨p, hp, -⟩ := wf₁.closed hx hcite
  obtain ⟨⟨c, hget, hr, ha⟩, -⟩ := (certAt_eq_some_iff wf₂).mp hc₂
  have henc : p.encode = c.encode :=
    hcoll p c (.inl ⟨h₂, hp⟩) (.inr ⟨h₂, hget⟩) ((wf₁.hashed hp).trans (wf₂.hashed hget).symm)
  obtain ⟨hauthor, hround, -, -⟩ := encode_inj henc
  exact ((certAt_eq_some_iff wf₁).mp hc₁).2 h₂ p hp (hround.trans hr) (hauthor.trans ha)

end CrossView

/-- **Cross-view agreement**: two stores that decide one slot directly decide it alike, with at most
    `⌊(n−1)/3⌋` equivocating authors — the slot's leader possibly among them. -/
theorem tryDirectDecide_agree {blake3 : List UInt8 → Bytes32} {n : CommitteeSize}
    {D₁ D₂ : DagStore} (hr₁ : D₁.Reachable blake3) (hr₂ : D₂.Reachable blake3)
    (hn₁ : AuthorsBelow n D₁) (hn₂ : AuthorsBelow n D₂)
    (hcoll : NoCollision blake3 fun c => D₁.Holds c ∨ D₂.Holds c)
    (hfew : FewEquivocators blake3 n fun c => D₁.Holds c ∨ D₂.Holds c)
    {r : Round} {h₁ h₂ : CertHash}
    (hd₁ : tryDirectDecide D₁ r n = .direct h₁) (hd₂ : tryDirectDecide D₂ r n = .direct h₂) :
    h₁ = h₂ := by
  have wf₁ := hr₁.wellFormed
  have wf₂ := hr₂.wellFormed
  obtain ⟨F, hF, hall⟩ := hfew
  obtain ⟨a, ha₁, ha₂, haF⟩ := exists_common_supporter wf₁ wf₂ hn₁ hn₂ hF hd₁ hd₂
  obtain ⟨k₁, x₁, hx₁, hround₁, hcite₁, hauth₁⟩ := (mem_supporters wf₁).mp ha₁
  obtain ⟨k₂, x₂, hx₂, hround₂, hcite₂, hauth₂⟩ := (mem_supporters wf₂).mp ha₂
  -- the common supporter has one certificate at the round, so the two citing ones coincide
  have hsame : x₁.hash blake3 = x₂.hash blake3 := by
    by_contra hne
    exact haF (hall a ⟨x₁, x₂, .inl ⟨k₁, hx₁⟩, .inr ⟨k₂, hx₂⟩, hauth₁, hauth₂,
      hround₁.trans hround₂.symm, hne⟩)
  have hparents : x₁.parents = x₂.parents :=
    (encode_inj (hcoll x₁ x₂ (.inl ⟨k₁, hx₁⟩) (.inr ⟨k₂, hx₂⟩) hsame)).2.2.1
  obtain ⟨hc₁, -⟩ := tryDirectDecide_eq_direct_iff.mp hd₁
  obtain ⟨hc₂, -⟩ := tryDirectDecide_eq_direct_iff.mp hd₂
  have hcoll' : NoCollision blake3 fun c => D₂.Holds c ∨ D₁.Holds c :=
    fun c d hc hd => hcoll c d hc.symm hd.symm
  apply le_antisymm
  · exact certAt_le_of_cited wf₁ wf₂ hcoll hc₁ hc₂ hx₁ (hparents ▸ hcite₂)
  · exact certAt_le_of_cited wf₂ wf₁ hcoll' hc₂ hc₁ hx₂ (hparents ▸ hcite₁)

/-! ## An equivocating leader seen by two nodes

    Four authorities; authority 0 leads slot 0 and signs two genesis certificates, `twinA` (the
    smaller hash) and `twinB`.  Each view holds both twins and three authors citing `twinA`; the
    certificate of authority 1, common to the views, cites both. -/

def twinA : CertHash × Certificate :=
  (0x90ec65507ef037d173d94e4cf94f38e2be59907a3dadcc3f043722b72f155b8f#256,
    ⟨0, 0, [], 0, []⟩)

def twinB : CertHash × Certificate :=
  (0xf97440074c1d7b53aa9ecd29f08f722833347f126166a6b2fd3651dd0bb494ec#256,
    ⟨0, 0, [], 1, []⟩)

def citeBoth : CertHash × Certificate :=
  (0xa825e9f26894a886c89e43ea3f49ecf7146391c1cb28c70745b224e22f3b8ed5#256,
    ⟨1, 1, [twinA.1, twinB.1], 0, []⟩)

def citeA2 : CertHash × Certificate :=
  (0x0160647fe01d0c5d7dee6472937e30f1beb1caa2e4bf28c8900cef6753c5f3ce#256,
    ⟨2, 1, [twinA.1], 0, []⟩)

def citeA3 : CertHash × Certificate :=
  (0x07a257937067129cd9362304dd7c1b74c4488ad3a1b20753e1b6c4cedd5f2859#256,
    ⟨3, 1, [twinA.1], 0, []⟩)

def citeA0 : CertHash × Certificate :=
  (0xc1762174a0d4a86c9601c3acfc46aa33bc626ab3646657a58a18b9ee5534ff00#256,
    ⟨0, 1, [twinA.1], 0, []⟩)

def viewOne : List (CertHash × Certificate) := [twinA, twinB, citeBoth, citeA2, citeA3]

def viewTwo : List (CertHash × Certificate) := [twinA, twinB, citeA0, citeBoth, citeA2]

theorem views_hashed : ∀ p ∈ viewOne ++ viewTwo, p.2.hash Blake3.hash = p.1 := by decide +kernel

theorem mem_views {c : Certificate} (h : (DagStore.new.recordAll viewOne).Holds c ∨
    (DagStore.new.recordAll viewTwo).Holds c) : ∃ p ∈ viewOne ++ viewTwo, p.2 = c := by
  rcases h with ⟨k, hk⟩ | ⟨k, hk⟩
  · exact ⟨(k, c), List.mem_append_left _ (DagStore.mem_of_get_recordAll_new hk), rfl⟩
  · exact ⟨(k, c), List.mem_append_right _ (DagStore.mem_of_get_recordAll_new hk), rfl⟩

theorem views_noCollision : NoCollision Blake3.hash fun c =>
    (DagStore.new.recordAll viewOne).Holds c ∨ (DagStore.new.recordAll viewTwo).Holds c := by
  have hkeys : ∀ p ∈ viewOne ++ viewTwo, ∀ q ∈ viewOne ++ viewTwo, p.1 = q.1 → p.2 = q.2 := by
    decide +kernel
  intro c d hc hd h
  obtain ⟨p, hp, rfl⟩ := mem_views hc
  obtain ⟨q, hq, rfl⟩ := mem_views hd
  have hkey : p.1 = q.1 := (views_hashed p hp).symm.trans (h.trans (views_hashed q hq))
  rw [hkeys p hp q hq hkey]

theorem views_fewEquivocators : FewEquivocators Blake3.hash 4 fun c =>
    (DagStore.new.recordAll viewOne).Holds c ∨ (DagStore.new.recordAll viewTwo).Holds c := by
  have honly : ∀ p ∈ viewOne ++ viewTwo, ∀ q ∈ viewOne ++ viewTwo, p.2.author = q.2.author →
      p.2.round = q.2.round → p.1 ≠ q.1 → p.2.author = 0 := by decide +kernel
  refine ⟨{0}, by decide, ?_⟩
  rintro a ⟨c, d, hc, hd, rfl, hda, hr, hne⟩
  obtain ⟨p, hp, rfl⟩ := mem_views hc
  obtain ⟨q, hq, rfl⟩ := mem_views hd
  rw [views_hashed p hp, views_hashed q hq] at hne
  rw [Finset.mem_singleton]
  exact honly p hp q hq hda.symm hr hne

theorem tryDirectDecide_agree_twins :
    (DagStore.new.recordAll viewOne).get twinB.1 = some twinB.2 ∧
    (DagStore.new.recordAll viewTwo).get twinB.1 = some twinB.2 ∧
    tryDirectDecide (DagStore.new.recordAll viewOne) 0 4 = .direct twinA.1 ∧
    tryDirectDecide (DagStore.new.recordAll viewTwo) 0 4 = .direct twinA.1 ∧ twinA.1 = twinA.1 := by
  have hd₁ : tryDirectDecide (DagStore.new.recordAll viewOne) 0 4 = .direct twinA.1 := by
    decide +kernel
  have hd₂ : tryDirectDecide (DagStore.new.recordAll viewTwo) 0 4 = .direct twinA.1 := by
    decide +kernel
  have hbelow : ∀ p ∈ viewOne ++ viewTwo, p.2.author < 4 := by decide +kernel
  refine ⟨by decide +kernel, by decide +kernel, hd₁, hd₂, ?_⟩
  refine tryDirectDecide_agree ?_ ?_ ?_ ?_ views_noCollision views_fewEquivocators hd₁ hd₂
  · exact DagStore.extends_recordAll
      (fun p hp => views_hashed p (List.mem_append_left _ hp)) (by decide +kernel)
  · exact DagStore.extends_recordAll
      (fun p hp => views_hashed p (List.mem_append_right _ hp)) (by decide +kernel)
  · exact fun h c hc =>
      hbelow (h, c) (List.mem_append_left _ (DagStore.mem_of_get_recordAll_new hc))
  · exact fun h c hc =>
      hbelow (h, c) (List.mem_append_right _ (DagStore.mem_of_get_recordAll_new hc))

end SuwappuDag.Consensus
