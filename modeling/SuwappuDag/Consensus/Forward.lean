/-
  THE STATUS OF A SLOT ONLY MOVES FORWARD while no author has two certificates at a round.

  The order is `undecided < skip < direct h`, with different `direct`s incomparable: a skipped slot
  may still be committed by an anchor that arrives later, but it is never undecided again, and a
  committed hash never changes.

  1. **Undecided (`decideSlot_eq_undecided_iff`)** — no direct decision of the slot and no anchor at
     all two rounds up or more; whether an anchor REACHES the leader only separates the other two.
  2. **Forward (`decideSlot_forward`)** — one certificate per author and round means that no slot
     loses its leader certificate, so every direct decision of every anchor survives.
  3. **The crux is the count.**  It is cast to `u32`, and there are `2^32` author ids: the last of
     them to cite a certificate brings the count back to zero (`last_supporter_undecides`).
-/
import SuwappuDag.Consensus.Persistence

namespace SuwappuDag.Consensus

open Words

/-! ## The order of the three answers -/

namespace LeaderStatus

/-- `undecided` is below everything, `skip` below every `direct`. -/
def Before : LeaderStatus → LeaderStatus → Prop
  | .undecided, _ => True
  | .skip, t => t ≠ .undecided
  | .direct h, t => t = .direct h

instance partialOrder : PartialOrder LeaderStatus where
  le := Before
  le_refl s := by cases s <;> simp [Before]
  le_trans s t u hst htu := by
    cases s with
    | undecided => trivial
    | skip =>
      cases t with
      | undecided => exact absurd rfl hst
      | skip => exact htu
      | direct k => rw [show u = .direct k from htu]; simp [Before]
    | direct k =>
      have ht : t = .direct k := hst
      subst ht
      exact htu
  le_antisymm s t hst hts := by
    cases s with
    | undecided =>
      cases t with
      | undecided => rfl
      | skip => exact absurd rfl hts
      | direct k => exact hts
    | skip =>
      cases t with
      | undecided => exact absurd rfl hst
      | skip => rfl
      | direct k => exact hts
    | direct k => exact (show t = .direct k from hst).symm

theorem undecided_le (s : LeaderStatus) : undecided ≤ s := trivial

theorem skip_le_iff {s : LeaderStatus} : skip ≤ s ↔ s ≠ undecided := Iff.rfl

theorem direct_le_iff {h : CertHash} {s : LeaderStatus} : direct h ≤ s ↔ s = direct h := Iff.rfl

example : undecided < skip ∧ skip < direct 7 ∧ ¬ direct 7 ≤ direct 8 := by
  refine ⟨lt_of_le_of_ne (undecided_le _) (by decide), lt_of_le_of_ne (skip_le_iff.mpr ?_) ?_,
    fun h => ?_⟩
  · decide
  · decide
  · exact absurd (direct_le_iff.mp h) (by decide)

end LeaderStatus

/-! ## When a slot is undecided -/

section Undecided

variable {blake3 : List UInt8 → Bytes32} {dag : DagStore} {n : CommitteeSize}

/-- The anchor loop answers `undecided` iff it started without an anchor and met none. -/
theorem scanAnchors_eq_undecided_iff {r : Round} {seen : Bool} {rs : List Round} :
    scanAnchors dag r n seen rs = .undecided ↔
      seen = false ∧ ∀ R ∈ rs, ∀ a, tryDirectDecide dag R n ≠ .direct a := by
  induction rs generalizing seen with
  | nil => cases seen <;> simp [scanAnchors]
  | cons R rs ih =>
    rw [scanAnchors, List.forall_mem_cons]
    cases hd : tryDirectDecide dag R n with
    | skip => exact absurd hd tryDirectDecide_ne_skip
    | undecided => simp [ih]
    | direct a =>
      -- an anchor: the flag is up from here on, whatever the anchor reaches
      have hmet : ¬ ∀ b, LeaderStatus.direct a ≠ .direct b := fun h => h a rfl
      simp only [hmet, false_and, and_false, iff_false]
      cases hi : tryIndirectDecide dag r a n with
      | direct k => simp
      | skip => simp [ih]
      | undecided => simp [ih]

/-- **Undecided**: the direct rule does not decide the slot, and there is no anchor above it. -/
theorem decideSlot_eq_undecided_iff (wf : dag.WellFormed blake3) {r : Round} :
    decideSlot dag r n = .undecided ↔
      tryDirectDecide dag r n = .undecided ∧
      ∀ R a, r + 2 ≤ R → tryDirectDecide dag R n ≠ .direct a := by
  rw [decideSlot]
  cases hd : tryDirectDecide dag r n with
  | skip => exact absurd hd tryDirectDecide_ne_skip
  | direct h => simp
  | undecided =>
    cases hm : dag.maxRound with
    | none =>
      simp only [true_and, true_iff]
      intro R a _ hanchor
      obtain ⟨⟨c, hget, -⟩, -⟩ :=
        (certAt_eq_some_iff wf).mp (tryDirectDecide_eq_direct_iff.mp hanchor).1
      exact wf.maxRound_ne_none hget hm
    | some m =>
      simp only [scanAnchors_eq_undecided_iff, mem_roundsIncl, true_and]
      constructor
      · intro hnone R a hlo hanchor
        exact hnone R ⟨hlo, round_le_maxRound wf hm hanchor⟩ a hanchor
      · intro hnone R hR a
        exact hnone R a hR.1

end Undecided

/-! ## One certificate per author and round -/

/-- No author has two certificates at a round. -/
def OnePerSlot (dag : DagStore) : Prop :=
  ∀ h c k d, dag.get h = some c → dag.get k = some d → c.author = d.author → c.round = d.round →
    h = k

section Forward

variable {blake3 : List UInt8 → Bytes32} {dag dag' : DagStore} {n : CommitteeSize}

/-- The leader's certificate stays: the larger store has no second candidate. -/
theorem OnePerSlot.certAt_keep (hone : OnePerSlot dag') (hs : dag.Sub dag')
    (wf : dag.WellFormed blake3) (wf' : dag'.WellFormed blake3) {r : Round} {a : AuthorityId}
    {h : CertHash} (hc : certAt dag r a = some h) : certAt dag' r a = some h := by
  obtain ⟨⟨c, hget, hr, ha⟩, -⟩ := (certAt_eq_some_iff wf).mp hc
  refine (certAt_eq_some_iff wf').mpr ⟨⟨c, hs h c hget, hr, ha⟩, ?_⟩
  intro k d hd hdr hda
  exact (hone h c k d (hs h c hget) hd (ha.trans hda.symm) (hr.trans hdr.symm)).le

/-- **Slot status only moves forward**: along any further inserts after which no author has two
    certificates at a round, as long as no certificate is cited by all the `2^32` ids. -/
theorem decideSlot_forward (hn : 0 < n) (hr : dag.Reachable blake3)
    (he : DagStore.Extends blake3 dag dag') (hone : OnePerSlot dag') (hfit : CountsFit dag')
    (r : Round) : decideSlot dag r n ≤ decideSlot dag' r n := by
  have wf := hr.wellFormed
  have wf' := he.wellFormed wf
  have hanchors : ∀ R a, tryDirectDecide dag R n = .direct a → tryDirectDecide dag' R n = .direct a :=
    fun R a hd => he.sub.tryDirectDecide_direct wf wf' hfit hd
      (hone.certAt_keep he.sub wf wf' (tryDirectDecide_eq_direct_iff.mp hd).1)
  cases hd : decideSlot dag r n with
  | undecided => exact LeaderStatus.undecided_le _
  | direct h =>
    refine LeaderStatus.direct_le_iff.mpr (he.sub.decideSlot_direct wf wf' hfit ?_ hd)
    exact fun R a hR => hone.certAt_keep he.sub wf wf' ((decideSlot_eq_direct_iff wf).mp hR).1
  | skip =>
    rw [LeaderStatus.skip_le_iff]
    intro hback
    -- back at undecided, the larger store has lost the direct decision or the anchor
    have hold : decideSlot dag r n = .undecided := by
      obtain ⟨hslot, hnone⟩ := (decideSlot_eq_undecided_iff wf').mp hback
      refine (decideSlot_eq_undecided_iff wf).mpr ⟨?_, fun R a hlo ha => hnone R a hlo (hanchors R a ha)⟩
      cases hdir : tryDirectDecide dag r n with
      | undecided => rfl
      | skip => exact absurd hdir tryDirectDecide_ne_skip
      | direct h => rw [hanchors r h hdir] at hslot; cases hslot
    rw [hd] at hold; cases hold

end Forward

/-- Slot 0 with its leader certificate and two citations of the three it needs. -/
def awaitingRun : List (CertHash × Certificate) := [twinB, citeB1, citeB2]

theorem decideSlot_forward_committed :
    decideSlot (DagStore.new.recordAll awaitingRun) 0 4 = .undecided ∧
      decideSlot committedStore 0 4 = .direct twinB.1 ∧
      decideSlot (DagStore.new.recordAll awaitingRun) 0 4 ≤ decideSlot committedStore 0 4 := by
  have hreach : (DagStore.new.recordAll awaitingRun).Reachable Blake3.hash :=
    DagStore.extends_recordAll (by decide +kernel) (by decide +kernel)
  have hext : DagStore.Extends Blake3.hash (DagStore.new.recordAll awaitingRun) committedStore :=
    show DagStore.Extends _ _ ((DagStore.new.recordAll awaitingRun).recordAll [citeB3]) from
      DagStore.extends_recordAll (by decide +kernel) (by decide +kernel)
  have hone : OnePerSlot committedStore := by
    have hall : ∀ p ∈ committedRun, ∀ q ∈ committedRun, p.2.author = q.2.author →
        p.2.round = q.2.round → p.1 = q.1 := by decide +kernel
    intro h c k d hc hd
    exact hall (h, c) (DagStore.mem_of_get_recordAll_new hc) (k, d)
      (DagStore.mem_of_get_recordAll_new hd)
  have hbelow : AuthorsBelow 4 committedStore := by
    have hall : ∀ p ∈ committedRun, p.2.author < 4 := by decide +kernel
    exact fun h c hc => hall (h, c) (DagStore.mem_of_get_recordAll_new hc)
  exact ⟨by decide +kernel, by decide +kernel, decideSlot_forward (by decide) hreach hext hone
    (hbelow.countsFit committedStore_reachable.wellFormed) 0⟩

/-! ## The last of the `2^32` ids undecides a slot

    One genesis certificate of authority 0, and one certificate of every author id citing it.  With
    one registered authority the slot is committed from the first citation on, until the count of
    supporters is `2^32 as u32 = 0`. -/

section FullRound

variable (blake3 : List UInt8 → Bytes32)

/-- The leader certificate of slot 0. -/
def soleLeader : Certificate := .genesis 0 0

/-- The certificate of `a` at round 1, citing the leader. -/
def citation (a : AuthorityId) : Certificate := ⟨a, 1, [soleLeader.hash blake3], 0, []⟩

/-- The certificates of the two rounds. -/
def FullRound (c : Certificate) : Prop := c = soleLeader ∨ ∃ a, c = citation blake3 a

/-- The store holds the leader and the citations of the ids below `k`. -/
structure CitedBelow (k : Nat) (dag : DagStore) : Prop where
  reachable : dag.Reachable blake3
  holds : ∀ h c, dag.get h = some c ↔
    h = c.hash blake3 ∧ (c = soleLeader ∨ ∃ a : AuthorityId, a.toNat < k ∧ c = citation blake3 a)

variable {blake3} {k : Nat} {dag dag' : DagStore}

theorem citation_hash_ne (hcol : NoCollision blake3 (FullRound blake3)) {a : AuthorityId}
    {c : Certificate} (hc : c = soleLeader ∨ ∃ b, b ≠ a ∧ c = citation blake3 b) :
    c.hash blake3 ≠ (citation blake3 a).hash blake3 := by
  intro heq
  have hfull : FullRound blake3 c := hc.imp id fun ⟨b, _, hb⟩ => ⟨b, hb⟩
  obtain ⟨hauthor, hround, -, -⟩ := encode_inj (hcol _ _ hfull (.inr ⟨a, rfl⟩) heq)
  rcases hc with rfl | ⟨b, hb, rfl⟩
  · exact absurd hround (by simp [soleLeader, Certificate.genesis, citation])
  · exact hb hauthor

theorem exists_citedBelow_zero : ∃ dag, CitedBelow blake3 0 dag := by
  refine ⟨_, .single ⟨soleLeader, _, DagStore.insert_ok_iff.mpr
    ⟨fun _ => rfl, by simp [soleLeader, Certificate.genesis], DagStore.get_new _, rfl, rfl⟩⟩, ?_⟩
  intro h c
  rw [DagStore.get_record, DagStore.get_new]
  split
  · next heq =>
    subst heq
    constructor
    · intro he; cases he; exact ⟨rfl, .inl rfl⟩
    · rintro ⟨-, rfl | ⟨a, ha, -⟩⟩
      · rfl
      · exact absurd ha (Nat.not_lt_zero _)
  · next hne =>
    refine ⟨fun he => (nomatch he), ?_⟩
    rintro ⟨rfl, rfl | ⟨a, ha, -⟩⟩
    · exact absurd rfl hne
    · exact absurd ha (Nat.not_lt_zero _)

/-- The citation of the next id goes in. -/
theorem CitedBelow.next (hcol : NoCollision blake3 (FullRound blake3)) (hd : CitedBelow blake3 k dag)
    (hk : k < 2 ^ 32) :
    ∃ dag', DagStore.Extends blake3 dag dag' ∧ CitedBelow blake3 (k + 1) dag' := by
  set a := UInt32.ofNat k with ha
  have hak : a.toNat = k := UInt32.toNat_ofNat_of_lt' hk
  have hne : ∀ {b : AuthorityId}, b.toNat < k → b ≠ a := by
    rintro b hb rfl; omega
  have hother : ∀ {c}, (c = soleLeader ∨ ∃ b : AuthorityId, b.toNat < k ∧ c = citation blake3 b) →
      c.hash blake3 ≠ (citation blake3 a).hash blake3 := by
    intro c hc
    exact citation_hash_ne hcol (hc.imp id fun ⟨b, hb, he⟩ => ⟨b, hne hb, he⟩)
  have hfresh : dag.get ((citation blake3 a).hash blake3) = none := by
    cases hget : dag.get ((citation blake3 a).hash blake3) with
    | none => rfl
    | some c =>
      obtain ⟨hh, hc⟩ := (hd.holds _ _).mp hget
      exact absurd hh.symm (hother hc)
  have hins : dag.insert blake3 (citation blake3 a) =
      .ok ((citation blake3 a).hash blake3,
        dag.record ((citation blake3 a).hash blake3) (citation blake3 a)) := by
    refine DagStore.insert_ok_iff.mpr ⟨fun h0 => absurd h0 (by simp [citation]), ?_, hfresh, rfl, rfl⟩
    intro p hp
    rw [List.mem_singleton.mp hp]
    exact ⟨soleLeader, (hd.holds _ _).mpr ⟨rfl, .inl rfl⟩, show (0 : Round) < 1 by decide⟩
  refine ⟨_, .single ⟨_, _, hins⟩, hd.reachable.tail ⟨_, _, hins⟩, fun h c => ?_⟩
  have hlt : ∀ b : AuthorityId, b.toNat < k + 1 ↔ b.toNat < k ∨ b = a := by
    intro b
    rw [← UInt32.toNat_inj, hak]
    omega
  rw [DagStore.get_record]
  split
  · next heq =>
    subst heq
    constructor
    · intro he; cases he; exact ⟨rfl, .inr ⟨a, by omega, rfl⟩⟩
    · rintro ⟨hh, hc⟩
      by_cases hold : c = soleLeader ∨ ∃ b : AuthorityId, b.toNat < k ∧ c = citation blake3 b
      · exact absurd hh.symm (hother hold)
      · rcases hc with rfl | ⟨b, hb, rfl⟩
        · exact absurd (.inl rfl) hold
        · rcases (hlt b).mp hb with hb | rfl
          · exact absurd (.inr ⟨b, hb, rfl⟩) hold
          · rfl
  · next hkey =>
    rw [hd.holds]
    refine and_congr_right fun hh => or_congr_right ⟨?_, ?_⟩
    · rintro ⟨b, hb, rfl⟩; exact ⟨b, by omega, rfl⟩
    · rintro ⟨b, hb, rfl⟩
      rcases (hlt b).mp hb with hb | rfl
      · exact ⟨b, hb, rfl⟩
      · exact absurd hh.symm hkey

/-- From any number of citations on, all the ids get theirs. -/
theorem CitedBelow.rest (hcol : NoCollision blake3 (FullRound blake3)) (m : Nat) :
    ∀ {k : Nat} {dag : DagStore}, CitedBelow blake3 k dag → k + m ≤ 2 ^ 32 →
      ∃ dag', DagStore.Extends blake3 dag dag' ∧ CitedBelow blake3 (k + m) dag' := by
  induction m with
  | zero => intro k dag hd _; exact ⟨dag, .refl, hd⟩
  | succ m ih =>
    intro k dag hd hk
    obtain ⟨dag₁, he₁, hd₁⟩ := hd.next hcol (by omega)
    obtain ⟨dag₂, he₂, hd₂⟩ := ih hd₁ (by omega)
    exact ⟨dag₂, he₁.trans he₂, by rwa [Nat.add_right_comm] at hd₂⟩

theorem CitedBelow.onePerSlot (hd : CitedBelow blake3 k dag) : OnePerSlot dag := by
  intro h c j d hgetc hgetd hauthor hround
  obtain ⟨hh, hc⟩ := (hd.holds h c).mp hgetc
  obtain ⟨hj, hd⟩ := (hd.holds j d).mp hgetd
  have hsame : c = d := by
    rcases hc with rfl | ⟨a, -, rfl⟩ <;> rcases hd with rfl | ⟨b, -, rfl⟩
    · rfl
    · exact absurd hround (by simp [soleLeader, Certificate.genesis, citation])
    · exact absurd hround (by simp [soleLeader, Certificate.genesis, citation])
    · rw [show a = b from hauthor]
  rw [hh, hj, hsame]

theorem CitedBelow.card_supporters (hd : CitedBelow blake3 k dag) (hk : k ≤ 2 ^ 32) :
    (supporters dag (soleLeader.hash blake3) 1).card = k := by
  have hset : supporters dag (soleLeader.hash blake3) 1 = (Finset.range k).image UInt32.ofNat := by
    ext a
    rw [mem_supporters hd.reachable.wellFormed, Finset.mem_image]
    constructor
    · rintro ⟨h, c, hget, hround, -, rfl⟩
      rcases ((hd.holds h c).mp hget).2 with rfl | ⟨b, hb, rfl⟩
      · exact absurd hround (by simp [soleLeader, Certificate.genesis])
      · exact ⟨b.toNat, Finset.mem_range.mpr hb, UInt32.ofNat_toNat⟩
    · rintro ⟨i, hi, rfl⟩
      have hi : i < k := Finset.mem_range.mp hi
      refine ⟨_, citation blake3 (UInt32.ofNat i), (hd.holds _ _).mpr ⟨rfl, .inr ⟨_, ?_, rfl⟩⟩, rfl,
        List.mem_singleton.mpr rfl, rfl⟩
      rwa [UInt32.toNat_ofNat_of_lt' (show i < UInt32.size by unfold UInt32.size; omega)]
  rw [hset, Finset.card_image_of_injOn, Finset.card_range]
  intro i hi j hj heq
  have hi : i < UInt32.size := lt_of_lt_of_le (Finset.mem_range.mp hi) hk
  have hj : j < UInt32.size := lt_of_lt_of_le (Finset.mem_range.mp hj) hk
  have heq := congrArg UInt32.toNat heq
  rwa [UInt32.toNat_ofNat_of_lt' hi, UInt32.toNat_ofNat_of_lt' hj] at heq

/-- Slot 0 of a committee of one is decided directly by what is left of `k` in a `u32`. -/
theorem CitedBelow.tryDirectDecide_iff (hd : CitedBelow blake3 k dag) (hk : k ≤ 2 ^ 32) {h : CertHash} :
    tryDirectDecide dag 0 1 = .direct h ↔ h = soleLeader.hash blake3 ∧ 1 ≤ UInt32.ofNat k := by
  have hcert : certAt dag 0 (leader 0 1) = some (soleLeader.hash blake3) := by
    refine (certAt_eq_some_iff hd.reachable.wellFormed).mpr
      ⟨⟨soleLeader, (hd.holds _ _).mpr ⟨rfl, .inl rfl⟩, rfl, rfl⟩, ?_⟩
    intro j c hget hround _
    obtain ⟨rfl, hc⟩ := (hd.holds _ _).mp hget
    rcases hc with rfl | ⟨a, -, rfl⟩
    · exact le_rfl
    · exact absurd hround (by simp [citation])
  rw [tryDirectDecide_eq_direct_iff, hcert, Option.some.injEq]
  constructor
  · rintro ⟨rfl, hq⟩
    rw [show (0 : Round) + 1 = 1 from rfl, hd.card_supporters hk] at hq
    exact ⟨rfl, hq⟩
  · rintro ⟨rfl, hq⟩
    refine ⟨rfl, ?_⟩
    rw [show (0 : Round) + 1 = 1 from rfl, hd.card_supporters hk]
    exact hq

/-- No certificate is above round 1, so there is no anchor for slot 0. -/
theorem CitedBelow.no_anchor (hd : CitedBelow blake3 k dag) {R : Round} {a : CertHash} (hR : 2 ≤ R) :
    tryDirectDecide dag R 1 ≠ .direct a := by
  intro hanchor
  obtain ⟨⟨c, hget, hround, -⟩, -⟩ :=
    (certAt_eq_some_iff hd.reachable.wellFormed).mp (tryDirectDecide_eq_direct_iff.mp hanchor).1
  have hlow : c.round = 0 ∨ c.round = 1 := by
    rcases ((hd.holds a c).mp hget).2 with rfl | ⟨b, -, rfl⟩
    · exact .inl rfl
    · exact .inr rfl
  rw [← hround] at hR
  rcases hlow with h | h <;> rw [h] at hR <;> exact absurd hR (by decide)

/-- **A committed slot is undecided by its last supporter**: whatever the hash, if it does not
    collide on these certificates, slot 0 is committed with one citation and undecided with all. -/
theorem undecided_by_all_ids (hcol : NoCollision blake3 (FullRound blake3)) :
    ∃ dag dag', dag.Reachable blake3 ∧ DagStore.Extends blake3 dag dag' ∧ OnePerSlot dag' ∧
      decideSlot dag 0 1 = .direct (soleLeader.hash blake3) ∧ decideSlot dag' 0 1 = .undecided := by
  obtain ⟨dag₀, hd₀⟩ := @exists_citedBelow_zero blake3
  obtain ⟨dag, -, hd⟩ := hd₀.next hcol (by norm_num)
  obtain ⟨dag', he, hd'⟩ := hd.rest hcol (2 ^ 32 - 1) (by norm_num)
  refine ⟨dag, dag', hd.reachable, he, hd'.onePerSlot, ?_, ?_⟩
  · exact decideSlot_of_tryDirectDecide ((hd.tryDirectDecide_iff (by norm_num)).mpr ⟨rfl, by decide⟩)
  · refine (decideSlot_eq_undecided_iff hd'.reachable.wellFormed).mpr
      ⟨?_, fun R a hR => hd'.no_anchor hR⟩
    cases hdir : tryDirectDecide dag' 0 1 with
    | undecided => rfl
    | skip => exact absurd hdir tryDirectDecide_ne_skip
    | direct h =>
      -- `2^32 as u32` is not at least one
      exact absurd ((hd'.tryDirectDecide_iff (by norm_num)).mp hdir).2 (by decide)

end FullRound

/-- A hash that reads the author out of a citation, and tells the leader by its length. -/
def authorHash (bytes : List UInt8) : Bytes32 :=
  if bytes.length = 63 then 0 else BitVec.ofNat 256 (ofBeBytes ((bytes.drop 15).take 4) + 1)

theorem authorHash_citation (a : AuthorityId) :
    authorHash (citation authorHash a).encode = BitVec.ofNat 256 (a.toNat + 1) := by
  have hlen : (citation authorHash a).encode.length = 95 := by
    simp only [Certificate.encode, citation, List.length_append, length_beBytes,
      length_flatMap_beBytes32]
    decide
  have hauthor : ((citation authorHash a).encode.drop 15).take 4 = beBytes 4 a.toNat := by
    simp only [Certificate.encode, citation, List.append_assoc]
    rw [List.drop_left' (by decide), List.take_left' (length_beBytes 4 _)]
  have hmod : a.toNat % 256 ^ 4 = a.toNat := Nat.mod_eq_of_lt (by have := a.toNat_lt; omega)
  rw [authorHash, hlen, if_neg (by decide), hauthor, ofBeBytes_beBytes, hmod]

theorem authorHash_noCollision : NoCollision authorHash (FullRound authorHash) := by
  have hleader : authorHash soleLeader.encode = 0 := by decide
  have hsmall : ∀ a : AuthorityId, a.toNat + 1 < 2 ^ 256 := by
    intro a; have := a.toNat_lt; omega
  have hnonzero : ∀ a : AuthorityId, BitVec.ofNat 256 (a.toNat + 1) ≠ 0 := by
    intro a h
    have := congrArg BitVec.toNat h
    rw [BitVec.toNat_ofNat, Nat.mod_eq_of_lt (hsmall a)] at this
    simp at this
  rintro c d (rfl | ⟨a, rfl⟩) (rfl | ⟨b, rfl⟩) h
  · rfl
  · rw [hleader, authorHash_citation] at h
    exact absurd h.symm (hnonzero b)
  · rw [hleader, authorHash_citation] at h
    exact absurd h (hnonzero a)
  · rw [authorHash_citation, authorHash_citation] at h
    have hnat := congrArg BitVec.toNat h
    rw [BitVec.toNat_ofNat, BitVec.toNat_ofNat, Nat.mod_eq_of_lt (hsmall a),
      Nat.mod_eq_of_lt (hsmall b)] at hnat
    rw [UInt32.toNat_inj.mp (Nat.succ.inj hnat)]

/-- The assumption on the hash can be met, and under it the last of the `2^32` citations takes slot 0
    from committed back to undecided. -/
theorem last_supporter_undecides :
    NoCollision authorHash (FullRound authorHash) ∧
      ∀ blake3, NoCollision blake3 (FullRound blake3) → ∃ dag dag', dag.Reachable blake3 ∧
        DagStore.Extends blake3 dag dag' ∧ OnePerSlot dag' ∧
        ¬ decideSlot dag 0 1 ≤ decideSlot dag' 0 1 := by
  refine ⟨authorHash_noCollision, fun blake3 hcol => ?_⟩
  obtain ⟨dag, dag', hreach, hext, hone, hd, hd'⟩ := undecided_by_all_ids hcol
  refine ⟨dag, dag', hreach, hext, hone, ?_⟩
  rw [hd, hd', LeaderStatus.direct_le_iff]
  simp

end SuwappuDag.Consensus
