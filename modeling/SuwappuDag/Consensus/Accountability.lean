/-
  ACCOUNTABLE SAFETY of the joint quorum (`suwappu-consensus/src/joint.rs`).

  Two candidates that both have their quorums incriminate somebody, and the two functions of the
  source name enough of them.

  1. **Authorities** — two quorums of authors out of `n` share `2q − n`, and that is a third of the
     committee.  The function collects authors over the whole linearised store; `mem_citers` says which.
  2. **Validators** — two sets with more than two thirds of the stake share more than one third.
     `votingStake` is the stake of the SET of voters (`votingStake_eq_sum`), so duplicate votes and
     unknown voters do not count.  Below `2^127` no sum wraps.
  3. **Who is named** — the function intersects two sets of AUTHORS, so one certificate that cites
     both candidates is enough to name its author: `named_equivocated_iff` says exactly when every
     named author has two certificates to show.
-/
import SuwappuDag.Lib.MapSum
import SuwappuDag.Consensus.Joint
import SuwappuDag.Consensus.Persistence

namespace SuwappuDag.Consensus

open Words
open Std (ExtTreeMap)

/-! ## Authorities -/

section Authorities

variable {blake3 : List UInt8 → Bytes32} {dag : DagStore}

/-- `a` has a certificate at `round` that cites `candidate`. -/
def Cites (dag : DagStore) (candidate : CertHash) (round : Round) (a : AuthorityId) : Prop :=
  ∃ h c, dag.get h = some c ∧ c.round = round ∧ candidate ∈ c.parents ∧ c.author = a

theorem mem_citers (wf : dag.WellFormed blake3) {candidate : CertHash} {round : Round}
    {a : AuthorityId} : a ∈ citers dag candidate round ↔ Cites dag candidate round a := by
  simp only [citers, List.mem_toFinset, List.mem_map, List.mem_filter, List.mem_filterMap,
    decide_eq_true_eq]
  constructor
  · rintro ⟨c, ⟨⟨h, -, hget⟩, hround, hcites⟩, rfl⟩
    exact ⟨h, c, hget, hround, hcites, rfl⟩
  · rintro ⟨h, c, hget, hround, hcites, rfl⟩
    exact ⟨c, ⟨⟨h, wf.mem_linearize.mpr ⟨c, hget⟩, hget⟩, hround, hcites⟩, rfl⟩

theorem card_authorityEquivocators (wf : dag.WellFormed blake3) {n : CommitteeSize}
    (hn : AuthorsBelow n dag) {round : Round} {a b : CertHash} {A B : Finset AuthorityId}
    (hA : ∀ x ∈ A, Cites dag a round x) (hB : ∀ x ∈ B, Cites dag b round x) :
    A.card + B.card ≤ (authorityEquivocators dag a b round).card + n.toNat := by
  have hbelow : ∀ {candidate x}, Cites dag candidate round x → x ∈ committee n := by
    rintro candidate x ⟨h, c, hget, -, -, rfl⟩
    exact mem_committee.mpr (hn h c hget)
  have hshared : A ∩ B ⊆ authorityEquivocators dag a b round := by
    intro x hx
    obtain ⟨hxA, hxB⟩ := Finset.mem_inter.mp hx
    exact Finset.mem_inter.mpr ⟨(mem_citers wf).mpr (hA x hxA), (mem_citers wf).mpr (hB x hxB)⟩
  calc A.card + B.card
      ≤ (A ∩ B).card + (committee n).card :=
        Quorum.card_add_card_le (fun x hx => hbelow (hA x hx)) fun x hx => hbelow (hB x hx)
    _ ≤ (authorityEquivocators dag a b round).card + n.toNat :=
        Nat.add_le_add (Finset.card_le_card hshared) (card_committee n).le

end Authorities

/-! ## Validators -/

section Validators

variable (table : StakeTable)

/-- The loop counts each voter of the candidate once. -/
theorem countVotes_eq_sum (candidate : CertHash) : ∀ (votes : List Vote)
    (counted : Finset ValidatorId) (total : Stake),
    countVotes table candidate votes counted total =
      total + ∑ id ∈ voters candidate votes \ counted, table.weight id := by
  intro votes
  induction votes with
  | nil =>
    intro counted total
    simp [countVotes, voters]
  | cons v votes ih =>
    intro counted total
    rw [countVotes]
    by_cases hv : v.candidate = candidate
    · have hvoters : voters candidate (v :: votes) = insert v.validator (voters candidate votes) := by
        simp [voters, hv]
      rw [hvoters]
      by_cases hc : v.validator ∈ counted
      · rw [if_neg fun h => h.2 hc, ih, Finset.insert_sdiff_of_mem _ hc]
      · rw [if_pos ⟨hv, hc⟩, ih]
        have hset : insert v.validator (voters candidate votes) \ counted =
            insert v.validator (voters candidate votes \ insert v.validator counted) := by
          ext id
          simp only [Finset.mem_sdiff, Finset.mem_insert]
          by_cases hid : id = v.validator
          · simp [hid, hc]
          · simp [hid]
        rw [hset, Finset.sum_insert (by simp), add_assoc]
    · have hvoters : voters candidate (v :: votes) = voters candidate votes := by
        simp [voters, hv]
      rw [if_neg fun h => hv h.1, ih, hvoters]

theorem votingStake_eq_sum (candidate : CertHash) (votes : List Vote) :
    votingStake table candidate votes = ∑ id ∈ voters candidate votes, table.weight id := by
  rw [votingStake, countVotes_eq_sum, zero_add, Finset.sdiff_empty]

/-- The stake in the table as a number, before any wrapping. -/
def StakeTable.stake (table : StakeTable) : Nat := (table.toList.map fun e => e.2.toNat).sum

theorem StakeTable.sum_weight : ∑ id : ValidatorId, (table.weight id).toNat = table.stake :=
  MapSum.sum_getD_eq_sum_toList BitVec.toNat rfl table

theorem StakeTable.toNat_total (hstake : table.stake < 2 ^ 128) :
    table.total.toNat = table.stake := by
  rw [total, toNat_listSum]
  · rw [List.map_map]
    rfl
  · rw [List.map_map]
    exact hstake

/-- The stake of a set of voters does not wrap. -/
theorem StakeTable.toNat_sum_weight (hstake : table.stake < 2 ^ 128) (A : Finset ValidatorId) :
    (∑ id ∈ A, table.weight id).toNat = ∑ id ∈ A, (table.weight id).toNat := by
  refine toNat_finsetSum ?_
  calc ∑ id ∈ A, (table.weight id).toNat
      ≤ ∑ id : ValidatorId, (table.weight id).toNat :=
        Finset.sum_le_sum_of_subset (Finset.subset_univ A)
    _ < 2 ^ 128 := by rw [table.sum_weight]; exact hstake

/-- Below half of the range the threshold is the number it should be. -/
theorem toNat_validatorQuorumThreshold (hstake : table.stake < 2 ^ 127) :
    (validatorQuorumThreshold table).toNat = 2 * table.stake / 3 + 1 := by
  have htotal := table.toNat_total (by omega)
  have htwice : (2 * table.total : Stake).toNat = 2 * table.stake := by
    rw [BitVec.toNat_mul, htotal, Nat.mod_eq_of_lt]
    · rfl
    · show 2 * table.stake < 2 ^ 128
      omega
  have hdiv : (2 * table.total / 3 : Stake).toNat = 2 * table.stake / 3 := by
    rw [BitVec.toNat_udiv, htwice]
    rfl
  rw [validatorQuorumThreshold, BitVec.toNat_add, hdiv, Nat.mod_eq_of_lt]
  · rfl
  · show 2 * table.stake / 3 + 1 < 2 ^ 128
    omega

theorem lt_three_doubleVoteStake (hstake : table.stake < 2 ^ 127) {a b : CertHash} {votes : List Vote}
    (ha : validatorQuorumMet table a votes = true) (hb : validatorQuorumMet table b votes = true) :
    table.total.toNat < 3 * (validatorDoubleVoteStake table a b votes).toNat := by
  have hsum := table.toNat_sum_weight (by omega : table.stake < 2 ^ 128)
  -- each quorum, as a number
  have hquorum : ∀ {candidate}, validatorQuorumMet table candidate votes = true →
      2 * table.stake / 3 + 1 ≤ ∑ id ∈ voters candidate votes, (table.weight id).toNat := by
    intro candidate hmet
    have hle := BitVec.le_def.mp (of_decide_eq_true hmet)
    rwa [votingStake_eq_sum, hsum, toNat_validatorQuorumThreshold table hstake] at hle
  have hA := hquorum ha
  have hB := hquorum hb
  have hoverlap := Quorum.weight_add_weight_le (fun id => (table.weight id).toNat)
    (U := Finset.univ) (fun id hid => absurd (Finset.mem_univ id) hid) (voters a votes) (voters b votes)
  rw [table.sum_weight] at hoverlap
  rw [table.toNat_total (by omega), validatorDoubleVoteStake, hsum]
  omega

end Validators

/-! ## Both rings -/

/-- **Accountable joint-quorum safety.**  In a reachable store with all authors below `n`, two
    candidates cited by `q` authors each at one round have at least `2q − n`, a third of the committee,
    in common; and two candidates with the validator quorum have more than a third of the stake in
    common. -/
theorem accountable_joint_quorum {blake3 : List UInt8 → Bytes32} :
    (∀ (n : CommitteeSize) (dag : DagStore), 0 < n → dag.Reachable blake3 → AuthorsBelow n dag →
      ∀ (round : Round) (a b : CertHash), a ≠ b →
      (∃ A : Finset AuthorityId, (quorumThreshold n).toNat ≤ A.card ∧ ∀ x ∈ A, Cites dag a round x) →
      (∃ B : Finset AuthorityId, (quorumThreshold n).toNat ≤ B.card ∧ ∀ x ∈ B, Cites dag b round x) →
      2 * (quorumThreshold n).toNat - n.toNat ≤ (authorityEquivocators dag a b round).card ∧
        n.toNat ⌈/⌉ 3 ≤ 2 * (quorumThreshold n).toNat - n.toNat) ∧
    (∀ (table : StakeTable) (votes : List Vote) (a b : CertHash), table.stake < 2 ^ 127 → a ≠ b →
      validatorQuorumMet table a votes = true → validatorQuorumMet table b votes = true →
      table.total.toNat < 3 * (validatorDoubleVoteStake table a b votes).toNat) := by
  refine ⟨?_, ?_⟩
  · rintro n dag hn hreach hbelow round a b - ⟨A, hqA, hA⟩ ⟨B, hqB, hB⟩
    have hcard := card_authorityEquivocators hreach.wellFormed hbelow hA hB
    refine ⟨by omega, ?_⟩
    rw [toNat_quorumThreshold hn]
    exact Quorum.third_le_two_quorums n.toNat (UInt32.lt_iff_toNat_lt.mp hn)
  · intro table votes a b hstake _ ha hb
    exact lt_three_doubleVoteStake table hstake ha hb

/-- Both twins have three citers out of four: authority 1 cites both in one certificate, authority 2 in
    two. -/
def forkedRun : List (CertHash × Certificate) :=
  [twinA, twinB, citeA0, citeBoth, citeA2, citeB2, citeB3]

/-- Votes for both twins, with a duplicate and an unknown voter. -/
def forkedVotes : List Vote :=
  [⟨0, twinA.1⟩, ⟨1, twinA.1⟩, ⟨2, twinA.1⟩, ⟨2, twinA.1⟩, ⟨9, twinB.1⟩,
    ⟨1, twinB.1⟩, ⟨2, twinB.1⟩, ⟨3, twinB.1⟩]

def equalStakes : StakeTable :=
  ((((∅ : StakeTable).insert 0 25000).insert 1 25000).insert 2 25000).insert 3 25000

theorem accountable_joint_quorum_forked :
    2 ≤ (authorityEquivocators (DagStore.new.recordAll forkedRun) twinA.1 twinB.1 1).card ∧
      equalStakes.total.toNat <
        3 * (validatorDoubleVoteStake equalStakes twinA.1 twinB.1 forkedVotes).toNat := by
  obtain ⟨hauthorities, hvalidators⟩ := @accountable_joint_quorum Blake3.hash
  have hreach : (DagStore.new.recordAll forkedRun).Reachable Blake3.hash :=
    DagStore.extends_recordAll (by decide +kernel) (by decide +kernel)
  have hbelow : AuthorsBelow 4 (DagStore.new.recordAll forkedRun) := by
    intro h c hget
    have hall : ∀ p ∈ forkedRun, p.2.author < 4 := by decide
    exact hall _ (DagStore.mem_of_get_recordAll_new hget)
  have hA : ({0, 1, 2} : Finset AuthorityId) ⊆
      citers (DagStore.new.recordAll forkedRun) twinA.1 1 := by decide +kernel
  have hB : ({1, 2, 3} : Finset AuthorityId) ⊆
      citers (DagStore.new.recordAll forkedRun) twinB.1 1 := by decide +kernel
  have hne : twinA.1 ≠ twinB.1 := by decide
  refine ⟨(hauthorities 4 _ (by decide) hreach hbelow 1 _ _ hne
    ⟨_, by decide, fun x hx => (mem_citers hreach.wellFormed).mp (hA hx)⟩
    ⟨_, by decide, fun x hx => (mem_citers hreach.wellFormed).mp (hB hx)⟩).1, ?_⟩
  exact hvalidators equalStakes forkedVotes _ _ (by decide +kernel) hne (by decide +kernel)
    (by decide +kernel)

/-! ## Whether the named authors equivocated -/

section Named

variable {blake3 : List UInt8 → Bytes32} {dag : DagStore}

/-- `x` has two certificates at `round`, one citing `candA` and the other `candB`. -/
def Equivocated (dag : DagStore) (candA candB : CertHash) (round : Round) (x : AuthorityId) : Prop :=
  ∃ h c k d, dag.get h = some c ∧ dag.get k = some d ∧ h ≠ k ∧
    c.author = x ∧ d.author = x ∧ c.round = round ∧ d.round = round ∧
    candA ∈ c.parents ∧ candB ∈ d.parents

/-- The certificate `c`, stored under `h`, cites both candidates at `round`, and its author cites them
    in no other certificate of that round. -/
def CitesBothAlone (dag : DagStore) (candA candB : CertHash) (round : Round) (h : CertHash)
    (c : Certificate) : Prop :=
  dag.get h = some c ∧ c.round = round ∧ candA ∈ c.parents ∧ candB ∈ c.parents ∧
    ∀ k d, dag.get k = some d → d.round = round → d.author = c.author →
      (candA ∈ d.parents ∨ candB ∈ d.parents) → k = h

/-- **When the accusation holds**: every named author has two certificates, one for each candidate,
    iff no author cites both candidates in one certificate and neither in another. -/
theorem named_equivocated_iff (hr : dag.Reachable blake3) (candA candB : CertHash) (round : Round) :
    (∀ x ∈ authorityEquivocators dag candA candB round, Equivocated dag candA candB round x) ↔
      ∀ h c, ¬ CitesBothAlone dag candA candB round h c := by
  have wf := hr.wellFormed
  constructor
  · rintro hall h c ⟨hget, hround, hA, hB, halone⟩
    have hnamed : c.author ∈ authorityEquivocators dag candA candB round :=
      Finset.mem_inter.mpr ⟨(mem_citers wf).mpr ⟨h, c, hget, hround, hA, rfl⟩,
        (mem_citers wf).mpr ⟨h, c, hget, hround, hB, rfl⟩⟩
    obtain ⟨i, p, j, q, hp, hq, hne, hpa, hqa, hpr, hqr, hpA, hqB⟩ := hall _ hnamed
    exact hne ((halone i p hp hpr hpa (.inl hpA)).trans (halone j q hq hqr hqa (.inr hqB)).symm)
  · intro hnone x hx
    obtain ⟨hinA, hinB⟩ := Finset.mem_inter.mp hx
    obtain ⟨i, p, hp, hpr, hpA, hpx⟩ := (mem_citers wf).mp hinA
    obtain ⟨j, q, hq, hqr, hqB, hqx⟩ := (mem_citers wf).mp hinB
    by_cases hij : i = j
    · -- one certificate cites both: the author has another one beside it
      subst hij
      rw [hp] at hq; cases hq
      have hmore : ∃ k d, dag.get k = some d ∧ d.round = round ∧ d.author = p.author ∧
          (candA ∈ d.parents ∨ candB ∈ d.parents) ∧ k ≠ i := by
        by_contra hsole
        refine hnone i p ⟨hp, hpr, hpA, hqB, fun k d hd hdr hda hcite => ?_⟩
        by_contra hki
        exact hsole ⟨k, d, hd, hdr, hda, hcite, hki⟩
      obtain ⟨k, d, hd, hdr, hda, hcite | hcite, hki⟩ := hmore
      · exact ⟨k, d, i, p, hd, hp, hki, hda.trans hpx, hpx, hdr, hpr, hcite, hqB⟩
      · exact ⟨i, p, k, d, hp, hd, hki.symm, hpx, hda.trans hpx, hpr, hdr, hpA, hcite⟩
    · exact ⟨i, p, j, q, hp, hq, hij, hpx, hqx, hpr, hqr, hpA, hqB⟩

end Named

/-- Authority 2 cites each twin in a certificate of its own. -/
def citedApart : List (CertHash × Certificate) := [twinA, twinB, citeA2, citeB2]

theorem named_equivocated_citedApart :
    2 ∈ authorityEquivocators (DagStore.new.recordAll citedApart) twinA.1 twinB.1 1 ∧
      ∀ x ∈ authorityEquivocators (DagStore.new.recordAll citedApart) twinA.1 twinB.1 1,
        Equivocated (DagStore.new.recordAll citedApart) twinA.1 twinB.1 1 x := by
  have hreach : (DagStore.new.recordAll citedApart).Reachable Blake3.hash :=
    DagStore.extends_recordAll (by decide +kernel) (by decide +kernel)
  have hapart : ∀ p ∈ citedApart, ¬ (twinA.1 ∈ p.2.parents ∧ twinB.1 ∈ p.2.parents) := by
    decide +kernel
  refine ⟨by decide +kernel, (named_equivocated_iff hreach twinA.1 twinB.1 1).mpr ?_⟩
  rintro h c ⟨hget, -, hA, hB, -⟩
  exact hapart (h, c) (DagStore.mem_of_get_recordAll_new hget) ⟨hA, hB⟩

/-- Authority 1 signs one certificate, and it cites both twins. -/
def citedTogether : List (CertHash × Certificate) := [twinA, twinB, citeBoth]

/-- **An author with a single certificate at the round is named.** -/
theorem single_certificate_named :
    (DagStore.new.recordAll citedTogether).Reachable Blake3.hash ∧ twinA.1 ≠ twinB.1 ∧
      1 ∈ authorityEquivocators (DagStore.new.recordAll citedTogether) twinA.1 twinB.1 1 ∧
      ¬ Equivocated (DagStore.new.recordAll citedTogether) twinA.1 twinB.1 1 1 := by
  have hone : ∀ p ∈ citedTogether, ∀ q ∈ citedTogether, p.2.author = 1 → q.2.author = 1 → p.1 = q.1 := by
    decide +kernel
  refine ⟨DagStore.extends_recordAll (by decide +kernel) (by decide +kernel), by decide,
    by decide +kernel, ?_⟩
  rintro ⟨h, c, k, d, hc, hd, hne, hca, hda, -⟩
  exact hne (hone (h, c) (DagStore.mem_of_get_recordAll_new hc) (k, d)
    (DagStore.mem_of_get_recordAll_new hd) hca hda)

end SuwappuDag.Consensus
