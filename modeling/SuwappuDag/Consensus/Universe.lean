/-
  THE STORE OF A UNIVERSE of certificates.

  Nodes hold different parts of one finite universe, in different insertion orders.  Inserted lowest
  round first, the universe has ONE store (`universeStore`) that every such part is a part of
  (`Reachable.sub_universeStore`): a certificate some node could insert has all its parents in the
  universe, at lower rounds.  Decisions and logs of two nodes are compared through that store.
-/
import SuwappuDag.Consensus.Finality

namespace SuwappuDag.Consensus

open Words

namespace DagStore

/-- Insert, ignoring a refusal. -/
def tryInsert (blake3 : List UInt8 → Bytes32) (dag : DagStore) (c : Certificate) : DagStore :=
  match dag.insert blake3 c with
  | .ok (_, dag') => dag'
  | .error _ => dag

def insertAll (blake3 : List UInt8 → Bytes32) (dag : DagStore) (cs : List Certificate) : DagStore :=
  cs.foldl (tryInsert blake3) dag

/-- The certificates of the universe, lowest round first. -/
def byRounds (U : List Certificate) : List Certificate :=
  U.insertionSort fun c d => c.round ≤ d.round

/-- Everything of the universe that can be inserted at all. -/
def universeStore (blake3 : List UInt8 → Bytes32) (U : List Certificate) : DagStore :=
  insertAll blake3 new (byRounds U)

variable {blake3 : List UInt8 → Bytes32} {dag : DagStore}

theorem extends_tryInsert (c : Certificate) : Extends blake3 dag (dag.tryInsert blake3 c) := by
  unfold tryInsert
  split
  · next h dag' hins => exact .single ⟨c, h, hins⟩
  · exact .refl

theorem extends_insertAll (cs : List Certificate) : Extends blake3 dag (insertAll blake3 dag cs) := by
  induction cs generalizing dag with
  | nil => exact .refl
  | cons c cs ih => exact (extends_tryInsert c).trans ih

theorem universeStore_reachable (U : List Certificate) : (universeStore blake3 U).Reachable blake3 :=
  extends_insertAll _

theorem get_tryInsert {c d : Certificate} {h : CertHash}
    (hd : (dag.tryInsert blake3 c).get h = some d) : dag.get h = some d ∨ d = c := by
  unfold tryInsert at hd
  split at hd
  · next k dag' hins =>
    obtain ⟨-, -, -, -, rfl⟩ := insert_ok_iff.mp hins
    rw [get_record] at hd
    split at hd
    · exact .inr (Option.some.inj hd).symm
    · exact .inl hd
  · exact .inl hd

theorem get_insertAll {cs : List Certificate} {d : Certificate} {h : CertHash}
    (hd : (insertAll blake3 dag cs).get h = some d) : dag.get h = some d ∨ d ∈ cs := by
  induction cs generalizing dag with
  | nil => exact .inl hd
  | cons c cs ih =>
    rcases ih hd with hd | hd
    · rcases get_tryInsert hd with hd | rfl
      · exact .inl hd
      · exact .inr List.mem_cons_self
    · exact .inr (List.mem_cons_of_mem _ hd)

theorem mem_of_get_universeStore {U : List Certificate} {d : Certificate} {h : CertHash}
    (hd : (universeStore blake3 U).get h = some d) : d ∈ U := by
  rcases get_insertAll hd with hd | hd
  · simp at hd
  · exact (List.perm_insertionSort _ U).mem_iff.mp hd

/-- The store has taken `c`, or holds another certificate under its hash. -/
theorem get_tryInsert_self {c : Certificate}
    (hpar : ∀ p ∈ c.parents, ∃ q, dag.get p = some q ∧ q.round < c.round)
    (hdup : ∀ d, dag.get (c.hash blake3) = some d → d = c) :
    (dag.tryInsert blake3 c).get (c.hash blake3) = some c := by
  have hgen := parents_eq_nil_of_lt hpar
  cases hget : dag.get (c.hash blake3) with
  | none =>
    rw [tryInsert, insert_ok_iff.mpr ⟨hgen, hpar, hget, rfl, rfl⟩]
    show (dag.record _ c).get _ = _
    rw [get_record, if_pos rfl]
  | some d =>
    obtain rfl := hdup d hget
    exact (extends_tryInsert d).get hget

/-- **Every part of the universe is a part of its store.** -/
theorem Reachable.sub_universeStore {U : List Certificate} (hr : dag.Reachable blake3)
    (hU : ∀ h c, dag.get h = some c → c ∈ U) (hcol : NoCollision blake3 (· ∈ U))
    (hone : ∀ c ∈ U, ∀ d ∈ U, c.author = d.author → c.round = d.round → c = d) :
    dag.Sub (universeStore blake3 U) := by
  have wf := hr.wellFormed
  -- by the round: the parents of a certificate are in the store, and went in before it
  suffices hall : ∀ r : Round, ∀ h c, dag.get h = some c → c.round = r →
      (universeStore blake3 U).get h = some c from fun h c hc => hall c.round h c hc rfl
  intro r
  induction r using WellFoundedLT.induction with
  | ind r ih =>
    rintro h c hc rfl
    obtain ⟨pre, post, hsplit⟩ := List.append_of_mem
      ((List.perm_insertionSort (fun c d : Certificate => c.round ≤ d.round) U).mem_iff.mpr (hU h c hc))
    have hsorted : (pre ++ c :: post).Pairwise fun c d => c.round ≤ d.round := by
      rw [← hsplit]
      exact List.pairwise_insertionSort _ U
    have hpost : ∀ d ∈ post, c.round ≤ d.round :=
      (List.pairwise_cons.mp (List.pairwise_append.mp hsorted).2.1).1
    have hstore : universeStore blake3 U =
        insertAll blake3 ((insertAll blake3 new pre).tryInsert blake3 c) post := by
      rw [universeStore, byRounds, hsplit, insertAll, List.foldl_append]
      rfl
    have hpar : ∀ p ∈ c.parents, ∃ q, (insertAll blake3 new pre).get p = some q ∧ q.round < c.round := by
      intro p hp
      obtain ⟨q, hq, hlt⟩ := wf.closed hc hp
      have hfull := ih q.round hlt p q hq rfl
      rw [hstore] at hfull
      rcases get_insertAll hfull with hbefore | hafter
      · rcases get_tryInsert hbefore with hbefore | rfl
        · exact ⟨q, hbefore, hlt⟩
        · exact absurd hlt (lt_irrefl _)
      · exact absurd hlt (not_lt.mpr (hpost q hafter))
    have hdup : ∀ d, (insertAll blake3 new pre).get (c.hash blake3) = some d → d = c := by
      intro d hd
      have hdU : d ∈ U := by
        rcases get_insertAll hd with hd | hd
        · simp at hd
        · exact (List.perm_insertionSort (fun c d : Certificate => c.round ≤ d.round) U).mem_iff.mp
            (hsplit ▸ List.mem_append_left _ hd)
      have hpre : (insertAll blake3 new pre).Reachable blake3 := extends_insertAll pre
      have hhash : d.hash blake3 = c.hash blake3 := hpre.wellFormed.hashed hd
      obtain ⟨ha, hround, -⟩ := encode_inj (hcol d c hdU (hU h c hc) hhash)
      exact hone d hdU c (hU h c hc) ha hround
    rw [hstore, ← wf.hashed hc]
    exact (extends_insertAll post).get (get_tryInsert_self hpar hdup)

end DagStore

end SuwappuDag.Consensus
