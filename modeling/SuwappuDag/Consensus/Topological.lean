/-
  ANCESTORS FIRST: `causal_history` and `finalize` are topological orders (`suwappu-consensus/src/commit.rs`).

  1. **Order** — `AncestorsFirst`: at every place of the list, all ancestors of what stands there stand
     before it.  `Ready log rest`: what is still to come finds its ancestors in the log or ahead of it in
     the rest.
  2. **Crux** — a history is sorted by round, so its ancestors come first in it (`ready_causalHistory`).
     Pushing what is not there yet keeps the order (`Ready.appendNew`), so a concatenation of histories
     has it, although a later slot may add certificates of lower rounds.
-/
import SuwappuDag.Consensus.Finality

namespace SuwappuDag.Consensus

open Words Emit
open Worklist (visit Visits Reaches)

/-- Whatever is in the log has its ancestors before it. -/
def AncestorsFirst (dag : DagStore) (log : List CertHash) : Prop :=
  ∀ before h after, log = before ++ h :: after → ∀ k ∈ causalHistory dag h, k ≠ h → k ∈ before

/-- The certificates of `rest` are stored, their ancestors in the log or before them. -/
def Ready (dag : DagStore) (log rest : List CertHash) : Prop :=
  ∀ before h after, rest = before ++ h :: after → (∃ cert, dag.get h = some cert) ∧
    ∀ k ∈ causalHistory dag h, k ≠ h → k ∈ log ∨ k ∈ before

variable {blake3 : List UInt8 → Bytes32} {dag dag' : DagStore} {log log' rest : List CertHash}

theorem Ready.nil : Ready dag log [] := by
  intro before h after heq
  cases before <;> cases heq

theorem Ready.tail {h : CertHash} (hr : Ready dag log (h :: rest)) (hlog : h ∈ log) :
    Ready dag log rest := by
  intro before k after heq
  obtain ⟨hstored, hanc⟩ := hr (h :: before) k after (by rw [heq]; rfl)
  refine ⟨hstored, fun a ha hne => ?_⟩
  rcases hanc a ha hne with hmem | hmem
  · exact .inl hmem
  · rcases List.mem_cons.mp hmem with rfl | hmem
    · exact .inl hlog
    · exact .inr hmem

/-- The head finds its ancestors in the log. -/
theorem Ready.head {h : CertHash} (hr : Ready dag log (h :: rest)) :
    ∀ k ∈ causalHistory dag h, k ≠ h → k ∈ log := by
  intro k hk hne
  rcases (hr [] h rest rfl).2 k hk hne with hmem | hmem
  · exact hmem
  · cases hmem

/-- Stored certificates have the same ancestors in a larger store. -/
theorem Ready.mono (hr : Ready dag log rest) (wf : dag.WellFormed blake3)
    (hext : DagStore.Extends blake3 dag dag') (hlog : log ⊆ log') : Ready dag' log' rest := by
  intro before h after heq
  obtain ⟨⟨cert, hcert⟩, hanc⟩ := hr before h after heq
  have hsub : dag.Sub dag' := fun k c hk => hext.get hk
  refine ⟨⟨cert, hext.get hcert⟩, fun k hk hne => ?_⟩
  rw [hsub.causalHistory_eq wf (hext.wellFormed wf) hcert] at hk
  exact (hanc k hk hne).imp (@hlog k) id

/-- A history is sorted, so ancestors come first in it. -/
theorem ready_causalHistory (wf : dag.WellFormed blake3) (leaderHash : CertHash) :
    Ready dag log (causalHistory dag leaderHash) := by
  intro before h after heq
  have hmem : h ∈ causalHistory dag leaderHash := by
    rw [heq]
    exact List.mem_append_right _ List.mem_cons_self
  obtain ⟨⟨cert, hcert⟩, -⟩ := mem_causalHistory.mp hmem
  refine ⟨⟨cert, hcert⟩, fun k hk hne => .inr ?_⟩
  have hlt : dag.historyKey k < dag.historyKey h :=
    lt_of_le_of_ne (historyKey_le_of_mem wf hcert hk) fun h => hne (historyKey_injective h)
  have hkmem : k ∈ before ++ h :: after := heq ▸ causalHistory_subset hmem hk
  have hsorted := @causalHistory_sorted dag leaderHash
  rw [heq] at hsorted
  rcases List.mem_append.mp hkmem with hkmem | hkmem
  · exact hkmem
  · rcases List.mem_cons.mp hkmem with rfl | hkmem
    · exact absurd rfl hne
    · have habove := (List.pairwise_cons.mp (List.pairwise_append.mp hsorted).2.1).1 k hkmem
      exact absurd hlt (lt_asymm habove)

/-- An ancestor of the first certificate comes too late. -/
theorem not_ancestorsFirst {h k : CertHash} (after : List CertHash) (hlog : log = h :: after)
    (hk : k ∈ causalHistory dag h) (hne : k ≠ h) : ¬ AncestorsFirst dag log := by
  intro ha
  cases ha [] h after hlog k hk hne

theorem AncestorsFirst.mono (ha : AncestorsFirst dag log) (wf : dag.WellFormed blake3)
    (hext : DagStore.Extends blake3 dag dag') (hstored : ∀ h ∈ log, ∃ cert, dag.get h = some cert) :
    AncestorsFirst dag' log := by
  intro before h after heq k hk hne
  obtain ⟨cert, hcert⟩ := hstored h (by rw [heq]; exact List.mem_append_right _ List.mem_cons_self)
  have hsub : dag.Sub dag' := fun k c hk => hext.get hk
  rw [hsub.causalHistory_eq wf (hext.wellFormed wf) hcert] at hk
  exact ha before h after heq k hk hne

theorem AncestorsFirst.append (ha : AncestorsFirst dag log) {h : CertHash}
    (hanc : ∀ k ∈ causalHistory dag h, k ≠ h → k ∈ log) : AncestorsFirst dag (log ++ [h]) := by
  intro before k after heq
  rcases List.eq_nil_or_concat after with rfl | ⟨after, last, rfl⟩
  · obtain ⟨rfl, hk⟩ := List.append_inj' heq rfl
    cases hk
    exact hanc
  · have heq : log ++ [h] = (before ++ k :: after) ++ [last] := by
      rw [heq, List.concat_eq_append, List.append_assoc, List.cons_append]
    exact ha before k after (List.append_inj' heq rfl).1


/-! ## The two orders -/

/-- Pushing a history onto a log that has the order keeps the order. -/
theorem Ready.appendNew (wf : dag.WellFormed blake3) (hr : Ready dag log rest)
    (ha : AncestorsFirst dag log) : AncestorsFirst dag (appendNew log rest) := by
  induction rest generalizing log with
  | nil => exact ha
  | cons h rest ih =>
    rw [appendNew_cons]
    split
    · next hmem => exact ih (hr.tail hmem) ha
    · have hgrown : Ready dag (log ++ [h]) (h :: rest) := hr.mono wf .refl (List.subset_append_left _ _)
      exact ih (hgrown.tail (by simp)) (ha.append hr.head)

theorem ancestorsFirst_emit (wf : dag.WellFormed blake3) (ha : AncestorsFirst dag log)
    (leaders : List CertHash) : AncestorsFirst dag (emit (causalHistory dag) log leaders) := by
  induction leaders generalizing log with
  | nil => exact ha
  | cons h leaders ih => exact ih ((ready_causalHistory wf h).appendNew wf ha)

theorem ancestorsFirst_nil : AncestorsFirst dag [] := by
  intro before h after heq
  cases before <;> cases heq

/-- `l` lists each of the certificates with `P` once, each after all of its ancestors. -/
structure TopologicalOrder (dag : DagStore) (P : CertHash → Prop) (l : List CertHash) : Prop where
  once : l.Nodup
  exact : ∀ h, h ∈ l ↔ P h
  first : ∀ before h after, l = before ++ h :: after →
    ∀ k, Reaches dag.parentsOf h k → k ≠ h → k ∈ before

theorem AncestorsFirst.topologicalOrder (wf : dag.WellFormed blake3) (ha : AncestorsFirst dag log)
    (hnodup : log.Nodup) {P : CertHash → Prop} (hmem : ∀ h, h ∈ log ↔ P h)
    (hstored : ∀ h ∈ log, ∃ cert, dag.get h = some cert) : TopologicalOrder dag P log where
  once := hnodup
  exact := hmem
  first before h after heq k hk hne := by
    obtain ⟨cert, hcert⟩ := hstored h (by simp [heq])
    exact ha before h after heq k ((mem_causalHistory_iff wf hcert).mpr hk) hne

/-- **Both are exact topological orders**, in every store reached by inserts: the walk of
    `causal_history` ends and lists the ancestors of its start; `finalize` lists the ancestors of the
    leaders of the slots below the last round that are decided. -/
theorem topological_orders {blake3 : List UInt8 → Bytes32} {dag : DagStore}
    (hr : dag.Reachable blake3) (n : CommitteeSize) :
    (∀ start cert, dag.get start = some cert →
      Visits dag.parentsOf [start] [] (visit dag.parentsOf dag.historyFuel [start] []) ∧
      TopologicalOrder dag (Reaches dag.parentsOf start) (causalHistory dag start)) ∧
    TopologicalOrder dag (fun h => ∃ m r leaderHash, dag.maxRound = some m ∧ r < m ∧
      decideSlot dag r n = .direct leaderHash ∧ Reaches dag.parentsOf leaderHash h) (finalize dag n) := by
  have wf := hr.wellFormed
  constructor
  · intro start cert hcert
    refine ⟨visits_history dag start, AncestorsFirst.topologicalOrder wf ?_ (causalHistory_nodup start)
      (fun h => mem_causalHistory_iff wf hcert) fun h hh => (mem_causalHistory.mp hh).1⟩
    intro before h after heq k hk hne
    have hready : Ready dag [] (causalHistory dag start) := ready_causalHistory wf start
    exact ((hready before h after heq).2 k hk hne).resolve_left List.not_mem_nil
  · have hmem : ∀ h, h ∈ finalize dag n ↔ ∃ leaderHash ∈ committedLeaders dag n,
        h ∈ causalHistory dag leaderHash := by
      intro h
      rw [finalize_eq_emit, mem_emit, or_iff_right List.not_mem_nil]
    have hfirst : AncestorsFirst dag (finalize dag n) := by
      rw [finalize_eq_emit]
      exact ancestorsFirst_emit wf ancestorsFirst_nil _
    have hnodup : (finalize dag n).Nodup := finalize_eq_emit dag n ▸ emit_nodup List.nodup_nil
    refine hfirst.topologicalOrder wf hnodup (fun h => (hmem h).trans ?_) fun h hh => ?_
    · unfold committedLeaders
      constructor
      · rintro ⟨leaderHash, hin, hh⟩
        split at hin
        · cases hin
        next m hm =>
        obtain ⟨r, hlt, hd⟩ := mem_leadersBelow.mp hin
        exact ⟨m, r, leaderHash, hm, hlt, hd, (mem_causalHistory.mp hh).2⟩
      · rintro ⟨m, r, leaderHash, hm, hlt, hd, hh⟩
        obtain ⟨cert, hcert, -⟩ := decided_stored wf hd
        rw [hm]
        exact ⟨leaderHash, mem_leadersBelow.mpr ⟨r, hlt, hd⟩, (mem_causalHistory_iff wf hcert).mpr hh⟩
    · obtain ⟨leaderHash, -, hh⟩ := (hmem h).mp hh
      exact (mem_causalHistory.mp hh).1

theorem topological_orders_lateSlot : lateSlotStore.Reachable Blake3.hash ∧
    finalize lateSlotStore 4 = [root1.1, first1.1] ∧
    TopologicalOrder lateSlotStore (fun h => ∃ m r leaderHash, lateSlotStore.maxRound = some m ∧ r < m ∧
      decideSlot lateSlotStore r 4 = .direct leaderHash ∧
      Reaches lateSlotStore.parentsOf leaderHash h) (finalize lateSlotStore 4) :=
  ⟨lateSlotStore_reachable, by decide +kernel, (topological_orders lateSlotStore_reachable 4).2⟩

end SuwappuDag.Consensus
