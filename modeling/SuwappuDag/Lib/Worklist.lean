/-
  THE WORKLIST SEARCH — the set reached from a start by following successors.

  1. **Program** — `visit next fuel queue seen`: pop the front of the queue; a value already seen is
     dropped, a new one is marked and its successors go to the back of the queue.
  2. **Specification** — `Reaches next`: the reflexive transitive closure of "is a successor of".
  3. **Termination (`visits_visit`)** — enough fuel is one pop per value ever queued: the start, and the
     successors of each value that has any.  The measure `pending` (queue plus the successor lists still
     to be pushed) drops by one at every pop.
  4. **Correctness (`Visits.mem_iff`)** — the loop without fuel ends with EXACTLY what is reached.  Its
     invariant is `Frontier`: whatever a seen value points at is seen or queued.
-/
import Mathlib

namespace SuwappuDag.Worklist

variable {α : Type*} [DecidableEq α]

def visit (next : α → List α) : Nat → List α → List α → List α
  | 0, _, seen => seen
  | _ + 1, [], seen => seen
  | fuel + 1, x :: queue, seen =>
    if x ∈ seen then visit next fuel queue seen
    else visit next fuel (queue ++ next x) (x :: seen)

/-- The loop without fuel: from the queue and what was seen it ends with `r`. -/
inductive Visits (next : α → List α) : List α → List α → List α → Prop
  | done (seen : List α) : Visits next [] seen seen
  | drop {x : α} {queue seen r : List α} : x ∈ seen → Visits next queue seen r →
    Visits next (x :: queue) seen r
  | mark {x : α} {queue seen r : List α} : x ∉ seen → Visits next (queue ++ next x) (x :: seen) r →
    Visits next (x :: queue) seen r

/-- `y` is reached from `x` by following successors. -/
def Reaches (next : α → List α) : α → α → Prop := Relation.ReflTransGen fun a b => b ∈ next a

/-- The loop invariant: a successor of a seen value is seen or still queued. -/
def Frontier (next : α → List α) (queue seen : List α) : Prop :=
  ∀ x ∈ seen, ∀ y ∈ next x, y ∈ seen ∨ y ∈ queue

/-- Pops still to come: the queue, and what the unseen values of `V` would push. -/
def pending (next : α → List α) (V : Finset α) (queue seen : List α) : Nat :=
  queue.length + ∑ x ∈ V with x ∉ seen, (next x).length

/-- Marking `x` moves its successors from the "still to be pushed" part into the queue. -/
theorem pending_mark {next : α → List α} {V : Finset α} (hV : ∀ x, x ∉ V → next x = [])
    {x : α} {queue seen : List α} (hx : x ∉ seen) :
    pending next V (queue ++ next x) (x :: seen) + 1 = pending next V (x :: queue) seen := by
  have hsum : (∑ y ∈ V with y ∉ seen, (next y).length)
      = (next x).length + ∑ y ∈ V with y ∉ x :: seen, (next y).length := by
    by_cases hxV : x ∈ V
    · have herase : (V.filter fun y => y ∉ x :: seen) = (V.filter fun y => y ∉ seen).erase x := by
        ext y
        simp only [Finset.mem_filter, List.mem_cons, Finset.mem_erase]
        tauto
      rw [herase]
      exact (Finset.add_sum_erase _ _ (by simp [hxV, hx])).symm
    · have hsame : (V.filter fun y => y ∉ x :: seen) = V.filter fun y => y ∉ seen := by
        ext y
        simp only [Finset.mem_filter, List.mem_cons]
        constructor
        · rintro ⟨hy, hn⟩; exact ⟨hy, fun h => hn (.inr h)⟩
        · rintro ⟨hy, hn⟩
          refine ⟨hy, ?_⟩
          rintro (rfl | h)
          · exact hxV hy
          · exact hn h
      rw [hsame, hV x hxV]; simp
  simp only [pending, hsum, List.length_append, List.length_cons]
  omega

omit [DecidableEq α] in
theorem frontier_mark {next : α → List α} {x : α} {queue seen : List α}
    (hf : Frontier next (x :: queue) seen) : Frontier next (queue ++ next x) (x :: seen) := by
  intro y hy z hz
  rcases List.mem_cons.mp hy with rfl | hy
  · exact .inr (List.mem_append_right _ hz)
  · rcases hf y hy z hz with h | h
    · exact .inl (List.mem_cons_of_mem _ h)
    · rcases List.mem_cons.mp h with rfl | h
      · exact .inl List.mem_cons_self
      · exact .inr (List.mem_append_left _ h)

/-- With fuel for every pop to come, the loop ends. -/
theorem visits_visit_of_pending {next : α → List α} {V : Finset α} (hV : ∀ x, x ∉ V → next x = []) :
    ∀ (fuel : Nat) (queue seen : List α), pending next V queue seen ≤ fuel →
      Visits next queue seen (visit next fuel queue seen)
  | 0, [], seen, _ => .done seen
  | 0, x :: queue, seen, hfuel => by
    simp [pending] at hfuel
  | _ + 1, [], seen, _ => .done seen
  | fuel + 1, x :: queue, seen, hfuel => by
    rw [visit]
    split
    · next hx =>
      refine .drop hx (visits_visit_of_pending hV fuel queue seen ?_)
      simp only [pending, List.length_cons] at hfuel ⊢
      omega
    · next hx =>
      have hlt : pending next V (queue ++ next x) (x :: seen) + 1 = _ := pending_mark hV hx
      exact .mark hx (visits_visit_of_pending hV fuel _ _ (by omega))

/-- From one start, the start and every successor list are all there is to pop. -/
theorem visits_visit {next : α → List α} {V : Finset α} (hV : ∀ x, x ∉ V → next x = []) (start : α) :
    Visits next [start] [] (visit next (1 + ∑ x ∈ V, (next x).length) [start] []) :=
  visits_visit_of_pending hV _ _ _ (by simp [pending])

namespace Visits

omit [DecidableEq α]

variable {next : α → List α} {queue seen r : List α}

/-- What the loop ends with holds all that was seen or queued, and is closed under successors. -/
theorem closed (h : Visits next queue seen r) (hf : Frontier next queue seen) :
    (∀ x, x ∈ seen ∨ x ∈ queue → x ∈ r) ∧ ∀ x ∈ r, ∀ y ∈ next x, y ∈ r := by
  induction h with
  | done seen => exact ⟨fun x hx => by simpa using hx, fun x hx y hy => by simpa using hf x hx y hy⟩
  | @drop x queue seen r hx _ ih =>
    have hsame : ∀ y, y ∈ seen ∨ y ∈ x :: queue → y ∈ seen ∨ y ∈ queue := by
      rintro y (hy | hy)
      · exact .inl hy
      · rcases List.mem_cons.mp hy with rfl | hy
        · exact .inl hx
        · exact .inr hy
    obtain ⟨hin, hcl⟩ := ih fun y hy z hz => hsame z (hf y hy z hz)
    exact ⟨fun y hy => hin y (hsame y hy), hcl⟩
  | @mark x queue seen r hx _ ih =>
    obtain ⟨hin, hcl⟩ := ih (frontier_mark hf)
    refine ⟨fun y hy => hin y ?_, hcl⟩
    simp only [List.mem_cons, List.mem_append] at hy ⊢
    tauto

/-- Whatever the loop ends with was seen, or is reached from the queue. -/
theorem sound (h : Visits next queue seen r) :
    ∀ y ∈ r, y ∈ seen ∨ ∃ x ∈ queue, Reaches next x y := by
  induction h with
  | done seen => exact fun y hy => .inl hy
  | drop hx _ ih =>
    exact fun y hy => (ih y hy).imp_right fun ⟨z, hz, hr⟩ => ⟨z, List.mem_cons_of_mem _ hz, hr⟩
  | @mark x queue seen r hx _ ih =>
    intro y hy
    rcases ih y hy with h | ⟨z, hz, hr⟩
    · rcases List.mem_cons.mp h with rfl | h
      · exact .inr ⟨y, List.mem_cons_self, .refl⟩
      · exact .inl h
    · rcases List.mem_append.mp hz with hz | hz
      · exact .inr ⟨z, List.mem_cons_of_mem _ hz, hr⟩
      · exact .inr ⟨x, List.mem_cons_self, .head hz hr⟩

/-- **The search is exact.** -/
theorem mem_iff {start : α} (h : Visits next [start] [] r) (y : α) : y ∈ r ↔ Reaches next start y := by
  constructor
  · intro hy
    rcases h.sound y hy with h | ⟨x, hx, hr⟩
    · cases h
    · rwa [List.mem_singleton.mp hx] at hr
  · intro hr
    obtain ⟨hin, hcl⟩ := h.closed fun x hx => by cases hx
    induction hr with
    | refl => exact hin start (.inr List.mem_cons_self)
    | tail _ hstep ih => exact hcl _ ih _ hstep

/-- No value is marked twice. -/
theorem nodup (h : Visits next queue seen r) (hseen : seen.Nodup) : r.Nodup := by
  induction h with
  | done seen => exact hseen
  | drop hx _ ih => exact ih hseen
  | mark hx _ ih => exact ih (List.nodup_cons.mpr ⟨hx, hseen⟩)

end Visits

end SuwappuDag.Worklist
