/-
  TASKS OVER ONE SHARED STATE, interleaved step by step.

  1. **Machine** — a list of tasks, each with its own program point, and the state they share.  A
     schedule names the task that moves next; a task moves by one `step` (what it does while it holds
     a lock).  Nothing else is assumed of the schedule.
  2. **Rely/guarantee (`Respects`)** — an invariant `I` of the shared state, a local assertion `L` of
     each task, and a guarantee `G` that every step gives and every `L` survives.  Then `I` and all
     the `L` hold along every schedule (`Respects.run`), and `G` holds across it (`Respects.across`).
  3. **One holder** — what tasks hold between two steps is counted with the state
     (`perm_filterMap_set`); where one task alone holds something, it is what that task holds
     (`filterMap_set_of_alone`).
  4. **Blocks (`Block`)** — `inside` marks the program points within a block, and `stepAtomic` runs a
     block in one step.  A schedule that lets nobody else move while a task is inside ends where a
     schedule of `stepAtomic` ends (`Block.simulation`).
-/
import Mathlib.Logic.Relation
import SuwappuDag.Lib.Runs

namespace SuwappuDag.Interleave

open Runs (Along)

variable {σ τ : Type}

structure Machine (σ τ : Type) where
  shared : σ
  tasks : List τ

/-- Task `i` moves; an index without a task does nothing. -/
def Machine.step (step : τ → σ → τ × σ) (m : Machine σ τ) (i : Nat) : Machine σ τ :=
  match m.tasks[i]? with
  | none => m
  | some t => ⟨(step t m.shared).2, m.tasks.set i (step t m.shared).1⟩

def Machine.run (step : τ → σ → τ × σ) (schedule : List Nat) (m : Machine σ τ) : Machine σ τ :=
  schedule.foldl (Machine.step step) m

theorem Machine.run_append (step : τ → σ → τ × σ) (first second : List Nat) (m : Machine σ τ) :
    m.run step (first ++ second) = (m.run step first).run step second := List.foldl_append

/-- `P` is asked of the task that is picked, in the state it finds. -/
def Picked (P : τ → σ → Prop) (m : Machine σ τ) (i : Nat) : Prop := ∀ t ∈ m.tasks[i]?, P t m.shared

instance decidablePicked (P : τ → σ → Prop) [∀ t s, Decidable (P t s)] (m : Machine σ τ) (i : Nat) :
    Decidable (Picked P m i) := Option.decidableForallMem _

theorem along_true (step : τ → σ → τ × σ) : ∀ (schedule : List Nat) (m : Machine σ τ),
    Along (Machine.step step) (Picked fun _ _ => True) schedule m := by
  intro schedule
  induction schedule with
  | nil => exact fun _ => trivial
  | cons i schedule ih => exact fun m => ⟨fun _ _ => trivial, ih _⟩

/-! ## Rely and guarantee -/

structure Respects (step : τ → σ → τ × σ) (P : τ → σ → Prop) (I : σ → Prop) (G : σ → σ → Prop)
    (L : τ → σ → Prop) : Prop where
  keep : ∀ {t s}, I s → L t s → P t s → I (step t s).2 ∧ L (step t s).1 (step t s).2
  guarantee : ∀ {t s}, I s → L t s → P t s → G s (step t s).2
  stable : ∀ {t s s'}, I s → L t s → G s s' → L t s'

namespace Respects

variable {step : τ → σ → τ × σ} {P : τ → σ → Prop} {I : σ → Prop} {G : σ → σ → Prop}
  {L : τ → σ → Prop}

/-- The invariant and all the local assertions. -/
def Holds (I : σ → Prop) (L : τ → σ → Prop) (m : Machine σ τ) : Prop :=
  I m.shared ∧ ∀ t ∈ m.tasks, L t m.shared

theorem machine_step (hr : Respects step P I G L) {m : Machine σ τ} {i : Nat} (hm : Holds I L m)
    (hp : Picked P m i) : Holds I L (m.step step i) := by
  unfold Machine.step
  split
  · exact hm
  next t ht =>
  have hlocal := hm.2 t (List.mem_of_getElem? ht)
  obtain ⟨hinv, hown⟩ := hr.keep hm.1 hlocal (hp t ht)
  refine ⟨hinv, fun u hu => ?_⟩
  rcases List.mem_or_eq_of_mem_set hu with hu | rfl
  · exact hr.stable hm.1 (hm.2 u hu) (hr.guarantee hm.1 hlocal (hp t ht))
  · exact hown

/-- **Along every schedule.** -/
theorem run (hr : Respects step P I G L) {schedule : List Nat} {m : Machine σ τ} (hm : Holds I L m)
    (hp : Along (Machine.step step) (Picked P) schedule m) : Holds I L (m.run step schedule) :=
  Along.invariant (fun _ _ hm hp => hr.machine_step hm hp) hm hp

/-- **Across a schedule**, for a guarantee that composes. -/
theorem across (hr : Respects step P I G L) (hrefl : ∀ s, G s s)
    (htrans : ∀ {s t u}, G s t → G t u → G s u) : ∀ {schedule : List Nat} {m : Machine σ τ},
    Holds I L m → Along (Machine.step step) (Picked P) schedule m →
      G m.shared (m.run step schedule).shared := by
  intro schedule
  induction schedule with
  | nil => exact fun _ _ => hrefl _
  | cons i schedule ih =>
    intro m hm hp
    refine htrans ?_ (ih (hr.machine_step hm hp.1) hp.2)
    unfold Machine.step
    split
    · exact hrefl _
    · next t ht => exact hr.guarantee hm.1 (hm.2 t (List.mem_of_getElem? ht)) (hp.1 t ht)

end Respects

/-! ## One holder -/

variable {i : Nat} {t : τ} {tasks : List τ} {β : Type}

/-- What the tasks hold, when one of them moves. -/
theorem perm_filterMap_set (f : τ → Option β) (ht : tasks[i]? = some t) (t' : τ) :
    ∃ others : List β, (tasks.filterMap f).Perm ((f t).toList ++ others) ∧
      ((tasks.set i t').filterMap f).Perm ((f t').toList ++ others) := by
  have hcons : ∀ (u : τ) (us : List τ), (u :: us).filterMap f = (f u).toList ++ us.filterMap f := by
    intro u us
    rw [List.filterMap_cons]
    cases f u with
    | none => rfl
    | some b => rfl
  induction tasks generalizing i with
  | nil => cases ht
  | cons u tasks ih =>
    cases i with
    | zero =>
      cases ht
      exact ⟨tasks.filterMap f, by rw [hcons], by rw [List.set_cons_zero, hcons]⟩
    | succ i =>
      obtain ⟨others, hbefore, hafter⟩ := ih ht
      have hmove : ∀ (xs : List β), ((f u).toList ++ (xs ++ others)).Perm
          (xs ++ ((f u).toList ++ others)) := fun xs => List.perm_append_comm_assoc _ _ _
      refine ⟨(f u).toList ++ others, ?_, ?_⟩
      · rw [hcons]
        exact (hbefore.append_left _).trans (hmove _)
      · rw [List.set_cons_succ, hcons]
        exact (hafter.append_left _).trans (hmove _)

/-- The same, entry by entry: the others hold what they held. -/
theorem mem_filterMap_set (f : τ → Option β) (ht : tasks[i]? = some t) (t' : τ) :
    ∃ others : List β, ∀ b, (b ∈ tasks.filterMap f ↔ f t = some b ∨ b ∈ others) ∧
      (b ∈ (tasks.set i t').filterMap f ↔ f t' = some b ∨ b ∈ others) := by
  obtain ⟨others, hbefore, hafter⟩ := perm_filterMap_set f ht t'
  refine ⟨others, fun b => ⟨?_, ?_⟩⟩
  · rw [hbefore.mem_iff, List.mem_append, Option.mem_toList]
  · rw [hafter.mem_iff, List.mem_append, Option.mem_toList]

/-- A move that leaves what the task holds. -/
theorem filterMap_set_of_eq (f : τ → Option β) {t t' : τ} (ht : tasks[i]? = some t)
    (hsame : f t' = f t) : (tasks.set i t').filterMap f = tasks.filterMap f := by
  have hmap : ∀ (l : List τ), l.filterMap f = (l.map f).filterMap id := by
    intro l
    rw [List.filterMap_map]
    rfl
  obtain ⟨hi, rfl⟩ := List.getElem?_eq_some_iff.mp ht
  rw [hmap, hmap, List.map_set, hsame, ← List.getElem_map f (h := by simpa using hi),
    List.set_getElem_self]

/-- At most one task holds something, and this one does. -/
theorem filterMap_eq_of_holder (f : τ → Option β) {b : β} (hone : (tasks.filterMap f).length ≤ 1)
    (ht : tasks[i]? = some t) (hheld : f t = some b) : tasks.filterMap f = [b] := by
  have hmem : b ∈ tasks.filterMap f := List.mem_filterMap.mpr ⟨t, List.mem_of_getElem? ht, hheld⟩
  rcases hall : tasks.filterMap f with _ | ⟨x, _ | ⟨y, rest⟩⟩
  · rw [hall] at hmem
    cases hmem
  · rw [hall, List.mem_singleton] at hmem
    rw [hmem]
  · rw [hall, List.length_cons, List.length_cons] at hone
    omega

/-- A move where nobody else holds anything. -/
theorem filterMap_set_of_alone (f : τ → Option β) (ht : tasks[i]? = some t) (t' : τ)
    (halone : tasks.filterMap f = (f t).toList) : (tasks.set i t').filterMap f = (f t').toList := by
  obtain ⟨others, hbefore, hafter⟩ := perm_filterMap_set f ht t'
  have hothers : others = [] := by
    have hlength := hbefore.length_eq
    rw [halone, List.length_append] at hlength
    exact List.length_eq_zero_iff.mp (by omega)
  rw [hothers, List.append_nil] at hafter
  cases hheld : f t' with
  | none =>
    rw [hheld] at hafter
    exact List.perm_nil.mp hafter
  | some b =>
    rw [hheld] at hafter
    exact List.perm_singleton.mp hafter

/-! ## A task alone -/

/-- One task moves on its own, from points that are `inside`. -/
def Through (step : τ → σ → τ × σ) (inside : τ → Bool) : τ × σ → τ × σ → Prop :=
  Relation.ReflTransGen fun c d => inside c.1 = true ∧ d = step c.1 c.2

namespace Through

variable {step : τ → σ → τ × σ} {inside : τ → Bool}

/-- One move, and on from where it leads. -/
theorem next {t : τ} {s : σ} {d : τ × σ} (ht : inside t = true)
    (h : Through step inside (step t s) d) : Through step inside (t, s) d := .head ⟨ht, rfl⟩ h

theorem trans {c d e : τ × σ} (h : Through step inside c d) (h' : Through step inside d e) :
    Through step inside c e := Relation.ReflTransGen.trans h h'

/-- The first move is forced. -/
theorem head {t : τ} {s : σ} {d : τ × σ} (h : Through step inside (t, s) d)
    (ht : inside t = true) (hd : inside d.1 = false) : Through step inside (step t s) d := by
  rcases h.cases_head with rfl | ⟨c, ⟨-, rfl⟩, h⟩
  · rw [ht] at hd
    cases hd
  · exact h

variable {c d : τ × σ}

/-- There is no move from outside. -/
theorem eq_of_outside (h : Through step inside c d) (hc : inside c.1 = false) : c = d := by
  rcases h.cases_head with rfl | ⟨_, ⟨hin, -⟩, -⟩
  · rfl
  · rw [hc] at hin
    cases hin

/-- A run of a part, as a run of the whole. -/
theorem lift {τ' : Type} {step' : τ' → σ → τ' × σ} {inside' : τ' → Bool} (wrap : τ → τ')
    (hstep : ∀ t s, inside t = true → inside' (wrap t) = true ∧
      step' (wrap t) s = (wrap (step t s).1, (step t s).2)) (h : Through step inside c d) :
    Through step' inside' (wrap c.1, c.2) (wrap d.1, d.2) := by
  induction h with
  | refl => exact .refl
  | @tail b _ _ hlast ih =>
    obtain ⟨hin, rfl⟩ := hlast
    obtain ⟨hin', heq⟩ := hstep b.1 b.2 hin
    exact ih.tail ⟨hin', heq.symm⟩

/-- A task alone keeps what it keeps among others. -/
theorem across {P : τ → σ → Prop} {I : σ → Prop} {G : σ → σ → Prop} {L : τ → σ → Prop}
    (hr : Respects step P I G L) (hp : ∀ t s, P t s) (hrefl : ∀ s, G s s)
    (htrans : ∀ {s t u}, G s t → G t u → G s u) (h : Through step inside c d) (hinv : I c.2)
    (hlocal : L c.1 c.2) : G c.2 d.2 := by
  suffices hall : I d.2 ∧ L d.1 d.2 ∧ G c.2 d.2 from hall.2.2
  induction h with
  | refl => exact ⟨hinv, hlocal, hrefl _⟩
  | tail _ hlast ih =>
    obtain ⟨hinv, hlocal, hacross⟩ := ih
    obtain ⟨hinv', hlocal'⟩ := hr.keep hinv hlocal (hp _ _)
    rw [hlast.2]
    exact ⟨hinv', hlocal', htrans hacross (hr.guarantee hinv hlocal (hp _ _))⟩

end Through

/-! ## Blocks -/

/-- `stepAtomic` runs a block in the step that enters it, and is `step` elsewhere. -/
structure Block (step stepAtomic : τ → σ → τ × σ) (inside : τ → Bool) : Prop where
  enter : ∀ {t s}, inside t = false → inside (step t s).1 = true →
    Through step inside (step t s) (stepAtomic t s) ∧ inside (stepAtomic t s).1 = false
  outside : ∀ {t s}, inside t = false → inside (step t s).1 = false → stepAtomic t s = step t s

/-- Nobody but the task that moves is inside a block. -/
def Uninterrupted (inside : τ → Bool) (m : Machine σ τ) (i : Nat) : Prop :=
  ∀ e ∈ m.tasks.zipIdx, inside e.1 = true → e.2 = i

instance decidableUninterrupted (inside : τ → Bool) (m : Machine σ τ) (i : Nat) :
    Decidable (Uninterrupted inside m i) := List.decidableBAll _ _

theorem Uninterrupted.eq {inside : τ → Bool} {m : Machine σ τ} {i j : Nat}
    (h : Uninterrupted inside m i) (ht : m.tasks[j]? = some t) (hin : inside t = true) : j = i :=
  h (t, j) (List.mem_zipIdx_iff_getElem?.mpr ht) hin

/-- Where the atomic machine stands: at the same place, or at the end of the one block under way. -/
def Ahead (step : τ → σ → τ × σ) (inside : τ → Bool) (m m' : Machine σ τ) : Prop :=
  (m' = m ∧ ∀ t ∈ m.tasks, inside t = false) ∨
    ∃ i t t', m.tasks[i]? = some t ∧ inside t = true ∧ inside t' = false ∧
      Through step inside (t, m.shared) (t', m'.shared) ∧ m'.tasks = m.tasks.set i t' ∧
      ∀ j u, m.tasks[j]? = some u → inside u = true → j = i

namespace Block

variable {step stepAtomic : τ → σ → τ × σ} {inside : τ → Bool}

theorem ahead_step (hb : Block step stepAtomic inside) {m m' : Machine σ τ} {j : Nat}
    (h : Ahead step inside m m') (hu : Uninterrupted inside m j) :
    Ahead step inside (m.step step j) m' ∨
      Ahead step inside (m.step step j) (m'.step stepAtomic j) := by
  unfold Machine.step
  cases hj : m.tasks[j]? with
  | none => exact .inl h
  | some t =>
  have hlt : j < m.tasks.length := (List.getElem?_eq_some_iff.mp hj).1
  have hself : ∀ u, (m.tasks.set j u)[j]? = some u := fun u => List.getElem?_set_self hlt
  -- whoever else is inside was inside before
  have hothers : ∀ k u u', (m.tasks.set j u')[k]? = some u → k ≠ j → m.tasks[k]? = some u := by
    intro k u u' hk hne
    rwa [List.getElem?_set_ne hne.symm] at hk
  rcases h with ⟨rfl, hout⟩ | ⟨i, u, u', hi, hin, hin', hthrough, htasks, hone⟩
  · right
    rw [hj]
    dsimp only
    have htout := hout t (List.mem_of_getElem? hj)
    cases henter : inside (step t m'.shared).1 with
    | false =>
      refine .inl ⟨by rw [hb.outside htout henter], fun v hv => ?_⟩
      rcases List.mem_or_eq_of_mem_set hv with hv | rfl
      · exact hout v hv
      · exact henter
    | true =>
      obtain ⟨hthrough, hend⟩ := hb.enter htout henter
      refine .inr ⟨j, _, _, hself _, henter, hend, hthrough, ?_, fun k v hk hv => ?_⟩
      · rw [List.set_set]
      · by_contra hne
        have := hout v (List.mem_of_getElem? (hothers k v _ hk hne))
        rw [hv] at this
        cases this
  · left
    -- the task inside is the one that moves
    obtain rfl : i = j := hu.eq hi hin
    rw [hj] at hi
    cases hi
    have hnext := hthrough.head hin hin'
    dsimp only
    cases hexit : inside (step t m.shared).1 with
    | true =>
      refine .inr ⟨i, _, u', hself _, hexit, hin', hnext, ?_, fun k v hk hv => ?_⟩
      · rw [htasks, List.set_set]
      · by_contra hne
        exact hne (hone k v (hothers k v _ hk hne) hv)
    | false =>
      have heq := hnext.eq_of_outside hexit
      refine .inl ⟨?_, fun v hv => ?_⟩
      · cases m' with
        | mk shared tasks => rw [heq]; exact congrArg (Machine.mk shared) htasks
      · obtain ⟨k, hk⟩ := List.mem_iff_getElem?.mp hv
        by_cases hki : k = i
        · subst hki
          rw [hself] at hk
          cases hk
          exact hexit
        · cases hv' : inside v with
          | false => rfl
          | true => exact absurd (hone k v (hothers k v _ hk hki) hv') hki

/-- **Uninterrupted blocks are atomic.** -/
theorem simulation (hb : Block step stepAtomic inside) : ∀ {schedule : List Nat} {m m' : Machine σ τ},
    Ahead step inside m m' → Along (Machine.step step) (Uninterrupted inside) schedule m →
      ∃ schedule', Ahead step inside (m.run step schedule) (m'.run stepAtomic schedule') := by
  intro schedule
  induction schedule with
  | nil => exact fun h _ => ⟨[], h⟩
  | cons j schedule ih =>
    intro m m' h ha
    rcases hb.ahead_step h ha.1 with h | h
    · exact ih h ha.2
    · obtain ⟨schedule', hrest⟩ := ih h ha.2
      exact ⟨j :: schedule', hrest⟩

end Block

end SuwappuDag.Interleave
