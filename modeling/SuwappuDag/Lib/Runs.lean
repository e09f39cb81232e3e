/-
  RUNS, step by step.

  1. **Runs** — a run applies one event after the other to a state.  `Along step P` says that every
     event meets `P` in the state it FINDS; an invariant needs to survive such events only
     (`Along.invariant`), and may be used to show that they meet more (`Along.imp`).
  2. **Histories** — a history lists what happened, oldest first.  `Chronicle Q` says that every entry
     stands in the relation `Q` to its past: "not twice", "only after", "above all earlier ones".
  3. **Guards** — a guard lets an event use a key only where the key is not marked, marks it then, and
     never takes a mark back.  Where marks reach down along an order, keys are used in increasing
     order (`ToldApart.increasing`).
-/
import Mathlib.Data.List.Basic
import Mathlib.Order.Lattice

namespace SuwappuDag.Runs

variable {σ ε : Type} (step : σ → ε → σ)

/-- Every event of the run meets `P` in the state it finds. -/
def Along (P : σ → ε → Prop) : List ε → σ → Prop
  | [], _ => True
  | e :: es, s => P s e ∧ Along P es (step s e)

instance decidableAlong (P : σ → ε → Prop) [∀ s e, Decidable (P s e)] :
    ∀ (es : List ε) (s : σ), Decidable (Along step P es s)
  | [], _ => .isTrue trivial
  | e :: es, s => @instDecidableAnd _ _ _ (decidableAlong P es (step s e))

variable {step} {P : σ → ε → Prop}

/-- **The invariant rule.** -/
theorem Along.invariant {I : σ → Prop} (hstep : ∀ s e, I s → P s e → I (step s e)) :
    ∀ {es : List ε} {s : σ}, I s → Along step P es s → I (es.foldl step s) := by
  intro es
  induction es with
  | nil => exact fun hs _ => hs
  | cons e es ih => exact fun hs ha => ih (hstep _ e hs ha.1) ha.2

/-- What the events meet, they meet on reachable states. -/
theorem Along.imp {I : σ → Prop} {Q : σ → ε → Prop} (hstep : ∀ s e, I s → P s e → I (step s e))
    (himp : ∀ s e, I s → P s e → Q s e) :
    ∀ {es : List ε} {s : σ}, I s → Along step P es s → Along step Q es s := by
  intro es
  induction es with
  | nil => exact fun _ _ => trivial
  | cons e es ih => exact fun hs ha => ⟨himp _ e hs ha.1, ih (hstep _ e hs ha.1) ha.2⟩

theorem along_of_forall {es : List ε} (h : ∀ s, ∀ e ∈ es, P s e) : ∀ s, Along step P es s := by
  induction es with
  | nil => exact fun _ => trivial
  | cons e es ih =>
    exact fun s => ⟨h s e List.mem_cons_self, ih (fun s e he => h s e (List.mem_cons_of_mem _ he)) _⟩

/-- A run that is cut in two. -/
theorem Along.append {es es' : List ε} : ∀ {s : σ}, Along step P es s →
    Along step P es' (es.foldl step s) → Along step P (es ++ es') s := by
  induction es with
  | nil => exact fun _ h => h
  | cons e es ih => exact fun h h' => ⟨h.1, ih h.2 h'⟩

theorem Along.and {Q : σ → ε → Prop} {es : List ε} : ∀ {s : σ}, Along step P es s →
    Along step Q es s → Along step (fun s e => P s e ∧ Q s e) es s := by
  induction es with
  | nil => exact fun _ _ => trivial
  | cons e es ih => exact fun h h' => ⟨⟨h.1, h'.1⟩, ih h.2 h'.2⟩

theorem Along.left {es es' : List ε} : ∀ {s : σ}, Along step P (es ++ es') s → Along step P es s := by
  induction es with
  | nil => exact fun _ => trivial
  | cons e es ih => exact fun h => ⟨h.1, ih h.2⟩

/-- A run is judged cut by cut. -/
theorem along_of_cuts {es : List ε} : ∀ {s : σ},
    (∀ first e rest, es = first ++ e :: rest → P (first.foldl step s) e) → Along step P es s := by
  induction es with
  | nil => exact fun _ => trivial
  | cons e es ih =>
    intro s h
    exact ⟨h [] e es rfl, ih fun first e' rest hcut => h (e :: first) e' rest (by rw [hcut]; rfl)⟩

/-- **The rule for damage that stays**: where an event that misses `P` does damage, and damage is
    never repaired, a run has met `P` all along or ends damaged. -/
theorem along_or_lost {I Lost : σ → Prop} (hstep : ∀ s e, I s → P s e → I (step s e))
    (hlose : ∀ s e, I s → ¬ P s e → Lost (step s e)) (hstay : ∀ s e, Lost s → Lost (step s e)) :
    ∀ (es : List ε) {s : σ}, I s → Along step P es s ∨ Lost (es.foldl step s) := by
  have hforever : ∀ (es : List ε) (s : σ), Lost s → Lost (es.foldl step s) := by
    intro es
    induction es with
    | nil => exact fun _ h => h
    | cons e es ih => exact fun s h => ih _ (hstay s e h)
  intro es
  induction es with
  | nil => exact fun _ => .inl trivial
  | cons e es ih =>
    intro s hs
    by_cases hp : P s e
    · exact (ih (hstep s e hs hp)).imp_left fun hrest => ⟨hp, hrest⟩
    · exact .inr (hforever es _ (hlose s e hs hp))

/-! ## Histories -/

section Histories

variable {α : Type} {Q : List α → α → Prop} {l : List α}

/-- Every entry of the history meets `Q` against the entries before it. -/
def Chronicle (Q : List α → α → Prop) (l : List α) : Prop :=
  ∀ past a rest, l = past ++ a :: rest → Q past a

theorem chronicle_nil : Chronicle Q [] := by
  intro past a rest h
  cases past <;> cases h

/-- A history that grows by one entry needs a look at that entry only. -/
theorem Chronicle.concat {x : α} (h : Chronicle Q l) (hx : Q l x) : Chronicle Q (l ++ [x]) := by
  intro past a rest heq
  rcases List.eq_nil_or_concat rest with rfl | ⟨rest', y, rfl⟩
  · obtain ⟨rfl, hxa⟩ := List.append_inj' heq rfl
    cases hxa
    exact hx
  · rw [List.concat_eq_append, ← List.cons_append, ← List.append_assoc] at heq
    exact h past a rest' (List.append_inj' heq rfl).1

theorem chronicle_concat_iff {x : α} : Chronicle Q (l ++ [x]) ↔ Chronicle Q l ∧ Q l x := by
  refine ⟨fun h => ⟨?_, h l x [] rfl⟩, fun h => h.1.concat h.2⟩
  rintro past a rest rfl
  exact h past a (rest ++ [x]) (by rw [List.append_assoc, List.cons_append])

end Histories

/-! ## The trace of a run -/

/-- An event, and the state it found. -/
structure Event (σ ε : Type) where
  event : ε
  before : σ

/-- The events of a run with the states they found, oldest first. -/
def trace (step : σ → ε → σ) : List ε → σ → List (Event σ ε)
  | [], _ => []
  | e :: es, s => ⟨e, s⟩ :: trace step es (step s e)

/-- **The rule for traces**: what holds of the empty trace at the start and survives one more event
    holds of the whole run. -/
theorem trace_invariant {I : List (Event σ ε) → σ → Prop} {s : σ} (hstart : I [] s)
    (hstep : ∀ l t e, I l t → I (l ++ [⟨e, t⟩]) (step t e)) (es : List ε) :
    I (trace step es s) (es.foldl step s) := by
  have hgen : ∀ (es : List ε) (l : List (Event σ ε)) (t : σ), I l t →
      I (l ++ trace step es t) (es.foldl step t) := by
    intro es
    induction es with
    | nil =>
      intro l t h
      rwa [trace, List.append_nil]
    | cons e es ih =>
      intro l t h
      have hrest := ih _ _ (hstep l t e h)
      rwa [List.append_assoc] at hrest
  exact hgen es [] s hstart

/-- The events of a trace are those of the run. -/
theorem event_mem_of_mem_trace : ∀ {es : List ε} {s : σ} {a : Event σ ε}, a ∈ trace step es s →
    a.event ∈ es
  | e :: es, s, a, h => by
    rcases List.mem_cons.mp h with rfl | h
    · exact List.mem_cons_self
    · exact List.mem_cons_of_mem _ (event_mem_of_mem_trace h)

/-! ## Guards -/

section Guards

variable {α κ : Type} {before after : α → σ} {Uses : α → κ → Prop} {Marked : σ → κ → Prop}
  {l : List α} {a : α}

/-- An event uses unmarked keys only, and marks them; marks stay. -/
structure Guard (before after : α → σ) (Uses : α → κ → Prop) (Marked : σ → κ → Prop) : Prop where
  fresh : ∀ a k, Uses a k → ¬ Marked (before a) k
  sets : ∀ a k, Uses a k → Marked (after a) k
  keeps : ∀ a k, Marked (before a) k → Marked (after a) k

/-- Every key that has been used is marked. -/
def Remembers (Uses : α → κ → Prop) (Marked : σ → κ → Prop) (l : List α) (s : σ) : Prop :=
  ∀ b ∈ l, ∀ k, Uses b k → Marked s k

/-- What the event uses is told apart, in the state it finds, from all that was used before. -/
def ToldApart (before : α → σ) (Uses : α → κ → Prop) (Marked : σ → κ → Prop) (past : List α)
    (a : α) : Prop :=
  ∀ k, Uses a k → ∀ b ∈ past, ∀ k', Uses b k' → Marked (before a) k' ∧ ¬ Marked (before a) k

theorem Guard.remembers_concat (g : Guard before after Uses Marked)
    (h : Remembers Uses Marked l (before a)) : Remembers Uses Marked (l ++ [a]) (after a) := by
  intro b hb k hk
  rcases List.mem_append.mp hb with hb | hb
  · exact g.keeps a k (h b hb k hk)
  · cases List.mem_singleton.mp hb
    exact g.sets a k hk

theorem Guard.toldApart (g : Guard before after Uses Marked)
    (h : Remembers Uses Marked l (before a)) : ToldApart before Uses Marked l a :=
  fun k hk b hb k' hk' => ⟨h b hb k' hk', g.fresh a k hk⟩

theorem ToldApart.increasing [LinearOrder κ] (h : ToldApart before Uses Marked l a)
    (hdown : ∀ s k k', Marked s k' → k ≤ k' → Marked s k) {k k' : κ} (hk : Uses a k) {b : α}
    (hb : b ∈ l) (hk' : Uses b k') : k' < k := by
  obtain ⟨hmarked, hfresh⟩ := h k hk b hb k' hk'
  exact lt_of_not_ge fun hle => hfresh (hdown _ k k' hmarked hle)

/-- **A guarded run**: whatever it starts from, what an event uses is told apart from all before. -/
theorem Guard.toldApart_trace {Uses : Event σ ε → κ → Prop}
    (g : Guard Event.before (fun a => step a.before a.event) Uses Marked) (es : List ε) (s : σ) :
    Chronicle (ToldApart Event.before Uses Marked) (trace step es s) ∧
      Remembers Uses Marked (trace step es s) (es.foldl step s) := by
  refine trace_invariant (I := fun l s => Chronicle (ToldApart Event.before Uses Marked) l ∧
    Remembers Uses Marked l s) ⟨chronicle_nil, List.forall_mem_nil _⟩ ?_ es
  rintro l t e ⟨hpast, hmarked⟩
  exact ⟨hpast.concat (g.toldApart (a := ⟨e, t⟩) hmarked), g.remembers_concat (a := ⟨e, t⟩) hmarked⟩

end Guards

end SuwappuDag.Runs
