/-
  THE HISTORY OF A RUN — which intents were applied, and in which state each of them was.

  A run is a list of calls on the substrate.  Its history keeps the applications only, oldest first;
  whether one of them succeeded, and what it left, is computed from the state it found.  Laws about
  runs are invariants of a history together with the state it ends in (`history_invariant`): one step
  appends one application.
-/
import SuwappuDag.Lib.Runs
import SuwappuDag.Execution.Contracts

namespace SuwappuDag.Execution

open Words Command Reserved InMemorySubstrate

/-- An intent, and the state it was applied to. -/
structure Applied where
  intent : Intent
  before : InMemorySubstrate

section Histories

variable (blake3 : List UInt8 → Bytes32)

namespace Applied

variable (a : Applied)

/-- The state it left. -/
def after : InMemorySubstrate := (applyIntent blake3 a.intent a.before).2

def Succeeds : Prop := (applyIntent blake3 a.intent a.before).1 = .ok ()

instance : Decidable (a.Succeeds blake3) := by
  unfold Succeeds
  infer_instance

end Applied

/-- The applications of a run, oldest first. -/
def history : List SubstrateCall → InMemorySubstrate → List Applied
  | [], _ => []
  | .setCurrentBlockHeight height :: calls, s => history calls (s.setCurrentBlockHeight height)
  | .applyIntent intent :: calls, s =>
    ⟨intent, s⟩ :: history calls (applyIntent blake3 intent s).2

variable {blake3}

theorem Applied.succeeds_iff {a : Applied} :
    a.Succeeds blake3 ↔ applyIntent blake3 a.intent a.before = (.ok (), a.after blake3) := by
  unfold Succeeds after
  constructor
  · intro h
    rw [← h]
  · intro h
    rw [h]

/-- **The rule for runs**: what holds of the empty history at the start, survives a change of the
    height, and survives one more application, holds of the whole run. -/
theorem history_invariant {P : List Applied → InMemorySubstrate → Prop} {s : InMemorySubstrate}
    (hstart : P [] s) (hheight : ∀ l t height, P l t → P l (t.setCurrentBlockHeight height))
    (hstep : ∀ l t intent, P l t → P (l ++ [⟨intent, t⟩]) (applyIntent blake3 intent t).2)
    (calls : List SubstrateCall) : P (history blake3 calls s) (runCalls blake3 calls s) := by
  have hgen : ∀ (calls : List SubstrateCall) (l : List Applied) (t : InMemorySubstrate), P l t →
      P (l ++ history blake3 calls t) (runCalls blake3 calls t) := by
    intro calls
    induction calls with
    | nil =>
      intro l t h
      rwa [history, List.append_nil]
    | cons call calls ih =>
      intro l t h
      cases call with
      | setCurrentBlockHeight height => exact ih l _ (hheight l t height h)
      | applyIntent intent =>
        have hrest := ih _ _ (hstep l t intent h)
        rwa [List.append_assoc] at hrest
  exact hgen calls [] s hstart

/-! ## Sums over a history -/

variable (blake3) in
/-- The sum of an amount over the applications that succeeded. -/
def collected (amount : Intent → Nat) (l : List Applied) : Nat :=
  ((l.filter fun a => a.Succeeds blake3).map fun a => amount a.intent).sum

theorem collected_concat (amount : Intent → Nat) (l : List Applied) (a : Applied) :
    collected blake3 amount (l ++ [a]) =
      collected blake3 amount l + if a.Succeeds blake3 then amount a.intent else 0 := by
  unfold collected
  rw [List.filter_append, List.map_append, List.sum_append]
  congr 1
  by_cases h : a.Succeeds blake3 <;> simp [h]

/-! ## Cutting a run -/

theorem runCalls_append (calls calls' : List SubstrateCall) (s : InMemorySubstrate) :
    runCalls blake3 (calls ++ calls') s = runCalls blake3 calls' (runCalls blake3 calls s) :=
  List.foldl_append

/-- The history of a run that is cut in two. -/
theorem history_append (calls calls' : List SubstrateCall) (s : InMemorySubstrate) :
    history blake3 (calls ++ calls') s =
      history blake3 calls s ++ history blake3 calls' (runCalls blake3 calls s) := by
  induction calls generalizing s with
  | nil => rfl
  | cons call calls ih =>
    cases call with
    | setCurrentBlockHeight height => exact ih _
    | applyIntent intent => exact congrArg _ (ih _)

/-- Where in the run an application was made. -/
theorem cut_of_mem_history {calls : List SubstrateCall} {s : InMemorySubstrate} {a : Applied}
    (h : a ∈ history blake3 calls s) : ∃ earlier later,
      calls = earlier ++ .applyIntent a.intent :: later ∧ runCalls blake3 earlier s = a.before := by
  induction calls generalizing s with
  | nil => cases h
  | cons call calls ih =>
    cases call with
    | setCurrentBlockHeight height =>
      obtain ⟨earlier, later, rfl, hbefore⟩ := ih h
      exact ⟨.setCurrentBlockHeight height :: earlier, later, rfl, hbefore⟩
    | applyIntent intent =>
      rcases List.mem_cons.mp h with rfl | h
      · exact ⟨[], calls, rfl, rfl⟩
      · obtain ⟨earlier, later, rfl, hbefore⟩ := ih h
        exact ⟨.applyIntent intent :: earlier, later, rfl, hbefore⟩

end Histories

end SuwappuDag.Execution
