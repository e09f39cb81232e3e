/-
  BLOCK EXECUTION (`suwappu-execution/src/block.rs`).

  1. **Program** — `executeBlock` sets the ambient height to the round of the block and applies the
     intents in order.  After the first error every later intent is counted as skipped and not
     applied; what the failing intent had written STAYS.
  2. **Inversion** — `foldl_executeStep` says how far the loop got: a first part of the block is
     applied, up to the first intent that fails, and nothing behind it is touched.
  3. **The report** — `execute_block_report`: what the report counts is what happened, and the
     substrate is the one a run of the intents up to the failing one leaves.
-/
import SuwappuDag.Execution.Apply

namespace SuwappuDag.Execution

open Words Reserved InMemorySubstrate

structure Block where
  round : UInt64
  intents : List Intent

structure ExecutionReport where
  round : UInt64
  applied : Nat
  /-- Index and error of the intent that failed. -/
  firstError : Option (Nat × ExecutionError)
  skipped : Nat
  postRoot : Bytes32
deriving DecidableEq

/-- The local variables of the loop. -/
structure Tally where
  applied : Nat
  firstError : Option (Nat × ExecutionError)
  skipped : Nat
deriving DecidableEq

section Program

variable (blake3 : List UInt8 → Bytes32)

/-- One turn of the loop. -/
def executeStep (acc : Tally × InMemorySubstrate) (entry : Intent × Nat) :
    Tally × InMemorySubstrate :=
  if acc.1.firstError.isSome then ({ acc.1 with skipped := acc.1.skipped + 1 }, acc.2)
  else
    match applyIntent blake3 entry.1 acc.2 with
    | (.ok _, t) => ({ acc.1 with applied := acc.1.applied + 1 }, t)
    | (.error e, t) => ({ acc.1 with firstError := some (entry.2, e) }, t)

/-- `execute_block`: the report, and the substrate it leaves. -/
def executeBlock (block : Block) (s : InMemorySubstrate) : ExecutionReport × InMemorySubstrate :=
  let out := block.intents.zipIdx.foldl (executeStep blake3)
    (⟨0, none, 0⟩, s.setCurrentBlockHeight block.round)
  (⟨block.round, out.1.applied, out.1.firstError, out.1.skipped, stateRoot blake3 out.2⟩, out.2)

end Program

/-! ## How far the loop gets -/

section Loop

variable {blake3 : List UInt8 → Bytes32}

/-- Every intent is applied without an error, the first one to `s`; `t` is what they leave. -/
def AllApply (blake3 : List UInt8 → Bytes32) :
    List Intent → InMemorySubstrate → InMemorySubstrate → Prop
  | [], s, t => t = s
  | intent :: intents, s, t => ∃ u, applyIntent blake3 intent s = (.ok (), u) ∧
      AllApply blake3 intents u t

/-- Intents that all apply are a run of calls, so that every law about runs is a law about them. -/
theorem AllApply.eq_runCalls : ∀ {intents : List Intent} {s t : InMemorySubstrate},
    AllApply blake3 intents s t → t = runCalls blake3 (intents.map .applyIntent) s
  | [], _, _, h => h
  | intent :: intents, s, t, ⟨u, hrun, hrest⟩ => by
    have hcall : (SubstrateCall.applyIntent intent).exec blake3 s = u := congrArg Prod.snd hrun
    rw [List.map_cons, runCalls, List.foldl_cons, hcall]
    exact hrest.eq_runCalls

/-- Behind an error the loop only counts. -/
theorem foldl_executeStep_of_error {t : Tally} {s : InMemorySubstrate} (h : t.firstError.isSome) :
    ∀ entries : List (Intent × Nat), entries.foldl (executeStep blake3) (t, s) =
      ({ t with skipped := t.skipped + entries.length }, s) := by
  intro entries
  induction entries generalizing t with
  | nil => rfl
  | cons e entries ih =>
    have hstep : executeStep blake3 (t, s) e = ({ t with skipped := t.skipped + 1 }, s) := if_pos h
    have hlen : t.skipped + 1 + entries.length = t.skipped + (e :: entries).length := by
      rw [List.length_cons]
      omega
    rw [List.foldl_cons, hstep, ih (t := { t with skipped := t.skipped + 1 }) h, hlen]

/-- What the loop has counted and left, when it started at index `k` with `n` intents applied. -/
def LoopEnds (blake3 : List UInt8 → Bytes32) (intents : List Intent) (k n : Nat)
    (s : InMemorySubstrate) (out : Tally × InMemorySubstrate) : Prop :=
  (out.1 = ⟨n + intents.length, none, 0⟩ ∧ AllApply blake3 intents s out.2) ∨
  ∃ before intent behind e mid, intents = before ++ intent :: behind ∧
    out.1 = ⟨n + before.length, some (k + before.length, e), behind.length⟩ ∧
    AllApply blake3 before s mid ∧ applyIntent blake3 intent mid = (.error e, out.2)

/-- **The loop** applies the intents up to the first one that fails, and counts the rest. -/
theorem foldl_executeStep (intents : List Intent) (k n : Nat) (s : InMemorySubstrate) :
    LoopEnds blake3 intents k n s
      ((intents.zipIdx k).foldl (executeStep blake3) (⟨n, none, 0⟩, s)) := by
  induction intents generalizing k n s with
  | nil => exact Or.inl ⟨rfl, rfl⟩
  | cons intent intents ih =>
    rw [List.zipIdx_cons, List.foldl_cons]
    rcases hrun : applyIntent blake3 intent s with ⟨e | ⟨⟨⟩⟩, t⟩
    · -- all behind the failing intent is skipped
      have hstep : executeStep blake3 (⟨n, none, 0⟩, s) (intent, k) = (⟨n, some (k, e), 0⟩, t) := by
        simp [executeStep, hrun]
      rw [hstep, foldl_executeStep_of_error rfl]
      exact Or.inr ⟨[], intent, intents, e, s, rfl, by simp, rfl, hrun⟩
    · have hstep : executeStep blake3 (⟨n, none, 0⟩, s) (intent, k) = (⟨n + 1, none, 0⟩, t) := by
        simp [executeStep, hrun]
      have hone : ∀ m, n + 1 + m = n + (m + 1) ∧ k + 1 + m = k + (m + 1) := by omega
      rw [hstep]
      rcases ih (k + 1) (n + 1) t with ⟨hcount, hall⟩ | ⟨before, bad, behind, e, mid, hsplit, hcount,
        hall, hfail⟩
      · refine Or.inl ⟨?_, t, hrun, hall⟩
        rw [hcount, (hone _).1, List.length_cons]
      · refine Or.inr ⟨intent :: before, bad, behind, e, mid, ?_, ?_, ⟨t, hrun, hall⟩, hfail⟩
        · rw [hsplit, List.cons_append]
        · rw [hcount, (hone _).1, (hone _).2, List.length_cons]

end Loop

/-! ## The report -/

/-- **What a block does is what its report says.**  Without a first error every intent was applied.
    With an error at index `k`, the `k` intents before it were applied one after the other, the one
    at `k` failed with that error, and all behind it are skipped.  Either way the substrate is the
    one that a run of the intents reached leaves, what the failing one wrote included. -/
theorem execute_block_report (blake3 : List UInt8 → Bytes32) (block : Block) (s : InMemorySubstrate) :
    let report := (executeBlock blake3 block s).1
    let after := (executeBlock blake3 block s).2
    let start := s.setCurrentBlockHeight block.round
    report.postRoot = stateRoot blake3 after ∧
    ((report.firstError = none ∧ report.applied = block.intents.length ∧ report.skipped = 0 ∧
        AllApply blake3 block.intents start after ∧
        after = runCalls blake3 (block.intents.map .applyIntent) start) ∨
      ∃ before intent behind e mid, block.intents = before ++ intent :: behind ∧
        report.firstError = some (before.length, e) ∧ report.applied = before.length ∧
        report.skipped = behind.length ∧ AllApply blake3 before start mid ∧
        applyIntent blake3 intent mid = (.error e, after) ∧
        after = runCalls blake3 ((before ++ [intent]).map .applyIntent) start) := by
  intro report after start
  refine ⟨rfl, ?_⟩
  have hloop : LoopEnds blake3 block.intents 0 0 start _ := foldl_executeStep block.intents 0 0 start
  rcases hloop with ⟨hcount, hall⟩ | ⟨before, intent, behind, e, mid, hsplit, hcount, hall, hfail⟩
  · refine Or.inl ⟨congrArg Tally.firstError hcount, ?_, congrArg Tally.skipped hcount, hall,
      hall.eq_runCalls⟩
    exact (congrArg Tally.applied hcount).trans (Nat.zero_add _)
  · rw [Nat.zero_add] at hcount
    refine Or.inr ⟨before, intent, behind, e, mid, hsplit, congrArg Tally.firstError hcount,
      congrArg Tally.applied hcount, congrArg Tally.skipped hcount, hall, hfail, ?_⟩
    calc after = (applyIntent blake3 intent mid).2 := (congrArg Prod.snd hfail).symm
      _ = (applyIntent blake3 intent (runCalls blake3 (before.map .applyIntent) start)).2 := by
        rw [← hall.eq_runCalls]
      _ = runCalls blake3 ((before ++ [intent]).map .applyIntent) start := by
        rw [runCalls, runCalls, List.map_append, List.foldl_append]
        rfl

end SuwappuDag.Execution
