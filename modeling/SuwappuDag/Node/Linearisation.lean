/-
  CONCURRENT COMMIT WALKS.

  A walk CLAIMS a certificate under one lock and EXECUTES its block under another.  Other walks run in
  between, and for them a claimed certificate is done.

  1. **At most once (`executed_nodup`)** — under every schedule: what is claimed is executed or in the
     hands of exactly one task (`Accounted`), and nothing is claimed twice.
  2. **Ancestors first (`ancestors_first`)** — the certificates that a walk has not passed yet come with
     their ancestors before them or executed (`Ready`).  So an execution finds all ancestors executed,
     PROVIDED a walk never passes over a certificate that is claimed and not executed
     (`PassesExecuted`).  Nothing in the code provides that (`overlapping_walks_swap`).
  3. **Sequential schedules (`commit_walks_linearisable`)** — when nobody else moves while a walk is
     under way, the node ends where the same tasks end that run `tryCommit` in one step
     (`Block.simulation`).
-/
import SuwappuDag.Node.Alone
import SuwappuDag.Node.SignedBlocks
import SuwappuDag.Consensus.Topological

namespace SuwappuDag.Node

open Words Consensus Execution Interleave

/-! ## At most once -/

section Once

variable {C : Crypto}

/-- What is claimed is executed or in the hands of one task. -/
structure Accounted (m : Machine State Task) : Prop where
  once : m.shared.committed.Nodup
  split : (m.shared.core.executed ++ m.tasks.filterMap Task.held).Perm m.shared.committed

theorem accounted_step {m : Machine State Task} (hm : AllBacked C m) (h : Accounted m) (i : Nat) :
    Accounted (m.step (Task.step C) i) := by
  unfold Machine.step
  split
  · exact h
  next t ht =>
  obtain ⟨others, hbefore, hafter⟩ := perm_filterMap_set Task.held ht (t.step C m.shared).1
  have hsplit := (hbefore.append_left m.shared.core.executed).symm.trans h.split
  have hgoal : ∀ log claims, (t.step C m.shared).2.core.executed = log →
      (t.step C m.shared).2.core.committed = claims → claims.Nodup →
      (log ++ ((t.step C m.shared).1.held.toList ++ others)).Perm claims →
      Accounted ⟨(t.step C m.shared).2, m.tasks.set i (t.step C m.shared).1⟩ := by
    rintro log claims rfl rfl hnd hperm
    exact ⟨hnd, (hafter.append_left _).trans hperm⟩
  have hstep := t.taskStep hm.1.consistent (hm.2 t (List.mem_of_getElem? ht))
  cases hstep.log with
  | same hclaims hlog hheld => exact hgoal _ _ hlog hclaims h.once (hheld ▸ hsplit)
  | @claim c hfresh hclaims hlog hnone hheld =>
    refine hgoal _ _ hlog hclaims ?_ ?_
    · exact List.nodup_append.mpr ⟨h.once, List.nodup_singleton c, fun a ha b hb hab =>
        hfresh (List.mem_singleton.mp hb ▸ hab ▸ ha)⟩
    · -- the claim goes to the end of the claims and into the hands of `t`
      rw [hheld]
      rw [hnone] at hsplit
      refine List.Perm.trans ?_ (hsplit.append_right [c])
      rw [List.append_assoc]
      exact (List.perm_append_comm : ([c] ++ others).Perm (others ++ [c])).append_left _
  | execute hclaims hlog hheld hnone =>
    refine hgoal _ _ hlog hclaims h.once ?_
    rw [hnone]
    rw [hheld] at hsplit
    rwa [List.append_assoc]

theorem accounted_started (manifest : GenesisManifest) (selfId : AuthorityId) {tasks : List Task}
    (hidle : ∀ t ∈ tasks, t.idle = true) : Accounted (started C manifest selfId tasks) := by
  refine ⟨List.nodup_nil, ?_⟩
  have hnone : tasks.filterMap Task.held = [] := by
    refine List.filterMap_eq_nil_iff.mpr fun t ht => ?_
    have hidle := hidle t ht
    cases t with
    | inbox isDynamic messages pc =>
      cases pc with
      | commit pc => cases hidle
      | _ => rfl
    | _ => rfl
  show ([] ++ tasks.filterMap Task.held).Perm []
  rw [hnone]
  exact .refl _

/-- Both survive any move. -/
theorem accounted_move (m : Machine State Task) (i : Nat) (h : AllBacked C m ∧ Accounted m) :
    AllBacked C (m.step (Task.step C) i) ∧ Accounted (m.step (Task.step C) i) :=
  ⟨backed_respects.machine_step h.1 fun _ _ => trivial, accounted_step h.1 h.2 i⟩

/-- **At most once**, under every schedule. -/
theorem executed_nodup {manifest : GenesisManifest} {selfId : AuthorityId} {tasks : List Task}
    (hidle : ∀ t ∈ tasks, t.idle = true) (schedule : List Nat) :
    ((started C manifest selfId tasks).run (Task.step C) schedule).shared.core.executed.Nodup := by
  have h := Runs.Along.invariant (fun m i h _ => accounted_move m i h)
    ⟨backed_started manifest selfId hidle, accounted_started (C := C) manifest selfId hidle⟩
    (along_true (Task.step C) schedule _)
  exact (List.nodup_append.mp (h.2.split.nodup_iff.mpr h.2.once)).1

end Once

/-! ## Ancestors first -/

/-- What a walk finds claimed has been executed. -/
def PassesExecuted (t : Task) (s : State) : Prop :=
  ∀ h ∈ t.asks, h ∈ s.committed → h ∈ s.core.executed

instance (t : Task) (s : State) : Decidable (PassesExecuted t s) := Option.decidableForallMem _

section Order

variable {C : Crypto}

/-- What holds of a node whose walks pass over executed certificates only. -/
structure Ordered (C : Crypto) (s : State) : Prop where
  backed : s.core.Backed C
  first : AncestorsFirst s.dag s.core.executed

theorem Ordered.stored {s : State} (hs : Ordered C s) :
    ∀ h ∈ s.core.executed, ∃ cert, s.dag.get h = some cert := by
  intro h hh
  obtain ⟨e, he, rfl⟩ := List.mem_map.mp hh
  obtain ⟨cert, hcert, -⟩ := hs.backed.bound e he
  exact ⟨cert, hcert⟩

theorem Grows.executed {k k' : Core} (hg : Grows C k k') : k.executed ⊆ k'.executed :=
  List.map_subset _ hg.executions.subset

/-- What a walk holds is at the head of what it has not passed. -/
theorem Task.pending_of_held {t : Task} {h : CertHash} (hheld : t.held = some h) :
    ∃ rest, t.pending = h :: rest := by
  cases t with
  | inbox isDynamic messages pc =>
    cases pc with
    | commit pc =>
      cases pc with
      | unneed p c => cases hheld; exact ⟨p.history, rfl⟩
      | execute p c => cases hheld; exact ⟨p.history, rfl⟩
      | _ => cases hheld
    | _ => cases hheld
  | _ => cases hheld

theorem ordered_step {t : Task} {s : State} (hs : Ordered C s) (hl : t.Backed C s.core)
    (hready : Ready s.dag s.core.executed t.pending) : Ordered C (t.step C s).2 := by
  have hstep := t.taskStep hs.backed.consistent hl
  have wf := hs.backed.reachable.wellFormed
  refine ⟨hstep.effect.backed hs.backed, ?_⟩
  have hmono := hs.first.mono wf hstep.effect.grows.dag hs.stored
  cases hstep.log with
  | same _ hlog _ => rw [hlog]; exact hmono
  | claim _ _ hlog _ _ => rw [hlog]; exact hmono
  | @execute h _ hlog hheld _ =>
    rw [hlog]
    obtain ⟨rest, hpending⟩ := Task.pending_of_held hheld
    rw [hpending] at hready
    exact hmono.append (hready.mono wf hstep.effect.grows.dag (List.Subset.refl _)).head

theorem ready_step {t : Task} {s : State} (hs : Ordered C s) (hl : t.Backed C s.core)
    (hready : Ready s.dag s.core.executed t.pending) (hpass : PassesExecuted t s) :
    Ready (t.step C s).2.dag (t.step C s).2.core.executed (t.step C s).1.pending := by
  have hstep := t.taskStep hs.backed.consistent hl
  have hg := hstep.effect.grows
  have wf := hs.backed.reachable.wellFormed
  cases hstep.pending with
  | same h => rw [h]; exact hready.mono wf hg.dag hg.executed
  | none h => rw [h]; exact Ready.nil
  | history h => rw [h]; exact (ready_causalHistory wf _).mono wf hg.dag hg.executed
  | passed hsplit hwhy =>
    rw [hsplit] at hready
    refine (hready.mono wf hg.dag hg.executed).tail ?_
    rcases hwhy with hmem | ⟨hasks, hclaimed⟩ | hget
    · exact hmem
    · exact hg.executed (hpass _ hasks hclaimed)
    · -- what is ahead is stored
      obtain ⟨⟨cert, hcert⟩, -⟩ := hready [] _ _ rfl
      have hget : s.dag.get _ = none := hget
      rw [hget] at hcert
      cases hcert

theorem ordered_respects : Respects (Task.step C) PassesExecuted (Ordered C)
    (fun s s' => Grows C s.core s'.core)
    (fun t s => t.Backed C s.core ∧ Ready s.dag s.core.executed t.pending) where
  keep hs hl hpass := ⟨ordered_step hs hl.1 hl.2,
    (Task.taskStep _ hs.backed.consistent hl.1).backed, ready_step hs hl.1 hl.2 hpass⟩
  guarantee hs hl _ := (Task.taskStep _ hs.backed.consistent hl.1).effect.grows
  stable hs hl hg := ⟨hl.1.mono hg, hl.2.mono hs.backed.reachable.wellFormed hg.dag hg.executed⟩

theorem pending_of_idle {t : Task} (hidle : t.idle = true) : t.pending = [] := by
  cases t with
  | inbox isDynamic messages pc =>
    cases pc with
    | commit pc => cases hidle
    | _ => rfl
  | _ => rfl

/-- **Ancestors first**, along the schedules whose walks pass over executed certificates only. -/
theorem ancestors_first {manifest : GenesisManifest} {selfId : AuthorityId} {tasks : List Task}
    (hidle : ∀ t ∈ tasks, t.idle = true) {schedule : List Nat}
    (hpass : Runs.Along (Machine.step (Task.step C)) (Picked PassesExecuted) schedule
      (started C manifest selfId tasks)) :
    let m := (started C manifest selfId tasks).run (Task.step C) schedule
    AncestorsFirst m.shared.dag m.shared.core.executed := by
  have hbacked := backed_started (C := C) manifest selfId hidle
  refine (ordered_respects.run ⟨⟨hbacked.1, ?_⟩, fun t ht => ⟨hbacked.2 t ht, ?_⟩⟩ hpass).1.first
  · intro before h after heq
    cases before <;> cases heq
  · rw [pending_of_idle (hidle t ht)]
    exact Ready.nil

end Order

/-! ## Sequential schedules -/

section Sequential

variable {C : Crypto}

theorem Task.inside_of_held {t : Task} {h : CertHash} (hheld : t.held = some h) :
    t.inside = true := by
  cases t with
  | inbox isDynamic messages pc =>
    cases pc with
    | commit pc =>
      cases pc with
      | unneed p c => rfl
      | execute p c => rfl
      | _ => cases hheld
    | _ => cases hheld
  | _ => cases hheld

theorem Task.held_of_asks {t : Task} {h : CertHash} (hasks : t.asks = some h) : t.held = none := by
  cases t with
  | inbox isDynamic messages pc =>
    cases pc with
    | commit pc =>
      cases pc with
      | unneed p c => cases hasks
      | execute p c => cases hasks
      | _ => rfl
    | _ => rfl
  | _ => rfl

/-- A claim that has not been executed is in the hands of a walk under way, so not of one that asks. -/
theorem passesExecuted_of_uninterrupted {m : Machine State Task} {i : Nat} (hm : Accounted m)
    (hu : Uninterrupted Task.inside m i) : Picked PassesExecuted m i := by
  intro t ht h hasks hclaimed
  rcases List.mem_append.mp (hm.split.mem_iff.mpr hclaimed) with hmem | hmem
  · exact hmem
  · obtain ⟨u, hu', hheld⟩ := List.mem_filterMap.mp hmem
    obtain ⟨j, hj⟩ := List.mem_iff_getElem?.mp hu'
    obtain rfl : j = i := hu.eq hj (Task.inside_of_held hheld)
    obtain rfl : u = t := Option.some.inj (hj.symm.trans ht)
    rw [Task.held_of_asks hasks] at hheld
    cases hheld

theorem nextVote_outside (isDynamic : Bool) (messages : List WireMessage)
    (inserted : List IngestedCert) :
    (Task.inbox isDynamic messages (nextVote inserted)).inside = false := by
  cases inserted <;> rfl

theorem startMessage_outside (isDynamic : Bool) (messages : List WireMessage) (msg : WireMessage) :
    (Task.inbox isDynamic messages (startMessage C isDynamic msg)).inside = false := by
  unfold startMessage
  cases msg with
  | cert cert => rfl
  | block block =>
    dsimp only
    split
    · rfl
    · split <;> rfl
  | vote vote =>
    dsimp only
    split <;> rfl

/-- The sections of `run_inbox` around a walk. -/
theorem InboxPc.outside_step (isDynamic : Bool) (messages : List WireMessage) {pc : InboxPc}
    (hpc : ∀ walk, pc ≠ .commit walk) (s : State) :
    (Task.inbox isDynamic messages (pc.step C s).1).inside = false := by
  cases pc with
  | commit walk => exact absurd rfl (hpc walk)
  | ingest pc => cases pc <;> rfl
  | mayVote inserted =>
    rw [step]
    dsimp only
    split
    · exact nextVote_outside isDynamic messages inserted
    · rfl
  | cast candidate inserted => exact nextVote_outside isDynamic messages inserted
  | lookup block =>
    rw [step]
    dsimp only
    split
    · split <;> rfl
    · rfl
  | _ => rfl

/-- A walk is entered by its first section only. -/
theorem Task.outside_step {t : Task} (ht : t.inside = false)
    (hfirst : ∀ isDynamic messages, t ≠ .inbox isDynamic messages (.commit .snapshot)) (s : State) :
    (t.step C s).1.inside = false ∧ t.stepAtomic C s = t.step C s := by
  cases t with
  | inbox isDynamic messages pc =>
    cases pc with
    | idle =>
      cases messages with
      | nil => exact ⟨rfl, rfl⟩
      | cons msg messages => exact ⟨startMessage_outside isDynamic messages msg, rfl⟩
    | commit walk =>
      cases walk with
      | snapshot => exact absurd rfl (hfirst isDynamic messages)
      | done => exact ⟨rfl, rfl⟩
      | _ => cases ht
    | _ => exact ⟨InboxPc.outside_step isDynamic messages (fun _ h => by cases h) s, rfl⟩
  | driver ticks pc =>
    cases pc with
    | idle => cases ticks <;> exact ⟨rfl, rfl⟩
    | _ => exact ⟨rfl, rfl⟩
  | client requests => cases requests <;> exact ⟨rfl, rfl⟩

/-- A walk alone is `tryCommit`. -/
theorem walk_block : Block (Task.step C) (Task.stepAtomic C) Task.inside where
  enter := by
    intro t s ht henter
    by_cases hfirst : ∃ isDynamic messages, t = .inbox isDynamic messages (.commit .snapshot)
    · obtain ⟨isDynamic, messages, rfl⟩ := hfirst
      have hlift : ∀ (walk : CommitPc) (s : State), walk.inside = true →
          Task.inside (.inbox isDynamic messages (.commit walk)) = true ∧
          Task.step C (.inbox isDynamic messages (.commit walk)) s =
            (.inbox isDynamic messages (.commit (walk.step C s).1), (walk.step C s).2) := by
        intro walk s hin
        refine ⟨hin, ?_⟩
        cases walk with
        | done => cases hin
        | _ => rfl
      exact ⟨Through.lift _ hlift (commit_alone s), rfl⟩
    · have hfirst : ∀ isDynamic messages, t ≠ .inbox isDynamic messages (.commit .snapshot) :=
        fun isDynamic messages h => hfirst ⟨isDynamic, messages, h⟩
      rw [(Task.outside_step ht hfirst s).1] at henter
      cases henter
  outside := by
    intro t s ht hstay
    by_cases hfirst : ∃ isDynamic messages, t = .inbox isDynamic messages (.commit .snapshot)
    · obtain ⟨isDynamic, messages, rfl⟩ := hfirst
      cases hstay
    · exact (Task.outside_step ht (fun isDynamic messages h => hfirst ⟨isDynamic, messages, h⟩) s).2

theorem outside_of_idle {t : Task} (hidle : t.idle = true) : t.inside = false := by
  cases t with
  | inbox isDynamic messages pc =>
    cases pc with
    | commit pc => cases hidle
    | _ => rfl
  | _ => rfl

/-- The atomic machine has executed what the other one has, and maybe the rest of one walk. -/
theorem executions_of_ahead {m m' : Machine State Task} (hm : AllBacked C m)
    (h : Ahead (Task.step C) Task.inside m m') :
    m.shared.executions <+: m'.shared.executions ∧
      ((∀ t ∈ m.tasks, t.inside = false) → m' = m) := by
  rcases h with ⟨rfl, -⟩ | ⟨i, t, t', hi, hin, -, hthrough, -, -⟩
  · exact ⟨List.prefix_rfl, fun _ => rfl⟩
  · have ht := List.mem_of_getElem? hi
    have hgrows : Grows C m.shared.core m'.shared.core := hthrough.across backed_respects
      (fun _ _ => trivial) (fun s => .refl s.core) .trans hm.1 (hm.2 t ht)
    refine ⟨hgrows.executions, fun hout => ?_⟩
    rw [hout t ht] at hin
    cases hin

/-- **Commit walks.**  Under every schedule nothing is executed twice.  Ancestors are executed first if
    walks pass over executed certificates only; and if no walk is interrupted, the executions are those
    of a schedule of the same tasks with `tryCommit` in one step. -/
theorem commit_walks_linearisable {manifest : GenesisManifest} {selfId : AuthorityId}
    {tasks : List Task} (hidle : ∀ t ∈ tasks, t.idle = true) (schedule : List Nat) :
    let m₀ := started C manifest selfId tasks
    let m := m₀.run (Task.step C) schedule
    m.shared.core.executed.Nodup ∧
    (Runs.Along (Machine.step (Task.step C)) (Picked PassesExecuted) schedule m₀ →
      AncestorsFirst m.shared.dag m.shared.core.executed) ∧
    (Runs.Along (Machine.step (Task.step C)) (Uninterrupted Task.inside) schedule m₀ →
      AncestorsFirst m.shared.dag m.shared.core.executed ∧
      ∃ schedule', let m' := m₀.run (Task.stepAtomic C) schedule'
        m.shared.executions <+: m'.shared.executions ∧
          ((∀ t ∈ m.tasks, t.inside = false) → m' = m)) := by
  intro m₀ m
  have hbacked := backed_started (C := C) manifest selfId hidle
  have haccounted := accounted_started (C := C) manifest selfId hidle
  refine ⟨executed_nodup hidle schedule, ancestors_first hidle, fun hu => ⟨?_, ?_⟩⟩
  · exact ancestors_first hidle (hu.imp (fun m i h _ => accounted_move m i h)
      (fun m i h => passesExecuted_of_uninterrupted h.2) ⟨hbacked, haccounted⟩)
  · obtain ⟨schedule', hahead⟩ := walk_block.simulation
      (.inl ⟨rfl, fun t ht => outside_of_idle (hidle t ht)⟩) hu
    exact ⟨schedule', executions_of_ahead
      (backed_respects.run hbacked (along_true (Task.step C) schedule _)) hahead⟩

end Sequential

/-! ## Two walks that overlap

    One authority signs a chain of three certificates.  The votes for the first and for the second
    arrive from two peers. -/

def overlappingTasks : List Task :=
  [.inbox false [.block (emptyBlock root0), .block (emptyBlock first0), .cert (briefSigned root0),
      .cert (briefSigned first0), .cert (briefSigned chain2), .vote ⟨0, root0.1⟩] .idle,
    .inbox false [.vote ⟨0, first0.1⟩] .idle]

/-- The first walk claims `root0`, the second one runs to its end, the first one goes on. -/
def overlapping : List Nat := List.replicate 62 0 ++ List.replicate 24 1 ++ List.replicate 12 0

/-- One walk after the other. -/
def consecutive : List Nat := List.replicate 74 0 ++ List.replicate 24 1

/-- **The second walk executes a certificate whose parent is claimed and not executed.** -/
theorem overlapping_walks_swap :
    let m := (started briefScheme soloManifest 1 overlappingTasks).run (Task.step briefScheme)
      overlapping
    ((∀ t ∈ overlappingTasks, t.idle = true) ∧ m.tasks.map Task.idle = [true, true] ∧
      m.shared.core.executed = [first0.1, root0.1] ∧ first0.2.parents = [root0.1]) ∧
    ¬ AncestorsFirst m.shared.dag m.shared.core.executed := by
  refine ⟨by decide +kernel, ?_⟩
  have hlate : root0.1 ≠ first0.1 := by decide
  exact not_ancestorsFirst [root0.1] (by decide +kernel) (by decide +kernel) hlate

/-- One after the other they execute the chain in order, as two calls of `tryCommit` do. -/
theorem commit_walks_linearisable_consecutive :
    let m₀ := started briefScheme soloManifest 1 overlappingTasks
    let m := m₀.run (Task.step briefScheme) consecutive
    m.shared.core.executed = [root0.1, first0.1] ∧
      AncestorsFirst m.shared.dag m.shared.core.executed ∧
      ∃ schedule', m₀.run (Task.stepAtomic briefScheme) schedule' = m := by
  have hidle : ∀ t ∈ overlappingTasks, t.idle = true := by decide +kernel
  have hu : Runs.Along (Machine.step (Task.step briefScheme)) (Uninterrupted Task.inside) consecutive
      (started briefScheme soloManifest 1 overlappingTasks) := by decide +kernel
  obtain ⟨hfirst, schedule', -, hsame⟩ := (commit_walks_linearisable hidle consecutive).2.2 hu
  exact ⟨by decide +kernel, hfirst, schedule', hsame (by decide +kernel)⟩

end SuwappuDag.Node
