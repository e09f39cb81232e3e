/-
  BLOCK HEIGHTS, in the order of execution.

  `execute_block` sets the height of the substrate to the round of the certificate.  A leader's history
  is sorted by round, but a LATER leader may bring in certificates of earlier rounds that no leader
  before it has cited, and the height then goes back (`late_block_reopens_genesis`).

  1. **In a block** — every intent is applied at the block's own height (`substrateAt_height`).
  2. **In a history** — what one leader commits comes in the order of the rounds
     (`commitHistory_ordered`).
  3. **In a walk** — heights go forward if, whenever a commit starts, what a leader would bring in from
     below an earlier leader's slot is in that leader's history (`State.InOrder`).
  4. **Payoff** — `heights_forward`.
-/
import SuwappuDag.Execution.Slots
import SuwappuDag.Node.CommitOrder
import SuwappuDag.Node.Governance

namespace SuwappuDag.Node

open Words Consensus Execution Reserved
open Emit (appendNew)
open Runs (Chronicle along_of_forall)

/-! ## In a block -/

section Block

variable {C : Crypto}

theorem executeStep_height (hres : ReservedDistinct C.blake3) (acc : Tally × InMemorySubstrate)
    (entry : Intent × Nat) :
    (executeStep C.blake3 acc entry).2.currentBlockHeight = acc.2.currentBlockHeight := by
  have hkeep := (applyIntent_touches hres acc.2 entry.1).height
  unfold executeStep
  split
  · rfl
  · split
    · next heq => rwa [heq] at hkeep
    · next heq => rwa [heq] at hkeep

/-- Every intent of a block is applied at the height of the block. -/
theorem substrateAt_height (hres : ReservedDistinct C.blake3) {e : ExecutedBlock} {idx : Nat}
    {t : InMemorySubstrate} (h : e.substrateAt C idx = some t) : t.currentBlockHeight = e.round := by
  have hfold : ∀ (entries : List (Intent × Nat)) (acc : Tally × InMemorySubstrate),
      (entries.foldl (executeStep C.blake3) acc).2.currentBlockHeight = acc.2.currentBlockHeight := by
    intro entries
    induction entries with
    | nil => exact fun _ => rfl
    | cons entry entries ih => exact fun acc => (ih _).trans (executeStep_height hres acc entry)
  unfold ExecutedBlock.substrateAt at h
  dsimp only at h
  split at h
  · cases h
  · rw [← Option.some.inj h, hfold]
    rfl

/-- Genesis funding is refused above height 0. -/
theorem genesisAllocation_refused {t : InMemorySubstrate} (h : t.currentBlockHeight ≠ 0)
    (allocations : List (Address × Balance)) :
    (applyIntent C.blake3 (.genesisAllocation allocations) t).1 ≠ .ok () := by
  have hrun : applyIntent C.blake3 (.genesisAllocation allocations) t =
      (.error (.genesisAfterBootstrap t.currentBlockHeight), t) := by
    show applyGenesisAllocation allocations t = _
    rw [applyGenesisAllocation, Command.read_bind_run, Command.failIf_bind_run_pos h]
  rw [hrun]
  exact fun h => by cases h

end Block

/-! ## In a history -/

section History

variable {C : Crypto}

/-- No block has been executed at a height below an earlier one. -/
def RoundsAscend (executions : List ExecutedBlock) : Prop :=
  executions.Pairwise fun e e' => e.round ≤ e'.round

/-- The heights so far stay below what the history would still bring in. -/
def Below (s : State) (history : List CertHash) : Prop :=
  ∀ e ∈ s.executions, ∀ h ∈ history, h ∉ s.committed → ∀ c, s.dag.get h = some c → e.round ≤ c.round

theorem round_le_of_historyKey_le {dag : DagStore} {a b : CertHash} {ca cb : Certificate}
    (ha : dag.get a = some ca) (hb : dag.get b = some cb) (h : dag.historyKey a ≤ dag.historyKey b) :
    ca.round ≤ cb.round := by
  unfold DagStore.historyKey at h
  rw [ha, hb] at h
  rcases Prod.Lex.toLex_le_toLex.mp h with hlt | heq
  · exact le_of_lt hlt
  · exact le_of_eq heq.1

/-- **One leader**: its history is executed in the order of the rounds. -/
theorem commitHistory_ordered : ∀ (history : List CertHash) (s : State),
    history.Pairwise (fun a b => s.dag.historyKey a < s.dag.historyKey b) → Below s history →
    RoundsAscend s.executions →
    RoundsAscend (commitHistory C history s).1.executions ∧
      ∀ e ∈ (commitHistory C history s).1.executions, e ∈ s.executions ∨
        ∃ h ∈ history, ∃ c, s.dag.get h = some c ∧ e.round = c.round := by
  intro history
  induction history with
  | nil => exact fun s _ _ hs => ⟨hs, fun e he => Or.inl he⟩
  | cons h history ih =>
    intro s hsorted hbelow hs
    obtain ⟨hfirst, hrest⟩ := List.pairwise_cons.mp hsorted
    have hbelow' : Below s history := fun e he k hk => hbelow e he k (List.mem_cons_of_mem _ hk)
    have hskip := ih s hrest hbelow' hs
    have hskipped : RoundsAscend (commitHistory C history s).1.executions ∧
        ∀ e ∈ (commitHistory C history s).1.executions, e ∈ s.executions ∨
          ∃ k ∈ h :: history, ∃ c, s.dag.get k = some c ∧ e.round = c.round := by
      refine ⟨hskip.1, fun e he => (hskip.2 e he).imp_right ?_⟩
      rintro ⟨k, hk, c, hc⟩
      exact ⟨k, List.mem_cons_of_mem _ hk, c, hc⟩
    rw [commitHistory]
    split
    · exact hskipped
    · next hfresh =>
      split
      · exact hskipped
      · next cert hcert =>
        split
        · exact ⟨hs, fun e he => Or.inl he⟩
        · next block hblock =>
          have hdag := executeCert_dag C s h cert block
          have hexec := executeCert_executions C s h cert block
          -- what is still to come is of this round or later
          have hnext : Below (executeCert C s h cert block) history := by
            intro e he k hk hnot c hc
            rw [hdag] at hc
            rw [executeCert_committed] at hnot
            rw [hexec, List.mem_append, List.mem_singleton] at he
            rcases he with he | rfl
            · exact hbelow' e he k hk (fun hin => hnot (List.mem_append_left _ hin)) c hc
            · exact round_le_of_historyKey_le hcert hc (le_of_lt (hfirst k hk))
          have hordered : RoundsAscend (executeCert C s h cert block).executions := by
            rw [hexec, RoundsAscend, List.pairwise_append]
            refine ⟨hs, List.pairwise_singleton _ _, fun e he e' he' => ?_⟩
            rw [List.mem_singleton.mp he']
            exact hbelow e he h List.mem_cons_self hfresh cert hcert
          obtain ⟨hdone, hnew⟩ := ih _ (by rwa [hdag]) hnext hordered
          refine ⟨hdone, fun e he => ?_⟩
          rcases hnew e he with hold | ⟨k, hk, c, hc, hround⟩
          · rw [hexec, List.mem_append, List.mem_singleton] at hold
            rcases hold with hold | rfl
            · exact Or.inl hold
            · exact Or.inr ⟨h, List.mem_cons_self, cert, hcert, rfl⟩
          · exact Or.inr ⟨k, List.mem_cons_of_mem _ hk, c, hdag ▸ hc, hround⟩

end History

/-! ## In a walk -/

section Walk

variable {C : Crypto}

/-- The decided leader of a slot, if it is not committed. -/
def State.nextLeader (s : State) (r : Round) : Option CertHash :=
  match decideSlot s.dag r s.committee.nAuthorities with
  | .direct h => if h ∈ s.committed then none else some h
  | _ => none

/-- What a decided leader would bring in is of no lower round than what has been executed; and what it
    would bring in from below the slot of an earlier decided leader is in that one's history. -/
def State.InOrder (s : State) : Prop :=
  ∀ r ∈ s.dag.rounds, ∀ leader ∈ s.nextLeader r, ∀ h ∈ causalHistory s.dag leader, h ∉ s.committed →
    ∀ c ∈ s.dag.get h, (∀ e ∈ s.executions, e.round ≤ c.round) ∧
      ∀ r' ∈ s.dag.rounds, r' < r → ∀ leader' ∈ s.nextLeader r', c.round < r' →
        h ∈ causalHistory s.dag leader'

instance (s : State) : Decidable s.InOrder := by
  unfold State.InOrder
  infer_instance

theorem mem_nextLeader {s : State} {r : Round} {h : CertHash}
    (hd : decideSlot s.dag r s.committee.nAuthorities = .direct h) (hnew : h ∉ s.committed) :
    h ∈ s.nextLeader r := by
  rw [State.nextLeader, hd]
  exact Option.mem_def.mpr (if_neg hnew)

/-- What the walk that started at `s` has executed when it is at `t`, with `rounds` ahead: what had been
    executed at `s`, and whole histories of leaders of slots behind it. -/
structure Walked (s t : State) (rounds : List Round) : Prop where
  dag : t.dag = s.dag
  committed : s.committed ⊆ t.committed
  ordered : RoundsAscend t.executions
  executed : ∀ e ∈ t.executions, e ∈ s.executions ∨
    ∃ r ∈ s.dag.rounds, (∀ r' ∈ rounds, r < r') ∧ e.round ≤ r ∧
      ∃ leader ∈ s.nextLeader r, ∀ h ∈ causalHistory s.dag leader, h ∈ t.committed

theorem Walked.skip {s t : State} {r : Round} {rounds : List Round} (h : Walked s t (r :: rounds)) :
    Walked s t rounds := by
  refine ⟨h.dag, h.committed, h.ordered, fun e he => (h.executed e he).imp_right ?_⟩
  rintro ⟨q, hq, hahead, hrest⟩
  exact ⟨q, hq, fun r' hr' => hahead r' (List.mem_cons_of_mem _ hr'), hrest⟩

/-- The walk comes to a leader whose history is in order. -/
theorem Walked.below {s t : State} {r : Round} {rounds : List Round} {leader : CertHash}
    (hs : s.InOrder) (h : Walked s t (r :: rounds)) (hr : r ∈ s.dag.rounds)
    (hleader : leader ∈ s.nextLeader r) : Below t (causalHistory s.dag leader) := by
  intro e he k hk hnot c hc
  rw [h.dag] at hc
  obtain ⟨hexecuted, hearlier⟩ := hs r hr leader hleader k hk (fun hin => hnot (h.committed hin)) c hc
  rcases h.executed e he with hold | ⟨q, hq, hahead, hround, leader', hleader', hall⟩
  · exact hexecuted e hold
  · refine hround.trans (not_lt.mp fun hlt => hnot ?_)
    exact hall k (hearlier q hq (hahead r List.mem_cons_self) leader' hleader' hlt)

/-- The walk commits the whole history of a leader. -/
theorem Walked.commit {s t : State} {r : Round} {rounds : List Round} {leader : CertHash}
    (wf : s.dag.WellFormed C.blake3) (hs : s.InOrder) (h : Walked s t (r :: rounds))
    (hr : r ∈ s.dag.rounds) (hahead : ∀ r' ∈ rounds, r < r')
    (hd : decideSlot s.dag r s.committee.nAuthorities = .direct leader) (hnew : leader ∉ t.committed) :
    RoundsAscend (commitHistory C (causalHistory s.dag leader) t).1.executions ∧
      ((commitHistory C (causalHistory s.dag leader) t).2 = true →
        Walked s (commitHistory C (causalHistory s.dag leader) t).1 rounds) := by
  have hleader := mem_nextLeader hd fun hin => hnew (h.committed hin)
  obtain ⟨cl, hcl, hround, -⟩ := decided_stored wf hd
  have hstored : ∀ k ∈ causalHistory s.dag leader, ∃ c, t.dag.get k = some c := by
    intro k hk
    rw [h.dag]
    exact (mem_causalHistory.mp hk).1
  have hsorted : (causalHistory s.dag leader).Pairwise
      fun a b => t.dag.historyKey a < t.dag.historyKey b := by
    rw [h.dag]
    exact causalHistory_sorted leader
  obtain ⟨hordered, hexecuted⟩ :=
    commitHistory_ordered (C := C) _ t hsorted (h.below hs hr hleader) h.ordered
  obtain ⟨hdag, p, -, hlog, hwhole⟩ := commitHistory_spec (C := C) _ t hstored
  refine ⟨hordered, fun hend => ?_⟩
  have hmem : ∀ k, k ∈ (commitHistory C (causalHistory s.dag leader) t).1.committed ↔
      k ∈ t.committed ∨ k ∈ causalHistory s.dag leader := by
    intro k
    rw [hlog, hwhole hend]
    exact Emit.mem_appendNew
  refine ⟨hdag.trans h.dag, fun k hk => (hmem k).mpr (Or.inl (h.committed hk)), hordered,
    fun e he => ?_⟩
  rcases hexecuted e he with hold | ⟨k, hk, c, hc, hec⟩
  · refine (h.skip.executed e hold).imp_right ?_
    rintro ⟨q, hq, hq', hround', leader', hleader', hall⟩
    exact ⟨q, hq, hq', hround', leader', hleader', fun k hk => (hmem k).mpr (Or.inl (hall k hk))⟩
  · -- a block of the leader's own history: its round is at most the slot
    refine Or.inr ⟨r, hr, hahead, ?_, leader, hleader, fun k hk => (hmem k).mpr (Or.inr hk)⟩
    rw [hec, ← hround]
    rw [h.dag] at hc
    exact round_le_of_historyKey_le hc hcl (historyKey_le_of_mem wf hcl hk)

theorem commitWalk_ordered {s : State} (wf : s.dag.WellFormed C.blake3) (hs : s.InOrder)
    (votes : List Vote) : ∀ (rounds : List Round) (t : State), rounds.Pairwise (· < ·) →
      rounds ⊆ s.dag.rounds → Walked s t rounds →
      RoundsAscend (commitWalk C votes s.committee.nAuthorities rounds t).executions := by
  intro rounds
  induction rounds with
  | nil => exact fun t _ _ h => h.ordered
  | cons r rounds ih =>
    intro t hsorted hsub h
    obtain ⟨hahead, hrest⟩ := List.pairwise_cons.mp hsorted
    have hr : r ∈ s.dag.rounds := hsub List.mem_cons_self
    have hsub' : rounds ⊆ s.dag.rounds := fun x hx => hsub (List.mem_cons_of_mem _ hx)
    rw [commitWalk, h.dag]
    split
    · next leader hd =>
      split
      · exact ih t hrest hsub' h.skip
      · next hnew =>
        split
        · exact h.ordered
        · obtain ⟨hordered, hwalked⟩ := h.commit (C := C) wf hs hr hahead hd hnew
          split
          · next u hu =>
            rw [hu] at hwalked
            exact ih u hrest hsub' (hwalked rfl)
          · next u hu =>
            rw [hu] at hordered
            exact hordered
    · exact ih t hrest hsub' h.skip

/-- **One `try_commit`.** -/
theorem tryCommit_ordered {s : State} (wf : s.dag.WellFormed C.blake3) (hs : s.InOrder)
    (hordered : RoundsAscend s.executions) : RoundsAscend (tryCommit C s).executions :=
  commitWalk_ordered wf hs _ _ s (rounds_increasing s.dag) (fun _ h => h)
    ⟨rfl, fun _ h => h, hordered, fun e he => Or.inl he⟩

end Walk

/-! ## Payoff -/

section Run

variable {C : Crypto}

/-- A commit of the run meets a state that is in order. -/
def LocalStep.InOrder (s : State) : LocalStep → Prop
  | .commit => s.InOrder
  | _ => True

instance (s : State) : ∀ step : LocalStep, Decidable (step.InOrder s)
  | .commit => inferInstanceAs (Decidable s.InOrder)
  | .insert _ => .isTrue trivial
  | .store _ => .isTrue trivial
  | .vote _ => .isTrue trivial

theorem exec_ordered {s : State} {step : LocalStep} (hstep : step.InOrder s)
    (hs : s.dag.Reachable C.blake3 ∧ RoundsAscend s.executions) :
    (step.exec C s).dag.Reachable C.blake3 ∧ RoundsAscend (step.exec C s).executions := by
  obtain ⟨hdag, hordered⟩ := hs
  cases step with
  | insert cert =>
    show (ingestStep C cert ⟨s, [], []⟩).state.dag.Reachable C.blake3 ∧
      RoundsAscend (ingestStep C cert ⟨s, [], []⟩).state.executions
    rcases ingestStep_state (C := C) cert ⟨s, [], []⟩ with heq | ⟨missing, heq⟩ | ⟨h, dag, hins, heq⟩
    · rw [heq]
      exact ⟨hdag, hordered⟩
    · rw [heq, bufferOrphan_frame State.dag (by intros; rfl),
        bufferOrphan_frame State.executions (by intros; rfl)]
      exact ⟨hdag, hordered⟩
    · rw [heq]
      exact ⟨hdag.tail ⟨cert, h, hins⟩, hordered⟩
  | store block => exact ⟨hdag, hordered⟩
  | vote v => exact ⟨hdag, hordered⟩
  | commit =>
    have hsame : CommitInvariant C fun t => t.dag.Reachable C.blake3 :=
      ⟨fun h hs => hs, fun hs _ _ _ => by rwa [executeCert_dag]⟩
    exact ⟨hsame.walk _ _ _ hdag, tryCommit_ordered hdag.wellFormed hstep hordered⟩

/-- No genesis allocation of the block succeeds once a block above round 0 has been executed. -/
def GenesisClosed (C : Crypto) (past : List ExecutedBlock) (e : ExecutedBlock) : Prop :=
  (∃ p ∈ past, 0 < p.round) → ∀ idx allocations t,
    e.intents[idx]? = some (.genesisAllocation allocations) → e.substrateAt C idx = some t →
    (applyIntent C.blake3 (.genesisAllocation allocations) t).1 ≠ .ok ()

/-- An exit of the block that succeeds starts its clock at no lower height than those before. -/
def ClocksForward (C : Crypto) (past : List ExecutedBlock) (e : ExecutedBlock) : Prop :=
  ∀ idx intent ring id t, e.intents[idx]? = some intent → intent.slotOp = some (ring, id, .exit) →
    e.substrateAt C idx = some t → (applyIntent C.blake3 intent t).1 = .ok () →
    ∃ map slot, ring.Holds C.blake3 (applyIntent C.blake3 intent t).2 map ∧ map[id]? = some slot ∧
      slot.status = .exiting ∧ ∀ p ∈ past, p.round ≤ slot.exitBlockHeight

theorem genesisClosed_of_le (hres : ReservedDistinct C.blake3) {past : List ExecutedBlock}
    {e : ExecutedBlock} (h : ∀ p ∈ past, p.round ≤ e.round) : GenesisClosed C past e := by
  rintro ⟨p, hp, hpos⟩ idx allocations t - ht
  refine genesisAllocation_refused ?_ allocations
  rw [substrateAt_height hres ht]
  exact ne_of_gt (lt_of_lt_of_le hpos (h p hp))

theorem clocksForward_of_le (hres : ReservedDistinct C.blake3) {past : List ExecutedBlock}
    {e : ExecutedBlock} (h : ∀ p ∈ past, p.round ≤ e.round) : ClocksForward C past e := by
  rintro idx intent ring id t - hop ht hok
  have houtcome : SlotOp.exit.Outcome C.blake3 ring id t (applyExit C.blake3 ring id t) :=
    exit_outcome id
  have hrun : applyIntent C.blake3 intent = applyExit C.blake3 ring id := applyIntent_of_slotOp hop
  rw [hrun] at hok ⊢
  rcases houtcome with ⟨-, hidle⟩ | ⟨-, map, slot, hchange⟩
  · exact absurd (hidle hok) (fun h => h)
  · obtain ⟨old, hold, -, hnew⟩ := hchange.step
    refine ⟨map.insert id slot, slot, hchange.holds, Std.ExtTreeMap.getElem?_insert_self, ?_, ?_⟩
    · rw [hnew]
    · intro p hp
      rw [hnew]
      show p.round ≤ t.currentBlockHeight
      rw [substrateAt_height hres ht]
      exact h p hp

/-- **Heights.**  In every run whose commits all meet a state in order, the heights set by the executed
    blocks never go back; so genesis funding stays closed, and no exit clock starts below a height that
    has been reached. -/
theorem heights_forward (hres : ReservedDistinct C.blake3) {manifest : GenesisManifest}
    {selfId : AuthorityId} {steps : List LocalStep}
    (horder : Runs.Along (fun s step => LocalStep.exec C step s) (fun s step => step.InOrder s) steps
      (State.new C manifest selfId)) :
    let executions := (runSteps C steps (State.new C manifest selfId)).executions
    RoundsAscend executions ∧ Chronicle (GenesisClosed C) executions ∧
      Chronicle (ClocksForward C) executions := by
  have hstart : (State.new C manifest selfId).dag.Reachable C.blake3 ∧
      RoundsAscend (State.new C manifest selfId).executions := ⟨.refl, List.Pairwise.nil⟩
  have hordered : RoundsAscend (runSteps C steps (State.new C manifest selfId)).executions :=
    (Runs.Along.invariant (I := fun s => s.dag.Reachable C.blake3 ∧ RoundsAscend s.executions)
      (fun s step hs hstep => exec_ordered hstep hs) hstart horder).2
  have hpast : ∀ past e rest,
      (runSteps C steps (State.new C manifest selfId)).executions = past ++ e :: rest →
      ∀ p ∈ past, p.round ≤ e.round := by
    intro past e rest hcut p hp
    rw [hcut, RoundsAscend, List.pairwise_append] at hordered
    exact hordered.2.2 p hp e List.mem_cons_self
  exact ⟨hordered, fun past e rest hcut => genesisClosed_of_le hres (hpast past e rest hcut),
    fun past e rest hcut => clocksForward_of_le hres (hpast past e rest hcut)⟩

end Run

/-! ## A late block

    Four honest authorities, no timeouts.  The first certificate of authority 3 reaches the others only
    behind its second one, so the leaders of slots 0 and 1 do not cite it and the leader of slot 2
    does. -/

def root2 : CertHash × Certificate :=
  (0xb0367779f31f3d458c9bbfbe2a4bb5a65ee2eb0a844947fc6eeb36fd352ca8f3#256,
    ⟨2, 0, [], emptyPayload, []⟩)

/-- Authority 3's first certificate, with a genesis allocation; the others do not get it in time. -/
def fund3 : CertHash × Certificate :=
  (0xffbb1f9f82f1c540fa3919e651417cb012c35dfb58b42de84a9340eb32f57149#256,
    ⟨3, 0, [], 0x39b0997e016439e3f7a49c57c1ea5b7644ba981d34c698fbbd3389b67760722b#256, []⟩)

def early0 : CertHash × Certificate :=
  (0xa6ee1325dd2d41b9a7bae44b4dc363bc619c919b7f7a8df559e187484e8e0d11#256,
    ⟨0, 1, [root0.1, root1.1, root2.1], emptyPayload, []⟩)

def early1 : CertHash × Certificate :=
  (0x5ff8233b983f06f43f834fdce8508a17364b87a86245a6fbad297e3d6b7d1bfa#256,
    ⟨1, 1, [root0.1, root1.1, root2.1], emptyPayload, []⟩)

def early2 : CertHash × Certificate :=
  (0x8c4ca8ca1eebc7b49b68aed4d08c507292db5a39769e568b34f9c406a63f94d2#256,
    ⟨2, 1, [root0.1, root1.1, root2.1], emptyPayload, []⟩)

/-- Authority 3 cites its own. -/
def join3 : CertHash × Certificate :=
  (0xc4c59483de7239f3778c43c73aeefdb9c29efc57767dff380bc3c55369cb66b0#256,
    ⟨3, 1, [root0.1, root1.1, root2.1, fund3.1], emptyPayload, []⟩)

def next0 : CertHash × Certificate :=
  (0xf3499f38a4f006f4d38f4fe87df5eb9d2c754d8358f1ae430fca61c18c2e4860#256,
    ⟨0, 2, [early0.1, early1.1, early2.1], emptyPayload, []⟩)

def next1 : CertHash × Certificate :=
  (0x8ecab3edad1181848ca6b2d4c70ad20e30d33564c5e0eb1b57fff51b7c241a79#256,
    ⟨1, 2, [early0.1, early1.1, early2.1], emptyPayload, []⟩)

/-- The leader of slot 2 is the first one behind which it stands. -/
def join2 : CertHash × Certificate :=
  (0x7d1e8c4989d3a716287f5232a66b27361bda896b123ec489fd5bdaf3ca783ef9#256,
    ⟨2, 2, [early0.1, early1.1, early2.1, join3.1], emptyPayload, []⟩)

def last0 : CertHash × Certificate :=
  (0x2810692b424084022cc43b508c445350b1863a9cfae3b1ae4ef46101e06b9fd1#256,
    ⟨0, 3, [next0.1, next1.1, join2.1], emptyPayload, []⟩)

def last1 : CertHash × Certificate :=
  (0x499cb1da36a6b0b739c38858901389330481acdbf6e8c2e4913354ebf5865166#256,
    ⟨1, 3, [next0.1, next1.1, join2.1], emptyPayload, []⟩)

def last2 : CertHash × Certificate :=
  (0xab111c562a613cfe5a97824dacfd3ee60e8bd8eecc11eb86cd49eaa363ce062f#256,
    ⟨2, 3, [next0.1, next1.1, join2.1], emptyPayload, []⟩)

/-- Four authorities of equal stake. -/
def briefFour : GenesisManifest :=
  ⟨List.replicate 32 7, (List.range 4).map fun i =>
    ⟨UInt32.ofNat i, 100000, 25000, briefKey (UInt32.ofNat i)⟩, [], 0⟩

/-- The block with the genesis allocation. -/
def fundBlock : BlockPayload :=
  ⟨fund3.2.payloadDigest, 3, 0, fund3.1, [.genesisAllocation [(1, 9)]], []⟩

/-- Lowest round first. -/
def lateBlockUniverse : List (CertHash × Certificate) :=
  [root0, root1, root2, fund3, early0, early1, early2, join3, next0, next1, join2, last0, last1, last2]

/-- The first three rounds; the blocks that the first two leaders commit, and votes for these. -/
def twoSlots : List LocalStep :=
  [root0, root1, root2, fund3, early0, early1, early2, join3, next0, next1, join2].map
      (fun p => .insert (briefSigned p)) ++
    [root0, root1, root2, early1].map (fun p => .store (emptyBlock p)) ++
    [root0, early1].flatMap fun p => [0, 1, 2].map fun v => .vote ⟨v, p.1⟩

/-- The fourth round; the blocks that the leader of slot 2 adds, and votes for it. -/
def thirdSlot : List LocalStep :=
  [last0, last1, last2].map (fun p => .insert (briefSigned p)) ++ [.store fundBlock] ++
    [early0, early2, join3, join2].map (fun p => .store (emptyBlock p)) ++
    [0, 1, 2].map fun v => .vote ⟨v, join2.1⟩

/-- What the commit behind the first three rounds meets: slot 2 is open, and nothing is executed. -/
theorem twoSlots_inOrder :
    (runSteps briefScheme twoSlots (State.new briefScheme briefFour 0)).InOrder := by
  have hfacts : (runSteps briefScheme twoSlots (State.new briefScheme briefFour 0)).dag.rounds =
        [0, 1, 2] ∧
      (runSteps briefScheme twoSlots (State.new briefScheme briefFour 0)).nextLeader 2 = none ∧
      (runSteps briefScheme twoSlots (State.new briefScheme briefFour 0)).executions.length = 0 := by
    decide +kernel
  obtain ⟨hrounds, hopen, hnothing⟩ := hfacts
  intro r hr leader hleader h hh hnew c hc
  rw [List.length_eq_zero_iff.mp hnothing]
  refine ⟨fun e he => (by cases he), fun r' hr' hlt leader' hleader' hround => ?_⟩
  -- only slot 0 is below a decided one, and no round is below 0
  rw [hrounds] at hr hr'
  have hcases : r = 2 ∨ r' = 0 := by
    simp only [List.mem_cons, List.not_mem_nil, or_false] at hr hr'
    rcases hr with rfl | rfl | rfl <;> rcases hr' with rfl | rfl | rfl <;>
      first | exact Or.inl rfl | exact Or.inr rfl | exact absurd hlt (by decide)
  rcases hcases with rfl | rfl
  · rw [hopen] at hleader
    cases hleader
  · exact absurd hround (Nat.not_lt_zero _)

/-- The first two leaders are committed in order. -/
theorem heights_forward_twoSlots :
    (runSteps briefScheme (twoSlots ++ [.commit])
        (State.new briefScheme briefFour 0)).executions.map ExecutedBlock.round = [0, 0, 0, 1] ∧
      RoundsAscend (runSteps briefScheme (twoSlots ++ [.commit])
        (State.new briefScheme briefFour 0)).executions := by
  have hres : ReservedDistinct briefScheme.blake3 := blake3_reservedDistinct
  have hquiet : ∀ (s : State), ∀ step ∈ twoSlots, step.InOrder s := by
    intro s step hstep
    cases step with
    | commit => simp [twoSlots] at hstep
    | _ => trivial
  have horder : Runs.Along (fun s step => LocalStep.exec briefScheme step s)
      (fun s step => step.InOrder s) (twoSlots ++ [.commit]) (State.new briefScheme briefFour 0) :=
    (along_of_forall hquiet _).append ⟨twoSlots_inOrder, trivial⟩
  exact ⟨by decide +kernel, (heights_forward hres horder).1⟩

/-- **Genesis funding after round 1.**  No author has two certificates at one round; the leader of
    slot 2 brings the height back from 1 to 0, and the allocation of that block is paid. -/
theorem late_block_reopens_genesis :
    (∀ p ∈ lateBlockUniverse, ∀ q ∈ lateBlockUniverse, p.2.author = q.2.author →
      p.2.round = q.2.round → p = q) ∧
    (runSteps briefScheme (twoSlots ++ [.commit] ++ thirdSlot ++ [.commit])
      (State.new briefScheme briefFour 0)).executions.map ExecutedBlock.round =
        [0, 0, 0, 1, 0, 1, 1, 1, 2] ∧
    ¬ RoundsAscend (runSteps briefScheme (twoSlots ++ [.commit] ++ thirdSlot ++ [.commit])
      (State.new briefScheme briefFour 0)).executions ∧
    ((runSteps briefScheme (twoSlots ++ [.commit] ++ thirdSlot ++ [.commit])
      (State.new briefScheme briefFour 0)).substrate.balance 1).toNat = 9 := by
  have hrun : (∀ p ∈ lateBlockUniverse, ∀ q ∈ lateBlockUniverse, p.2.author = q.2.author →
        p.2.round = q.2.round → p = q) ∧
      (runSteps briefScheme (twoSlots ++ [.commit] ++ thirdSlot ++ [.commit])
        (State.new briefScheme briefFour 0)).executions.map ExecutedBlock.round =
          [0, 0, 0, 1, 0, 1, 1, 1, 2] ∧
      ((runSteps briefScheme (twoSlots ++ [.commit] ++ thirdSlot ++ [.commit])
        (State.new briefScheme briefFour 0)).substrate.balance 1).toNat = 9 := by
    decide +kernel
  obtain ⟨honce, hexecuted, hpaid⟩ := hrun
  refine ⟨honce, hexecuted, fun hordered => ?_, hpaid⟩
  have hrounds := List.pairwise_map.mpr hordered
  rw [hexecuted] at hrounds
  exact absurd hrounds (by decide)

end SuwappuDag.Node
