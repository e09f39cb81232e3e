/-
  THE COMMIT LOGS OF TWO NODES.

  Two nodes hold different parts of one universe of certificates, and each walks its own slots.

  1. **Program** — a run of atomic steps (`LocalStep`): take in one certificate, store a block, record
     a vote, run `tryCommit` to its end.
  2. **Specification** — the two `committed` logs are prefix-comparable.
  3. **Crux** — an UNDECIDED slot does not stop the walk, a missing block or quorum does.  So the walk
     commits slot `s` while a lower slot `r` is open in this view, and another node that sees `r`
     decided commits it first (`open_slot_forks_logs`).  When at every `tryCommit` a view has decided
     whatever the universe decides below its own decided slots (`Settled`), each log is a prefix of
     ONE list, what `finalize` gives for the whole universe (`committed_comparable`).
-/
import SuwappuDag.Consensus.Universe
import SuwappuDag.Node.Invariant
import SuwappuDag.Node.Scheme

namespace SuwappuDag.Node

open Words Consensus Execution
open Emit (emit appendNew)
open DagStore (universeStore)

/-! ## Runs of one node -/

inductive LocalStep where
  | insert (cert : Certificate)
  | store (block : BlockPayload)
  | vote (v : Vote)
  | commit

/-- One atomic step; a certificate is taken in by one turn of the ingest loop. -/
def LocalStep.exec (C : Crypto) (step : LocalStep) (s : State) : State :=
  match step with
  | .insert cert => (ingestStep C cert ⟨s, [], []⟩).state
  | .store block => storeBlock C s block
  | .vote v => pushVote s v
  | .commit => tryCommit C s

def runSteps (C : Crypto) (steps : List LocalStep) (s : State) : State :=
  steps.foldl (fun s step => step.exec C s) s

/-- No executed block holds a governance intent. -/
def NoGovernance (executions : List ExecutedBlock) : Prop :=
  ∀ e ∈ executions, ∀ intent ∈ e.intents, isGovernanceIntent intent = false

instance : DecidablePred NoGovernance := fun executions =>
  inferInstanceAs (Decidable (∀ e ∈ executions, ∀ intent ∈ e.intents, isGovernanceIntent intent = false))

/-- Whatever `full` decides below a slot that `dag` has decided, `dag` has decided too. -/
def Settled (full : DagStore) (n : CommitteeSize) (dag : DagStore) : Prop :=
  ∀ r s h k, r < s → decideSlot full r n = .direct h → decideSlot dag s n = .direct k →
    decideSlot dag r n = .direct h

/-! ## One history -/

section Walk

variable {C : Crypto}

/-- The inner loop writes a part of the history up to where it stopped; the store stays. -/
theorem commitHistory_spec : ∀ (history : List CertHash) (s : State),
    (∀ h ∈ history, ∃ c, s.dag.get h = some c) →
    (commitHistory C history s).1.dag = s.dag ∧
    ∃ p, p <+: history ∧ (commitHistory C history s).1.committed = appendNew s.committed p ∧
      ((commitHistory C history s).2 = true → p = history) := by
  intro history
  induction history with
  | nil => exact fun s _ => ⟨rfl, [], List.prefix_rfl, rfl, fun _ => rfl⟩
  | cons h history ih =>
    intro s hstored
    obtain ⟨⟨cert, hcert⟩, hrest⟩ := List.forall_mem_cons.mp hstored
    rw [commitHistory]
    split
    · next hmem =>
      obtain ⟨hdag, p, hp, hlog, hall⟩ := ih s hrest
      refine ⟨hdag, h :: p, List.cons_prefix_cons.mpr ⟨rfl, hp⟩, ?_, fun hend => by rw [hall hend]⟩
      rw [Emit.appendNew_cons, if_pos hmem, hlog]
    · next hfresh =>
      rw [hcert]
      dsimp only
      split
      · -- the block is missing: the loop stops here, `h` not claimed
        exact ⟨rfl, [], List.nil_prefix, rfl, fun hend => by cases hend⟩
      · next block hblock =>
        have hdag' := executeCert_dag C s h cert block
        obtain ⟨hdag, p, hp, hlog, hall⟩ := ih (executeCert C s h cert block) (by rwa [hdag'])
        refine ⟨hdag.trans hdag', h :: p, List.cons_prefix_cons.mpr ⟨rfl, hp⟩, ?_,
          fun hend => by rw [hall hend]⟩
        rw [Emit.appendNew_cons, if_neg hfresh, hlog, executeCert_committed]

/-! ## One walk -/

/-- A decided slot is one of the rounds the walk goes through. -/
theorem round_mem_rounds {blake3 : List UInt8 → Bytes32} {dag : DagStore} (wf : dag.WellFormed blake3)
    {h : CertHash} {c : Certificate} (hc : dag.get h = some c) : c.round ∈ dag.rounds := by
  rw [DagStore.rounds, Std.ExtTreeMap.mem_keys, wf.present]
  exact List.ne_nil_of_mem (wf.indexed.mpr ⟨c, hc, rfl⟩)

theorem rounds_increasing (dag : DagStore) : dag.rounds.Pairwise (· < ·) := by
  refine Std.ExtTreeMap.ordered_keys.imp ?_
  intro a b hlt
  exact Std.compare_eq_lt.mp hlt

section TwoStores

variable {dag full : DagStore} {n : CommitteeSize}

/-- Leaders before `k` in the whole ledger are in the log, if the log has every decided slot below. -/
theorem earlier_leaders_committed (wf : dag.WellFormed C.blake3) (wf' : full.WellFormed C.blake3)
    (hs : dag.Sub full) (hn : AuthorsBelow n full) (hone : OneCertPerRound full)
    (hsettled : Settled full n dag) {done rounds : List Round} {r : Round} {k : CertHash}
    (hrounds : dag.rounds = done ++ r :: rounds) (hk : decideSlot dag r n = .direct k)
    {log : List CertHash}
    (hdone : ∀ q ∈ done, ∀ h, decideSlot dag q n = .direct h → h ∈ log)
    {u : CertHash} (hu : u ∈ committedLeaders full n)
    (hlt : full.historyKey u < full.historyKey k) : u ∈ log := by
  obtain ⟨q, hq⟩ := (mem_committedLeaders wf').mp hu
  have hqr : q < r := (historyKey_lt_iff wf' hq (hs.decided wf wf' (hn.countsFit wf') hone hk)).mp hlt
  have hq' : decideSlot dag q n = .direct u := hsettled q r u k hqr hq hk
  obtain ⟨c, hc, rfl, -⟩ := decided_stored wf hq'
  -- its slot is present, below `r`, so the walk has passed it
  have hmem := round_mem_rounds wf hc
  have hsorted := rounds_increasing dag
  rw [hrounds] at hmem hsorted
  rcases List.mem_append.mp hmem with hmem | hmem
  · exact hdone _ hmem u hq'
  · have habove := (List.pairwise_cons.mp (List.pairwise_append.mp hsorted).2.1).1
    rcases List.mem_cons.mp hmem with heq | hmem
    · exact absurd hqr (heq ▸ lt_irrefl _)
    · exact absurd hqr (lt_asymm (habove _ hmem))

/-- **The walk keeps the log a prefix of the whole ledger.**  `done` are the rounds it has passed:
    their leaders are in the log. -/
theorem commitWalk_prefix_finalize (wf : dag.WellFormed C.blake3) (wf' : full.WellFormed C.blake3)
    (hs : dag.Sub full) (hn : AuthorsBelow n full) (hone : OneCertPerRound full)
    (hsettled : Settled full n dag) (votes : List Vote) :
    ∀ (rounds done : List Round) (s : State), s.dag = dag → dag.rounds = done ++ rounds →
      (∀ q ∈ done, ∀ h, decideSlot dag q n = .direct h → h ∈ s.committed) →
      s.committed <+: finalize full n →
      (commitWalk C votes n rounds s).committed <+: finalize full n := by
  intro rounds
  induction rounds with
  | nil => exact fun _ _ _ _ _ hlog => hlog
  | cons r rounds ih =>
    intro done s hdag hrounds hdone hlog
    have hnext : dag.rounds = (done ++ [r]) ++ rounds := by
      rw [hrounds, List.append_assoc, List.singleton_append]
    rw [commitWalk, hdag]
    split
    · next k hk =>
      have hdone' : ∀ log : List CertHash, k ∈ log → (∀ h ∈ s.committed, h ∈ log) →
          ∀ q ∈ done ++ [r], ∀ h, decideSlot dag q n = .direct h → h ∈ log := by
        intro log hklog hgrow q hq h hh
        rcases List.mem_append.mp hq with hq | hq
        · exact hgrow h (hdone q hq h hh)
        · rw [List.mem_singleton.mp hq, hk] at hh
          cases hh
          exact hklog
      split
      · next hmem => exact ih _ s hdag hnext (hdone' _ hmem fun _ h => h) hlog
      next hfresh =>
      split
      · exact hlog
      obtain ⟨c, hc, -⟩ := decided_stored wf hk
      have hkfull := hs.decided wf wf' (hn.countsFit wf') hone hk
      have hhist := hs.causalHistory_eq wf wf' hc
      obtain ⟨hdag', p, hp, hlog', hall⟩ := commitHistory_spec (C := C) (causalHistory dag k) s (by
        intro x hx
        obtain ⟨cx, hcx, -⟩ := reaches_stored wf hc (mem_causalHistory.mp hx).2
        exact ⟨cx, hdag ▸ hcx⟩)
      -- the ledger of the universe, cut at `k`
      obtain ⟨ts, us, hsplit⟩ := List.append_of_mem ((mem_committedLeaders wf').mpr ⟨r, hkfull⟩)
      have hH := histories_committedLeaders (n := n) wf'
      have hcut := fun u => (Emit.mem_cut (hsplit ▸ hH.increasing) u).1
      have hprefix : appendNew s.committed p <+: finalize full n := by
        rw [finalize_eq_emit, hsplit] at hlog ⊢
        refine Emit.appendNew_prefix_emit (hsplit ▸ hH) hlog ?_ hfresh (hhist ▸ hp)
        intro u hu
        obtain ⟨hu, hlt⟩ := (hcut u).mp hu
        exact earlier_leaders_committed wf wf' hs hn hone hsettled hrounds hk hdone
          (hsplit ▸ hu) hlt
      split
      · next t heq =>
        rw [heq] at hdag' hlog' hall
        refine ih _ t (hdag'.trans hdag) hnext (hdone' _ ?_ ?_) (hlog' ▸ hprefix)
        · rw [hlog', hall rfl]
          exact Emit.mem_appendNew.mpr (.inr (self_mem_causalHistory hc))
        · intro h hh
          rw [hlog']
          exact Emit.mem_appendNew.mpr (.inl hh)
      · next t heq =>
        rw [heq] at hlog'
        exact hlog' ▸ hprefix
    · next hother =>
      refine ih _ s hdag hnext ?_ hlog
      intro q hq h hh
      rcases List.mem_append.mp hq with hq | hq
      · exact hdone q hq h hh
      · rw [List.mem_singleton.mp hq] at hh
        exact absurd hh (hother h)

end TwoStores

end Walk

/-! ## A committee that stays

    Without governance nobody is seated, so no stake is parked and no first certificate promotes;
    without equivocation nobody is ejected. -/

/-- Nothing is on its way into the committee. -/
structure Idle (n : CommitteeSize) (s : State) : Prop where
  size : s.committee.nAuthorities = n
  nothingParked : s.committee.pendingStake = ∅
  nothingQueued : s.pendingGovernance = []
  noProof : s.detectedEquivocations = []

/-- What a run over the universe `U` keeps. -/
structure Steady (C : Crypto) (U : List Certificate) (n : CommitteeSize) (s : State) : Prop where
  reachable : s.dag.Reachable C.blake3
  delivered : ∀ h c, s.dag.get h = some c → c ∈ U
  seen : ∀ a r h, s.seenAt[toLex (a, r)]? = some h →
    ∃ c, s.dag.get h = some c ∧ c.author = a ∧ c.round = r
  idle : NoGovernance s.executions → Idle n s

theorem governanceOf_eq_nil {intents : List Intent} (governanceAuth : List (UInt32 × GovAuth))
    (hno : ∀ intent ∈ intents, isGovernanceIntent intent = false) :
    governanceOf intents governanceAuth = [] := by
  rw [governanceOf, List.filterMap_eq_nil_iff]
  rintro ⟨intent, idx⟩ hmem
  have hmem : intent ∈ intents := List.fst_mem_of_mem_zipIdx hmem
  simp [hno intent hmem]

/-- A block without governance leaves an empty queue empty and the committee as it is. -/
theorem executeCert_idle {C : Crypto} {n : CommitteeSize} {s : State} {h : CertHash}
    {cert : Certificate} {block : BlockPayload} (hs : Idle n s)
    (hno : ∀ intent ∈ block.intents, isGovernanceIntent intent = false) :
    Idle n (executeCert C s h cert block) := by
  have hqueue : s.pendingGovernance ++ governanceOf block.intents block.governanceAuth = [] := by
    rw [hs.nothingQueued, governanceOf_eq_nil _ hno, List.nil_append]
  have hsame : (executeCert C s h cert block).committee = s.committee ∧
      (executeCert C s h cert block).pendingGovernance = [] := by
    unfold executeCert crossBoundary
    dsimp only
    split
    · refine ⟨?_, rfl⟩
      show (drainQueue C s.networkId
        (s.pendingGovernance ++ governanceOf block.intents block.governanceAuth) s.committee).1 = _
      rw [hqueue]
      rfl
    · exact ⟨rfl, hqueue⟩
  constructor
  · rw [hsame.1]; exact hs.size
  · rw [hsame.1]; exact hs.nothingParked
  · exact hsame.2
  · rw [executeCert_detectedEquivocations]; exact hs.noProof

section Run

variable {C : Crypto} {U : List Certificate} {n : CommitteeSize}

theorem steady_commitInvariant : CommitInvariant C (Steady C U n) where
  need h hs := ⟨hs.reachable, hs.delivered, hs.seen, fun hno => by
    obtain ⟨h1, h2, h3, h4⟩ := hs.idle hno
    exact ⟨h1, h2, h3, h4⟩⟩
  execute := by
    intro s h cert block hs hfresh hcert hblock
    constructor
    · rw [executeCert_dag]; exact hs.reachable
    · rw [executeCert_dag]; exact hs.delivered
    · rw [executeCert_dag, executeCert_seenAt]; exact hs.seen
    · intro hno
      rw [executeCert_executions] at hno
      refine executeCert_idle (hs.idle fun e he => hno e (List.mem_append_left _ he)) ?_
      exact hno ⟨h, cert.round, block.intents, block.governanceAuth, s.substrate⟩
        (List.mem_append_right _ List.mem_cons_self)

theorem ejectEquivocators_steady {s : State} (hs : Steady C U n s) :
    Steady C U n (ejectEquivocators s) := by
  refine ⟨hs.reachable, hs.delivered, hs.seen, fun hno => ?_⟩
  have hidle := hs.idle hno
  have hcommittee : (ejectEquivocators s).committee = s.committee := by
    rw [ejectEquivocators, hidle.noProof]
    rfl
  exact ⟨by rw [hcommittee]; exact hidle.size, by rw [hcommittee]; exact hidle.nothingParked,
    hidle.nothingQueued, rfl⟩

/-- The first certificate seen of an author at a round is the only one. -/
theorem conflict_eq_nil {s : State} (hs : Steady C U n s)
    (hone : ∀ c ∈ U, ∀ d ∈ U, c.author = d.author → c.round = d.round → c = d) {cert : Certificate}
    (hcert : cert ∈ U) :
    conflict s.seenAt cert.author cert.round (cert.hash C.blake3) = [] := by
  refine conflict_eq_nil_of_same ?_
  cases hprev : s.seenAt[toLex (cert.author, cert.round)]? with
  | none => exact .inl rfl
  | some prev =>
    obtain ⟨c, hc, ha, hr⟩ := hs.seen _ _ _ hprev
    have hsame : c = cert := hone c (hs.delivered prev c hc) cert hcert ha hr
    rw [← hs.reachable.wellFormed.hashed hc, hsame]
    exact .inr rfl

theorem onInserted_steady {s : State} (hs : Steady C U n s)
    (hone : ∀ c ∈ U, ∀ d ∈ U, c.author = d.author → c.round = d.round → c = d) {cert : Certificate}
    (hcert : cert ∈ U) {h : CertHash} {dag : DagStore}
    (hins : s.dag.insert C.blake3 cert = .ok (h, dag)) : Steady C U n (onInserted s cert h dag) := by
  have hstep : DagStore.Inserted C.blake3 s.dag dag := ⟨cert, h, hins⟩
  obtain ⟨-, -, hfresh, hhash, hrecord⟩ := DagStore.insert_ok_iff.mp hins
  have hself := DagStore.get_insert_self hins
  refine ⟨hs.reachable.tail hstep, ?_, ?_, ?_⟩
  · intro k c hc
    have hc : dag.get k = some c := hc
    rw [hrecord, DagStore.get_record] at hc
    split at hc
    · cases hc; exact hcert
    · exact hs.delivered k c hc
  · intro a r k hk
    have hk : (s.seenAt.insertIfNew (toLex (cert.author, cert.round)) h)[toLex (a, r)]? = some k := hk
    rw [Std.ExtTreeMap.getElem?_insertIfNew] at hk
    split at hk
    · next hnew =>
      have hkey := toLex.injective (compare_eq_iff_eq.mp hnew.1)
      cases hk
      exact ⟨cert, hself, congrArg Prod.fst hkey, congrArg Prod.snd hkey⟩
    · obtain ⟨c, hc, hrest⟩ := hs.seen a r k hk
      exact ⟨c, hstep.get hc, hrest⟩
  · intro hno
    obtain ⟨hsize, hparked, hqueued, hproof⟩ := hs.idle hno
    have hcommittee : (onInserted s cert h dag).committee = s.committee :=
      Committee.promote_of_unparked (by rw [hparked]; exact Std.ExtTreeMap.getElem?_empty)
    refine ⟨by rw [hcommittee]; exact hsize, by rw [hcommittee]; exact hparked, hqueued, ?_⟩
    show s.detectedEquivocations ++ conflict s.seenAt cert.author cert.round h = []
    rw [hproof, hhash, conflict_eq_nil hs hone hcert, List.nil_append]

/-- One turn of the ingest loop: nothing, a buffered orphan, or a certificate taken in. -/
theorem ingestStep_state (cert : Certificate) (i : Ingest) :
    (ingestStep C cert i).state = i.state ∨
    (∃ missing, (ingestStep C cert i).state = bufferOrphan i.state cert missing) ∨
    ∃ h dag, i.state.dag.insert C.blake3 cert = .ok (h, dag) ∧
      (ingestStep C cert i).state = onInserted i.state cert h dag := by
  unfold ingestStep
  dsimp only
  split
  · exact .inl rfl
  · split
    · next h dag hins => exact .inr (.inr ⟨h, dag, hins, rfl⟩)
    · next missing hins => exact .inr (.inl ⟨missing, rfl⟩)
    · exact .inl rfl

theorem bufferOrphan_steady {s : State} (hs : Steady C U n s) (cert : Certificate)
    (missing : CertHash) : Steady C U n (bufferOrphan s cert missing) := by
  unfold bufferOrphan
  split
  · exact hs
  · refine ⟨hs.reachable, hs.delivered, hs.seen, fun hno => ?_⟩
    obtain ⟨hsize, hparked, hqueued, hproof⟩ := hs.idle hno
    exact ⟨hsize, hparked, hqueued, hproof⟩

/-! ## One step -/

/-- What a step has executed stays executed. -/
theorem executions_prefix_exec (step : LocalStep) (s : State) :
    s.executions <+: (step.exec C s).executions := by
  cases step with
  | insert cert =>
    show s.executions <+: (ingestStep C cert ⟨s, [], []⟩).state.executions
    rcases ingestStep_state (C := C) cert ⟨s, [], []⟩ with heq | ⟨missing, heq⟩ | ⟨h, dag, -, heq⟩
    · rw [heq]
    · rw [heq, bufferOrphan_frame State.executions (by intros; rfl)]
    · rw [heq]
      exact List.prefix_rfl
  | store block => exact List.prefix_rfl
  | vote v => exact List.prefix_rfl
  | commit =>
    have hgrow : CommitInvariant C fun t => s.executions <+: t.executions :=
      ⟨fun h hs => hs, fun hs _ _ _ => by
        rw [executeCert_executions]
        exact hs.trans (List.prefix_append _ _)⟩
    exact hgrow.walk _ _ _ List.prefix_rfl

theorem exec_steady {s : State} (hs : Steady C U n s)
    (hone : ∀ c ∈ U, ∀ d ∈ U, c.author = d.author → c.round = d.round → c = d) (step : LocalStep)
    (hin : ∀ cert, step = .insert cert → cert ∈ U) : Steady C U n (step.exec C s) := by
  cases step with
  | insert cert =>
    show Steady C U n (ingestStep C cert ⟨s, [], []⟩).state
    rcases ingestStep_state (C := C) cert ⟨s, [], []⟩ with heq | ⟨missing, heq⟩ | ⟨h, dag, hins, heq⟩
    · rw [heq]; exact hs
    · rw [heq]; exact bufferOrphan_steady hs cert missing
    · rw [heq]; exact onInserted_steady hs hone (hin cert rfl) hins
  | store block =>
    refine ⟨hs.reachable, hs.delivered, hs.seen, fun hno => ?_⟩
    obtain ⟨hsize, hparked, hqueued, hproof⟩ := hs.idle hno
    exact ⟨hsize, hparked, hqueued, hproof⟩
  | vote v =>
    refine ⟨hs.reachable, hs.delivered, hs.seen, fun hno => ?_⟩
    obtain ⟨hsize, hparked, hqueued, hproof⟩ := hs.idle hno
    exact ⟨hsize, hparked, hqueued, hproof⟩
  | commit => exact ejectEquivocators_steady (steady_commitInvariant.walk _ _ _ hs)

/-- Only `tryCommit` writes the log. -/
theorem exec_committed {s : State} {step : LocalStep} (hstep : step ≠ .commit) :
    (step.exec C s).committed = s.committed := by
  cases step with
  | insert cert =>
    show (ingestStep C cert ⟨s, [], []⟩).state.committed = s.committed
    rcases ingestStep_state (C := C) cert ⟨s, [], []⟩ with heq | ⟨missing, heq⟩ | ⟨h, dag, -, heq⟩
    · rw [heq]
    · rw [heq]
      exact bufferOrphan_frame State.committed (by intros; rfl)
    · rw [heq]; rfl
  | store block => rfl
  | vote v => rfl
  | commit => exact absurd rfl hstep

end Run

/-! ## Two runs -/

/-- A run of a node over `U`, with `n` authorities, that executes no governance intent. -/
structure LocalRun (C : Crypto) (U : List Certificate) (n : CommitteeSize)
    (manifest : GenesisManifest) (selfId : AuthorityId) (steps : List LocalStep) : Prop where
  size : (genesisCommittee manifest).nAuthorities = n
  delivered : ∀ cert, .insert cert ∈ steps → cert ∈ U
  noGovernance : NoGovernance (runSteps C steps (State.new C manifest selfId)).executions

/-- Every `tryCommit` of the run meets a settled view. -/
def CommitsSettled (C : Crypto) (full : DagStore) (n : CommitteeSize) (manifest : GenesisManifest)
    (selfId : AuthorityId) (steps : List LocalStep) : Prop :=
  ∀ pre post, steps = pre ++ .commit :: post →
    Settled full n (runSteps C pre (State.new C manifest selfId)).dag

theorem runSteps_concat (C : Crypto) (steps : List LocalStep) (step : LocalStep) (s : State) :
    runSteps C (steps ++ [step]) s = step.exec C (runSteps C steps s) := by
  simp only [runSteps, List.foldl_append, List.foldl_cons, List.foldl_nil]

section TwoNodes

variable {C : Crypto} {U : List Certificate} {n : CommitteeSize} {manifest : GenesisManifest}
  {selfId : AuthorityId}

theorem new_steady (hsize : (genesisCommittee manifest).nAuthorities = n) :
    Steady C U n (State.new C manifest selfId) where
  reachable := .refl
  delivered h c hc := by
    have hc : DagStore.new.get h = some c := hc
    rw [DagStore.get_new] at hc
    cases hc
  seen a r h hh := by
    have hh : (∅ : Std.ExtTreeMap (AuthorityId ×ₗ Round) CertHash)[toLex (a, r)]? = some h := hh
    simp at hh
  idle _ := ⟨hsize, genesisCommittee_pendingStake manifest, rfl, rfl⟩

theorem run_steady (hsize : (genesisCommittee manifest).nAuthorities = n)
    (hone : ∀ c ∈ U, ∀ d ∈ U, c.author = d.author → c.round = d.round → c = d)
    (steps : List LocalStep) (hin : ∀ cert, .insert cert ∈ steps → cert ∈ U) :
    Steady C U n (runSteps C steps (State.new C manifest selfId)) := by
  induction steps using List.reverseRecOn with
  | nil => exact new_steady hsize
  | append_singleton steps step ih =>
    rw [runSteps_concat]
    refine exec_steady (ih fun cert h => hin cert (List.mem_append_left _ h)) hone step ?_
    rintro cert rfl
    exact hin cert (List.mem_append_right _ List.mem_cons_self)

/-- **One node**: its log is a prefix of the finalized history of the universe. -/
theorem committed_prefix_finalize (hauthors : ∀ c ∈ U, c.author < n)
    (hone : ∀ c ∈ U, ∀ d ∈ U, c.author = d.author → c.round = d.round → c = d)
    (hcol : NoCollision C.blake3 (· ∈ U)) {steps : List LocalStep}
    (run : LocalRun C U n manifest selfId steps)
    (hsettled : CommitsSettled C (universeStore C.blake3 U) n manifest selfId steps) :
    (runSteps C steps (State.new C manifest selfId)).committed <+:
      finalize (universeStore C.blake3 U) n := by
  have hfull : (universeStore C.blake3 U).Reachable C.blake3 := DagStore.universeStore_reachable U
  have wf' := hfull.wellFormed
  have hn : AuthorsBelow n (universeStore C.blake3 U) := fun h c hc =>
    hauthors c (DagStore.mem_of_get_universeStore hc)
  have hone' : OneCertPerRound (universeStore C.blake3 U) := by
    intro h k c d hc hd ha hr
    rw [← wf'.hashed hc, ← wf'.hashed hd, hone c (DagStore.mem_of_get_universeStore hc) d
      (DagStore.mem_of_get_universeStore hd) ha hr]
  obtain ⟨hsize, hin, hno⟩ := run
  induction steps using List.reverseRecOn with
  | nil => exact List.nil_prefix
  | append_singleton steps step ih =>
    rw [runSteps_concat] at hno ⊢
    have hin' : ∀ cert, .insert cert ∈ steps → cert ∈ U := fun cert h =>
      hin cert (List.mem_append_left _ h)
    have hsteady : Steady C U n (runSteps C steps (State.new C manifest selfId)) :=
      run_steady hsize hone steps hin'
    have hno' : NoGovernance (runSteps C steps (State.new C manifest selfId)).executions :=
      fun e he => hno e ((executions_prefix_exec step _).subset he)
    have hlog := ih (fun pre post h => hsettled pre (post ++ [step]) (by rw [h]; simp)) hin' hno'
    by_cases hstep : step = .commit
    · subst hstep
      show (commitWalk C _ _ _ _).committed <+: _
      rw [(hsteady.idle hno').size]
      exact commitWalk_prefix_finalize hsteady.reachable.wellFormed wf'
        (hsteady.reachable.sub_universeStore hsteady.delivered hcol hone) hn hone'
        (hsettled steps [] rfl) _ _ [] _ rfl rfl (fun q hq => by cases hq) hlog
    · rw [exec_committed hstep]
      exact hlog

/-- **Two nodes**: their logs are prefix-comparable. -/
theorem committed_comparable {manifest' : GenesisManifest} {selfId' : AuthorityId}
    (hauthors : ∀ c ∈ U, c.author < n)
    (hone : ∀ c ∈ U, ∀ d ∈ U, c.author = d.author → c.round = d.round → c = d)
    (hcol : NoCollision C.blake3 (· ∈ U)) {steps steps' : List LocalStep}
    (run : LocalRun C U n manifest selfId steps) (run' : LocalRun C U n manifest' selfId' steps')
    (hsettled : CommitsSettled C (universeStore C.blake3 U) n manifest selfId steps)
    (hsettled' : CommitsSettled C (universeStore C.blake3 U) n manifest' selfId' steps') :
    (runSteps C steps (State.new C manifest selfId)).committed <+:
        (runSteps C steps' (State.new C manifest' selfId')).committed ∨
      (runSteps C steps' (State.new C manifest' selfId')).committed <+:
        (runSteps C steps (State.new C manifest selfId)).committed :=
  List.prefix_or_prefix_of_prefix (committed_prefix_finalize hauthors hone hcol run hsettled)
    (committed_prefix_finalize hauthors hone hcol run' hsettled')

end TwoNodes

/-! ## A slot that is open in one view

    The universe of `filledSlotStore`, four authorities, no intents.  One node has not seen the two
    late supporters of `root0` and walks past slot 0; the other has. -/

/-- Lowest round first. -/
def lateSlotUniverse : List (CertHash × Certificate) :=
  [root0, root1, first1, first2, first0, first3, second0, second2, second3]

/-- The certificates, the blocks, and for each leader the votes of three validators. -/
def deliveries (certs blocks leaders : List (CertHash × Certificate)) : List LocalStep :=
  certs.map (fun p => .insert (signed p)) ++ blocks.map (fun p => .store (emptyBlock p)) ++
    leaders.flatMap fun p => [0, 1, 2].map fun v => .vote ⟨v, p.1⟩

/-- The log of a node of the four that has got these and then walks once. -/
def walkOnce (certs blocks leaders : List (CertHash × Certificate)) (selfId : AuthorityId) : State :=
  runSteps echoScheme (deliveries certs blocks leaders ++ [.commit])
    (State.new echoScheme (echoManifest 4) selfId)

theorem mem_of_insert_mem_deliveries {certs blocks leaders : List (CertHash × Certificate)}
    {cert : Certificate} (h : .insert cert ∈ deliveries certs blocks leaders ++ [.commit]) :
    cert ∈ certs.map signed := by
  simpa [deliveries] using h

theorem commit_not_mem_deliveries (certs blocks leaders : List (CertHash × Certificate)) :
    LocalStep.commit ∉ deliveries certs blocks leaders := by
  simp [deliveries]

theorem lateSlotUniverse_unique : ∀ c ∈ lateSlotUniverse.map signed,
    ∀ d ∈ lateSlotUniverse.map signed, c.author = d.author → c.round = d.round → c = d := by
  have hall : ∀ p ∈ lateSlotUniverse, ∀ q ∈ lateSlotUniverse, p.2.author = q.2.author →
      p.2.round = q.2.round → p = q := by decide +kernel
  intro c hc d hd ha hr
  obtain ⟨p, hp, rfl⟩ := List.mem_map.mp hc
  obtain ⟨q, hq, rfl⟩ := List.mem_map.mp hd
  rw [hall p hp q hq ha hr]

theorem lateSlotUniverse_noCollision :
    NoCollision echoScheme.blake3 (· ∈ lateSlotUniverse.map signed) := by
  have hhash : ∀ p ∈ lateSlotUniverse, p.2.hash Blake3.hash = p.1 := by decide +kernel
  have hkeys : ∀ p ∈ lateSlotUniverse, ∀ q ∈ lateSlotUniverse, p.1 = q.1 → p = q := by
    decide +kernel
  intro c d hc hd heq
  obtain ⟨p, hp, rfl⟩ := List.mem_map.mp hc
  obtain ⟨q, hq, rfl⟩ := List.mem_map.mp hd
  -- the signature is not hashed
  have heq : p.2.hash Blake3.hash = q.2.hash Blake3.hash := heq
  rw [hhash p hp, hhash q hq] at heq
  rw [hkeys p hp q hq heq]

theorem lateSlotUniverse_authors : ∀ c ∈ lateSlotUniverse.map signed, c.author < 4 := by
  decide +kernel

theorem lateSlot_localRun {certs blocks leaders : List (CertHash × Certificate)}
    (selfId : AuthorityId) (hcerts : ∀ p ∈ certs, p ∈ lateSlotUniverse)
    (hno : NoGovernance (walkOnce certs blocks leaders selfId).executions) :
    LocalRun echoScheme (lateSlotUniverse.map signed) 4 (echoManifest 4) selfId
      (deliveries certs blocks leaders ++ [.commit]) where
  size := by decide +kernel
  delivered cert h := by
    obtain ⟨p, hp, rfl⟩ := List.mem_map.mp (mem_of_insert_mem_deliveries h)
    exact List.mem_map_of_mem (hcerts p hp)
  noGovernance := hno

/-- Node 1 has got everything. -/
theorem lateSlot_all :
    (walkOnce lateSlotUniverse [root0, root1, first1] [root0, first1] 1).committed =
      [root0.1, root1.1, first1.1] ∧
    NoGovernance (walkOnce lateSlotUniverse [root0, root1, first1] [root0, first1] 1).executions ∧
    (runSteps echoScheme (deliveries lateSlotUniverse [root0, root1, first1] [root0, first1])
      (State.new echoScheme (echoManifest 4) 1)).dag =
        universeStore Blake3.hash (lateSlotUniverse.map signed) := by
  decide +kernel

/-- **Two nodes of one honest universe commit different histories**: `root1` first, or `root0`. -/
theorem open_slot_forks_logs :
    (∀ c ∈ lateSlotUniverse.map signed, c.author < 4) ∧
    (∀ c ∈ lateSlotUniverse.map signed, ∀ d ∈ lateSlotUniverse.map signed,
      c.author = d.author → c.round = d.round → c = d) ∧
    NoCollision echoScheme.blake3 (· ∈ lateSlotUniverse.map signed) ∧
    LocalRun echoScheme (lateSlotUniverse.map signed) 4 (echoManifest 4) 0
      (deliveries lateSlotRun [root1, first1] [first1] ++ [.commit]) ∧
    LocalRun echoScheme (lateSlotUniverse.map signed) 4 (echoManifest 4) 1
      (deliveries lateSlotUniverse [root0, root1, first1] [root0, first1] ++ [.commit]) ∧
    (walkOnce lateSlotRun [root1, first1] [first1] 0).committed = [root1.1, first1.1] ∧
    (walkOnce lateSlotUniverse [root0, root1, first1] [root0, first1] 1).committed =
      [root0.1, root1.1, first1.1] ∧
    ¬ ([root1.1, first1.1] <+: [root0.1, root1.1, first1.1] ∨
      [root0.1, root1.1, first1.1] <+: [root1.1, first1.1]) := by
  have hA : (walkOnce lateSlotRun [root1, first1] [first1] 0).committed = [root1.1, first1.1] ∧
      NoGovernance (walkOnce lateSlotRun [root1, first1] [first1] 0).executions := by
    decide +kernel
  refine ⟨lateSlotUniverse_authors, lateSlotUniverse_unique, lateSlotUniverse_noCollision,
    lateSlot_localRun 0 (by decide +kernel) hA.2,
    lateSlot_localRun 1 (fun p hp => hp) lateSlot_all.2.1, hA.1, lateSlot_all.1, ?_⟩
  decide +kernel

/-- A view of the whole universe is settled. -/
theorem settled_self (full : DagStore) (n : CommitteeSize) : Settled full n full :=
  fun r s h k _ hh _ => hh

theorem lateSlot_commitsSettled (blocks leaders : List (CertHash × Certificate)) (selfId : AuthorityId)
    (hdag : (runSteps echoScheme (deliveries lateSlotUniverse blocks leaders)
      (State.new echoScheme (echoManifest 4) selfId)).dag =
        universeStore Blake3.hash (lateSlotUniverse.map signed)) :
    CommitsSettled echoScheme (universeStore Blake3.hash (lateSlotUniverse.map signed)) 4
      (echoManifest 4) selfId (deliveries lateSlotUniverse blocks leaders ++ [.commit]) := by
  intro pre post hsplit
  -- the only commit is the last step
  have hpre : pre = deliveries lateSlotUniverse blocks leaders := by
    have hno := commit_not_mem_deliveries lateSlotUniverse blocks leaders
    rcases List.append_eq_append_iff.mp hsplit with ⟨as, rfl, htail⟩ | ⟨bs, hinit, htail⟩
    · cases as with
      | nil => exact List.append_nil _
      | cons a as => simp at htail
    · cases bs with
      | nil => rw [hinit, List.append_nil]
      | cons b bs =>
        cases htail
        rw [hinit] at hno
        exact absurd (List.mem_append_right _ List.mem_cons_self) hno
  rw [hpre, hdag]
  exact settled_self _ _

/-- Two nodes that have seen everything, one of them still without two blocks. -/
theorem committed_comparable_lateSlot :
    (walkOnce lateSlotUniverse [root0] [root0, first1] 0).committed <+:
        (walkOnce lateSlotUniverse [root0, root1, first1] [root0, first1] 1).committed ∨
      (walkOnce lateSlotUniverse [root0, root1, first1] [root0, first1] 1).committed <+:
        (walkOnce lateSlotUniverse [root0] [root0, first1] 0).committed := by
  have hrun : NoGovernance (walkOnce lateSlotUniverse [root0] [root0, first1] 0).executions ∧
      (runSteps echoScheme (deliveries lateSlotUniverse [root0] [root0, first1])
        (State.new echoScheme (echoManifest 4) 0)).dag =
          universeStore Blake3.hash (lateSlotUniverse.map signed) := by
    decide +kernel
  exact committed_comparable lateSlotUniverse_authors lateSlotUniverse_unique
    lateSlotUniverse_noCollision (lateSlot_localRun 0 (fun p hp => hp) hrun.1)
    (lateSlot_localRun 1 (fun p hp => hp) lateSlot_all.2.1)
    (lateSlot_commitsSettled _ _ 0 hrun.2) (lateSlot_commitsSettled _ _ 1 lateSlot_all.2.2)

end SuwappuDag.Node
