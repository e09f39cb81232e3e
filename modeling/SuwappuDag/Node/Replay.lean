/-
  THE COMMITTEE AND THE COMMITTED LOG.

  Two nodes that start from one manifest have executed the same certificates.  Do they hold the same
  committee?

  1. **Specification** — `replay`: governance alone, epoch boundary by epoch boundary, is a function
     of the executed log.
  2. **What else writes** — the FIRST certificate of a newly seated author promotes it when it comes
     in, and a conflicting certificate gets its author ejected.  Both happen on arrival, at no point of
     the log: a node that has seen both certificates of an equivocator ejects it, a node that has not
     keeps it (`equivocation_splits_committees`).
  3. **Condition** — where no arrival promotes and none conflicts (`Undisturbed`), the committee IS the
     replay (`replayed_nodeInvariant`), and equal logs give equal committees
     (`committee_of_committed`).
-/
import SuwappuDag.Node.Ledger
import SuwappuDag.Node.Scheme

namespace SuwappuDag.Node

open Words Consensus Execution
open Std (ExtTreeMap)

/-! ## What the log says -/

/-- What the log determines: the committee, the epoch, and the governance not yet drained. -/
structure Seats where
  committee : Committee
  epoch : EpochState
  queue : List (Intent × Option GovAuth)

def State.seats (s : State) : Seats := ⟨s.committee, s.epoch, s.pendingGovernance⟩

/-- One more block: its governance is queued, and a later epoch drains the queue. -/
def Seats.execute (C : Crypto) (networkId : List UInt8) (seats : Seats) (e : LogEntry) : Seats :=
  let queue := seats.queue ++ governanceOf e.2.1 e.2.2
  if seats.epoch.boundaryCrossedBy e.1 then
    { committee := (drainQueue C networkId queue seats.committee).1
      epoch := { seats.epoch with current := seats.epoch.epochFor e.1, lastBoundaryRound := e.1 }
      queue := [] }
  else { seats with queue }

def replay (C : Crypto) (manifest : GenesisManifest) (log : List LogEntry) : Seats :=
  log.foldl (Seats.execute C manifest.networkId)
    ⟨genesisCommittee manifest, ⟨0, manifest.roundsPerEpoch, 0⟩, []⟩

theorem executeCert_seats (C : Crypto) (s : State) (h : CertHash) (cert : Certificate)
    (block : BlockPayload) : (executeCert C s h cert block).seats =
      s.seats.execute C s.networkId (cert.round, block.intents, block.governanceAuth) := by
  cases hb : s.epoch.boundaryCrossedBy cert.round with
  | false => simp only [executeCert, crossBoundary, Seats.execute, State.seats, hb,
      Bool.false_eq_true, if_false]
  | true => simp only [executeCert, crossBoundary, Seats.execute, State.seats, hb, if_true]

/-- No arrival promoted its author or conflicted with an earlier certificate. -/
def Undisturbed (insertions : List Insertion) : Prop :=
  ∀ i ∈ insertions, i.parked = none ∧ (i.earlier = none ∨ i.earlier = some i.cert)

instance (insertions : List Insertion) : Decidable (Undisturbed insertions) :=
  inferInstanceAs (Decidable (∀ i ∈ insertions,
    i.parked = none ∧ (i.earlier = none ∨ i.earlier = some i.cert)))

theorem undisturbed_concat {insertions : List Insertion} {i : Insertion} :
    Undisturbed (insertions ++ [i]) ↔
      Undisturbed insertions ∧ i.parked = none ∧ (i.earlier = none ∨ i.earlier = some i.cert) := by
  simp only [Undisturbed, List.forall_mem_append, List.forall_mem_singleton]

/-! ## The committee of an undisturbed node -/

structure Replayed (C : Crypto) (manifest : GenesisManifest) (s : State) : Prop where
  network : s.networkId = manifest.networkId
  noProof : Undisturbed s.insertions → s.detectedEquivocations = []
  seats : Undisturbed s.insertions →
    s.seats = replay C manifest (s.executions.map ExecutedBlock.entry)

section Replay

variable {C : Crypto} {manifest : GenesisManifest}

theorem replayed_new (selfId : AuthorityId) :
    Replayed C manifest (State.new C manifest selfId) := ⟨rfl, fun _ => rfl, fun _ => rfl⟩

theorem replayed_execute {s : State} (hs : Replayed C manifest s) (h : CertHash) (cert : Certificate)
    (block : BlockPayload) : Replayed C manifest (executeCert C s h cert block) := by
  have hins : (executeCert C s h cert block).insertions = s.insertions :=
    executeCert_frame State.insertions (by intros; rfl)
  refine ⟨?_, ?_, ?_⟩
  · rw [← hs.network]
    exact executeCert_frame State.networkId (by intros; rfl)
  · rw [hins, executeCert_detectedEquivocations]
    exact hs.noProof
  · rw [hins, executeCert_seats, executeCert_executions]
    intro hquiet
    rw [hs.seats hquiet, hs.network, List.map_append, replay, replay, List.foldl_append]
    rfl

/-- A certificate that meets neither parked stake nor another certificate leaves the seats alone. -/
theorem replayed_onInserted {s : State} (hs : Replayed C manifest s) (cert : Certificate)
    (h : CertHash) (dag : DagStore) : Replayed C manifest (onInserted s cert h dag) := by
  refine ⟨hs.network, ?_, ?_⟩
  · intro hquiet
    obtain ⟨hquiet, -, hsame⟩ := undisturbed_concat.mp hquiet
    show s.detectedEquivocations ++ conflict s.seenAt cert.author cert.round h = []
    rw [hs.noProof hquiet, conflict_eq_nil_of_same hsame, List.nil_append]
  · intro hquiet
    obtain ⟨hquiet, hparked, -⟩ := undisturbed_concat.mp hquiet
    show Seats.mk (s.committee.promote cert.author) s.epoch s.pendingGovernance = _
    rw [Committee.promote_of_unparked hparked]
    exact hs.seats hquiet

theorem replayed_authorRound {s : State} (hs : Replayed C manifest s) (timedOut : Bool)
    (signature : List UInt8) : Replayed C manifest (authorRound C s timedOut signature).1 := by
  unfold authorRound
  split
  · exact hs
  split
  · exact hs
  refine ⟨hs.network, ?_, ?_⟩
  · intro hquiet
    obtain ⟨hquiet, -, hsame⟩ := undisturbed_concat.mp hquiet
    show s.detectedEquivocations ++ conflict s.seenAt s.selfId _ _ = []
    rw [hs.noProof hquiet, conflict_eq_nil_of_same hsame, List.nil_append]
  · intro hquiet
    exact hs.seats (undisturbed_concat.mp hquiet).1

/-- **The committee is the replay of the log**, in every undisturbed run. -/
theorem replayed_nodeInvariant :
    NodeInvariant C (fun _ => True) (fun _ => True) (Replayed C manifest) where
  need h hs := ⟨hs.network, hs.noProof, hs.seats⟩
  execute hs _ _ _ := replayed_execute hs _ _ _
  eject := by
    intro s hs
    refine ⟨hs.network, fun _ => rfl, fun hquiet => ?_⟩
    have hcommittee : (ejectEquivocators s).committee = s.committee := by
      rw [ejectEquivocators, hs.noProof hquiet]
      rfl
    show Seats.mk (ejectEquivocators s).committee s.epoch s.pendingGovernance = _
    rw [hcommittee]
    exact hs.seats hquiet
  insert hs _ _ _ := replayed_onInserted hs _ _ _
  buffer := by
    intro s cert missing hs _
    unfold bufferOrphan
    split
    · exact hs
    · exact ⟨hs.network, hs.noProof, hs.seats⟩
  waiting _ _ := trivial
  vote v hs := ⟨hs.network, hs.noProof, hs.seats⟩
  store hs _ := ⟨hs.network, hs.noProof, hs.seats⟩
  author timedOut signature hs := replayed_authorRound hs timedOut signature
  accept intent limited nowMs hs := ⟨hs.network, hs.noProof, hs.seats⟩
  remember hash auth hs := ⟨hs.network, hs.noProof, hs.seats⟩

theorem replayed_run (selfId : AuthorityId) (actions : List Action) :
    Replayed C manifest (runActions C actions (State.new C manifest selfId)) :=
  replayed_nodeInvariant.run (replayed_new selfId) fun _ _ _ => trivial

/-- **The committee is a function of the committed log**: two undisturbed nodes of one network that
    have executed the same certificates hold the same registry, stakes and committee size. -/
theorem committee_of_committed {selfId selfId' : AuthorityId} {actions actions' : List Action}
    {s t : State} (hs : runActions C actions (State.new C manifest selfId) = s)
    (ht : runActions C actions' (State.new C manifest selfId') = t)
    (hcol : NoCollision C.blake3 fun c => ∃ h, s.dag.get h = some c ∨ t.dag.get h = some c)
    (hbind : BindsPayloads C.blake3 fun intents auth =>
      ∃ e ∈ s.executions ++ t.executions, e.intents = intents ∧ e.governanceAuth = auth)
    (hquiet : Undisturbed s.insertions) (hquiet' : Undisturbed t.insertions)
    (hlog : s.committed = t.committed) :
    s.committee.authorityRegistry = t.committee.authorityRegistry ∧
      s.committee.stakeTable = t.committee.stakeTable ∧
      s.committee.nAuthorities = t.committee.nAuthorities := by
  subst hs ht
  have hentries := entries_eq_of_committed_eq (grounded_run manifest selfId actions)
    (grounded_run manifest selfId' actions') hcol hbind hlog
  have hseats := ((replayed_run selfId actions).seats hquiet).trans
    (hentries ▸ ((replayed_run selfId' actions').seats hquiet').symm)
  have hcommittee := congrArg Seats.committee hseats
  exact ⟨congrArg Committee.authorityRegistry hcommittee, congrArg Committee.stakeTable hcommittee,
    congrArg Committee.nAuthorities hcommittee⟩

end Replay

/-! ## Two arrivals -/

/-- Node 1 has seen both genesis certificates of authority 0, node 2 has not: neither has executed
    anything, and only node 1 has ejected authority 0. -/
theorem equivocation_splits_committees :
    (receiveAll (echoManifest 4) 1 [.cert (signed twinA), .cert (signed twinB)]).committed =
      (receiveAll (echoManifest 4) 2 []).committed ∧
    (receiveAll (echoManifest 4) 1 [.cert (signed twinA), .cert (signed twinB)]).committee.nAuthorities = 3 ∧
    (receiveAll (echoManifest 4) 2 []).committee.nAuthorities = 4 ∧
    (0 : AuthorityId) ∉ (receiveAll (echoManifest 4) 1
      [.cert (signed twinA), .cert (signed twinB)]).committee.authorityRegistry ∧
    (0 : AuthorityId) ∈ (receiveAll (echoManifest 4) 2 []).committee.authorityRegistry ∧
    (0 : AuthorityId) ∉ (receiveAll (echoManifest 4) 1
      [.cert (signed twinA), .cert (signed twinB)]).committee.stakeTable ∧
    (0 : AuthorityId) ∈ (receiveAll (echoManifest 4) 2 []).committee.stakeTable := by
  decide +kernel

/-- One authority, its first two certificates, the block of the first and a vote for it. -/
def certsFirst : List WireMessage :=
  [.cert (signed root0), .cert (signed first0), .block (emptyBlock root0), .vote ⟨0, root0.1⟩]

/-- The same messages in another order. -/
def blockFirst : List WireMessage :=
  [.block (emptyBlock root0), .vote ⟨0, root0.1⟩, .cert (signed root0), .cert (signed first0)]

theorem twoCerts_noCollision {s t : DagStore}
    (hs : s = DagStore.new.recordAll [(root0.1, signed root0), (first0.1, signed first0)])
    (ht : t = DagStore.new.recordAll [(root0.1, signed root0), (first0.1, signed first0)]) :
    NoCollision Blake3.hash fun c => ∃ h, s.get h = some c ∨ t.get h = some c := by
  have hdistinct : ([signed root0, signed first0].map (Certificate.hash Blake3.hash)).Nodup := by
    decide +kernel
  refine noCollision_of_nodup hdistinct ?_
  rw [hs, ht]
  rintro c ⟨h, hc | hc⟩
  all_goals
    have hmem := DagStore.mem_of_get_recordAll_new hc
    simp only [List.mem_cons, Prod.mk.injEq, List.not_mem_nil, or_false] at hmem ⊢
    exact hmem.imp And.right And.right

/-- Two nodes that have executed the same block hold the same committee. -/
theorem committee_of_committed_reordered :
    (receiveAll (echoManifest 1) 5 certsFirst).committed = [root0.1] ∧
    (receiveAll (echoManifest 1) 5 certsFirst).committee.authorityRegistry =
        (receiveAll (echoManifest 1) 6 blockFirst).committee.authorityRegistry ∧
      (receiveAll (echoManifest 1) 5 certsFirst).committee.stakeTable =
        (receiveAll (echoManifest 1) 6 blockFirst).committee.stakeTable ∧
      (receiveAll (echoManifest 1) 5 certsFirst).committee.nAuthorities =
        (receiveAll (echoManifest 1) 6 blockFirst).committee.nAuthorities := by
  -- both runs, evaluated once
  have hrun : ((receiveAll (echoManifest 1) 5 certsFirst).committed = [root0.1] ∧
      (receiveAll (echoManifest 1) 5 certsFirst).committed =
        (receiveAll (echoManifest 1) 6 blockFirst).committed) ∧
      ((receiveAll (echoManifest 1) 5 certsFirst).dag =
          DagStore.new.recordAll [(root0.1, signed root0), (first0.1, signed first0)] ∧
        (receiveAll (echoManifest 1) 6 blockFirst).dag =
          DagStore.new.recordAll [(root0.1, signed root0), (first0.1, signed first0)]) ∧
      (Undisturbed (receiveAll (echoManifest 1) 5 certsFirst).insertions ∧
        Undisturbed (receiveAll (echoManifest 1) 6 blockFirst).insertions) ∧
      ∀ e ∈ (receiveAll (echoManifest 1) 5 certsFirst).executions ++
        (receiveAll (echoManifest 1) 6 blockFirst).executions,
        e.intents = [] ∧ e.governanceAuth = [] := by
    decide +kernel
  obtain ⟨⟨hfirst, hlog⟩, ⟨hdag, hdag'⟩, ⟨hquiet, hquiet'⟩, hempty⟩ := hrun
  refine ⟨hfirst, committee_of_committed (C := echoScheme) rfl rfl (twoCerts_noCollision hdag hdag')
    ?_ hquiet hquiet' hlog⟩
  refine @bindsPayloads_of_nodup _ _ [([], [])] (List.nodup_singleton _) ?_
  rintro i a ⟨e, he, rfl, rfl⟩
  rw [(hempty e he).1, (hempty e he).2]
  exact List.mem_singleton_self _

end SuwappuDag.Node
