/-
  INVARIANTS OF A NODE — one rule for all runs.

  Every action is a sequence of a few elementary changes: a certificate is taken in or buffered, a
  certificate is executed, a missing block is noted, equivocators are ejected, a vote, a block, a
  proposal, a submission or an envelope is recorded.  `NodeInvariant` lists what an invariant has to
  survive; `NodeInvariant.exec` and `NodeInvariant.run` carry it through actions and runs.
  `InboxInvariant` and `ClientInvariant` are the parts for messages and for clients.  Where only some
  certificates or blocks can come in, `Q` and `R` say which.
-/
import SuwappuDag.Node.Ingress

namespace SuwappuDag.Node

open Words Consensus Execution
open Std (ExtTreeMap)

/-! ## What an execution and a buffered orphan change -/

/-- Whatever reads none of the fields that an execution writes is as before. -/
theorem executeCert_frame {C : Crypto} {s : State} {h : CertHash} {cert : Certificate}
    {block : BlockPayload} {β : Type} (f : State → β)
    (hf : ∀ (t : State) committed neededBlocks substrate latestBridgeHeader blocksByRound txToBlock
      pendingGovernance votes executions epoch committee drains reshapes,
      f { t with committed, neededBlocks, substrate, latestBridgeHeader, blocksByRound, txToBlock,
                 pendingGovernance, votes, executions, epoch, committee, drains, reshapes } = f t) :
    f (executeCert C s h cert block) = f s := by
  unfold executeCert crossBoundary
  dsimp only
  split
  · exact hf s _ _ _ _ _ _ _ _ _ _ _ _ _
  · exact hf s _ _ _ _ _ _ _ _ _ s.epoch s.committee s.drains s.reshapes

/-- A buffered orphan is written to the buffer, with the fetch of its parent. -/
theorem bufferOrphan_frame {s : State} {cert : Certificate} {missing : CertHash} {β : Type}
    (f : State → β)
    (hf : ∀ (t : State) orphans inflightFetches, f { t with orphans, inflightFetches } = f t) :
    f (bufferOrphan s cert missing) = f s := by
  unfold bufferOrphan
  split
  · rfl
  · exact hf s _ _

section Executed

variable (C : Crypto) (s : State) (h : CertHash) (cert : Certificate) (block : BlockPayload)

theorem executeCert_dag : (executeCert C s h cert block).dag = s.dag :=
  executeCert_frame State.dag (by intros; rfl)

theorem executeCert_committed : (executeCert C s h cert block).committed = s.committed ++ [h] := by
  unfold executeCert crossBoundary
  dsimp only
  split <;> rfl

theorem executeCert_executions : (executeCert C s h cert block).executions = s.executions ++
    [⟨h, cert.round, block.intents, block.governanceAuth, s.substrate⟩] := by
  unfold executeCert crossBoundary
  dsimp only
  split <;> rfl

theorem executeCert_seenAt : (executeCert C s h cert block).seenAt = s.seenAt :=
  executeCert_frame State.seenAt (by intros; rfl)

theorem executeCert_detectedEquivocations :
    (executeCert C s h cert block).detectedEquivocations = s.detectedEquivocations :=
  executeCert_frame State.detectedEquivocations (by intros; rfl)

end Executed

/-! ## The commit walk -/

/-- `P` survives what the commit walk does. -/
structure CommitInvariant (C : Crypto) (P : State → Prop) : Prop where
  need : ∀ {s} (h : CertHash), P s → P { s with neededBlocks := insert h s.neededBlocks }
  execute : ∀ {s h cert block}, P s → h ∉ s.committed → s.dag.get h = some cert →
    matchingBlock s h cert = some block → P (executeCert C s h cert block)

namespace CommitInvariant

variable {C : Crypto} {P : State → Prop}

theorem history (inv : CommitInvariant C P) : ∀ (history : List CertHash) {s : State}, P s →
    P (commitHistory C history s).1 := by
  intro history
  induction history with
  | nil => exact fun h => h
  | cons h history ih =>
    intro s hs
    rw [commitHistory]
    split
    · exact ih hs
    · next hfresh =>
      split
      · exact ih hs
      · next cert hcert =>
        split
        · exact inv.need h hs
        · next block hblock => exact ih (inv.execute hs hfresh hcert hblock)

theorem walk (inv : CommitInvariant C P) (votes : List Vote) (n : CommitteeSize) :
    ∀ (rounds : List Round) {s : State}, P s → P (commitWalk C votes n rounds s) := by
  intro rounds
  induction rounds with
  | nil => exact fun h => h
  | cons round rounds ih =>
    intro s hs
    rw [commitWalk]
    split
    · next leaderHash hd =>
      split
      · exact ih hs
      split
      · exact hs
      have hhist := inv.history (causalHistory s.dag leaderHash) hs
      split
      · next t heq =>
        rw [heq] at hhist
        exact ih hhist
      · next t heq =>
        rw [heq] at hhist
        exact hhist
    · exact ih hs

end CommitInvariant

/-! ## Actions -/

/-- `P` survives every elementary change that messages make, when only certificates in `Q` and blocks
    in `R` come in. -/
structure InboxInvariant (C : Crypto) (Q : Certificate → Prop) (R : BlockPayload → Prop)
    (P : State → Prop) : Prop extends CommitInvariant C P where
  eject : ∀ {s}, P s → P (ejectEquivocators s)
  insert : ∀ {s cert h dag}, P s → Q cert → authored C s.committee.authorityRegistry cert = true →
    s.dag.insert C.blake3 cert = .ok (h, dag) → P (onInserted s cert h dag)
  buffer : ∀ {s cert} (missing), P s → Q cert → P (bufferOrphan s cert missing)
  waiting : ∀ {s cert} {h : CertHash}, P s → cert ∈ s.orphans[h]?.getD [] → Q cert
  vote : ∀ {s} (vote), P s → P (pushVote s vote)
  store : ∀ {s block}, P s → R block → P (storeBlock C s block)

/-- `P` survives the submissions of clients. -/
structure ClientInvariant (C : Crypto) (P : State → Prop) : Prop where
  accept : ∀ {s} (intent limited nowMs), P s → P (admitIntent C s intent limited nowMs).2
  remember : ∀ {s} (hash auth), P s → P (rememberGovernanceEnvelope s hash auth)

/-- `P` survives the round driver too. -/
structure NodeInvariant (C : Crypto) (Q : Certificate → Prop) (R : BlockPayload → Prop)
    (P : State → Prop) : Prop extends InboxInvariant C Q R P, ClientInvariant C P where
  author : ∀ {s} (timedOut signature), P s → P (authorRound C s timedOut signature).1

/-- A certificate that passes the signature check is in `Q`, a block is in `R`. -/
def Action.Delivers (C : Crypto) (Q : Certificate → Prop) (R : BlockPayload → Prop) (s : State) :
    Action → Prop
  | .receive _ (.cert cert) => authored C s.committee.authorityRegistry cert = true → Q cert
  | .receive _ (.block block) => R block
  | _ => True

theorem delivers_true {C : Crypto} (s : State) (action : Action) :
    action.Delivers C (fun _ => True) (fun _ => True) s := by
  unfold Action.Delivers
  split
  · exact fun _ => trivial
  · trivial
  · trivial

theorem Committee.promote_authorityRegistry (committee : Committee) (author : AuthorityId) :
    (committee.promote author).authorityRegistry = committee.authorityRegistry := by
  unfold promote
  split <;> rfl

/-- Nothing parked, nothing promoted. -/
theorem Committee.promote_of_unparked {committee : Committee} {author : AuthorityId}
    (hparked : committee.pendingStake[author]? = none) : committee.promote author = committee := by
  rw [promote, hparked]

/-- A certificate seen before, or the first one, conflicts with nothing. -/
theorem conflict_eq_nil_of_same {seenAt : ExtTreeMap (AuthorityId ×ₗ Round) CertHash}
    {author : AuthorityId} {round : Round} {h : CertHash}
    (hsame : seenAt[toLex (author, round)]? = none ∨ seenAt[toLex (author, round)]? = some h) :
    conflict seenAt author round h = [] := by
  unfold conflict
  rcases hsame with hnone | hself
  · rw [hnone]
  · rw [hself]
    exact if_neg fun hne => hne rfl

/-- Ingest leaves the registry alone, so the check of one message is made against one registry. -/
theorem onInserted_authorityRegistry (s : State) (cert : Certificate) (h : CertHash)
    (dag : DagStore) : (onInserted s cert h dag).committee.authorityRegistry =
      s.committee.authorityRegistry := s.committee.promote_authorityRegistry cert.author

theorem bufferOrphan_committee (s : State) (cert : Certificate) (missing : CertHash) :
    (bufferOrphan s cert missing).committee = s.committee :=
  bufferOrphan_frame State.committee (by intros; rfl)

section Actions

variable {C : Crypto} {Q : Certificate → Prop} {R : BlockPayload → Prop} {P : State → Prop}

namespace InboxInvariant

/-- The loop keeps `P`, as long as what is on the work list is in `Q` once its signature is good. -/
theorem ingestLoop (inv : InboxInvariant C Q R P) {registry : AuthorityRegistry} :
    ∀ (fuel : Nat) {i : Ingest}, P i.state → i.state.committee.authorityRegistry = registry →
      (∀ c ∈ i.work, authored C registry c = true → Q c) → P (Node.ingestLoop C fuel i).state := by
  intro fuel
  induction fuel with
  | zero => exact fun hp _ _ => hp
  | succ fuel ih =>
    intro i hp hreg hwork
    rw [Node.ingestLoop]
    split
    · exact hp
    next cert work hcons =>
    rw [hcons] at hwork
    obtain ⟨hcert, hrest⟩ := List.forall_mem_cons.mp hwork
    rw [ingestStep]
    dsimp only
    split
    · exact ih hp hreg hrest
    next hauth =>
    have hauth : authored C i.state.committee.authorityRegistry cert = true := by simpa using hauth
    have hq : Q cert := hcert (hreg ▸ hauth)
    split
    · next h dag hins =>
      refine ih (inv.insert hp hq hauth hins)
        ((onInserted_authorityRegistry _ _ _ _).trans hreg) ?_
      intro c hc
      rcases List.mem_append.mp hc with hc | hc
      · exact fun _ => inv.waiting hp (List.mem_reverse.mp hc)
      · exact hrest c hc
    · next missing hins =>
      exact ih (inv.buffer missing hp hq) (by rw [bufferOrphan_committee]; exact hreg) hrest
    · exact ih hp hreg hrest

theorem tryCommit (inv : InboxInvariant C Q R P) {s : State} (hs : P s) : P (Node.tryCommit C s) :=
  inv.eject (inv.walk _ _ _ hs)

theorem voteFor (inv : InboxInvariant C Q R P) (inserted : List IngestedCert) {s : State} (hs : P s) :
    P (Node.voteFor s inserted) := by
  have hfold : ∀ (inserted : List IngestedCert) (s : State), P s →
      P (inserted.foldl (fun s ic => pushVote s ⟨s.selfId, ic.hash⟩) s) := by
    intro inserted
    induction inserted with
    | nil => exact fun s hs => hs
    | cons ic inserted ih => exact fun s hs => ih _ (inv.vote _ hs)
  unfold Node.voteFor
  split
  · exact hfold inserted s hs
  · exact hs

theorem receive (inv : InboxInvariant C Q R P) {isDynamic : Bool} {msg : WireMessage} {s : State}
    (hs : P s) (hd : (Action.receive isDynamic msg).Delivers C Q R s) :
    P (Node.receive C isDynamic msg s) := by
  cases msg with
  | cert cert =>
    refine inv.tryCommit (inv.voteFor _ (inv.ingestLoop _ hs rfl ?_))
    intro c hc
    rw [List.mem_singleton.mp hc]
    exact hd
  | block block =>
    show P (if isDynamic then s else storeBlock C s block)
    split
    · exact hs
    · exact inv.store hs hd
  | vote vote =>
    show P (if isDynamic then s else Node.tryCommit C (pushVote s vote))
    split
    · exact hs
    · exact inv.tryCommit (inv.vote vote hs)

end InboxInvariant

namespace ClientInvariant

theorem submitAll (inv : ClientInvariant C P) (ambient : Ambient) : ∀ (intents : List Intent)
    (k : Nat) (hashes : List Bytes32) {s : State}, P s →
    P (Node.submitAll C ambient k intents hashes s).1 := by
  intro intents
  induction intents with
  | nil => exact fun _ _ _ hs => hs
  | cons intent intents ih =>
    intro k hashes s hs
    have haccept := inv.accept intent (ambient.limited k) (ambient.nowMs k) hs
    rw [Node.submitAll]
    split
    · next t heq =>
      rw [heq] at haccept
      exact ih _ _ haccept
    · next t heq =>
      rw [heq] at haccept
      exact haccept

theorem submitOne (inv : ClientInvariant C P) (ambient : Ambient) (intent : Intent) {s : State}
    (hs : P s) : P (Node.submitOne C ambient intent s).1 := by
  have haccept := inv.accept intent (ambient.limited 0) (ambient.nowMs 0) hs
  rw [Node.submitOne]
  split
  · next t heq => rwa [heq] at haccept
  · next t heq => rwa [heq] at haccept

theorem handleClient (inv : ClientInvariant C P) (ambient : Ambient) (msg : ClientMessage)
    {s : State} (hs : P s) : P (Node.handleClient C ambient msg s).1 := by
  unfold Node.handleClient
  split
  · split
    · exact hs
    · exact inv.submitOne ambient _ hs
  · split
    · exact hs
    · split
      · exact hs
      · exact inv.submitAll ambient _ 0 [] hs
  · split
    · exact hs
    · exact inv.submitOne ambient _ (inv.remember _ _ hs)
  · exact hs

theorem submitIntent (inv : ClientInvariant C P) (bytes : List UInt8)
    (decoded : Except String Intent) (signature : List UInt8) (hash : Bytes32) (nowMs : UInt64)
    {s : State} (hs : P s) : P (Node.submitIntent C bytes decoded signature hash nowMs s).1 := by
  unfold Node.submitIntent
  split
  · exact hs
  next intent =>
  have haccept := inv.accept intent none nowMs hs
  split
  · exact hs
  · exact hs
  · exact hs
  split
  · next t heq => rwa [heq] at haccept
  · next t heq => rwa [heq] at haccept

end ClientInvariant

namespace NodeInvariant

/-- **One action.** -/
theorem exec (inv : NodeInvariant C Q R P) {action : Action} {s : State} (hs : P s)
    (hd : action.Delivers C Q R s) : P (action.exec C s) := by
  cases action with
  | receive isDynamic msg => exact inv.receive hs hd
  | commit => exact inv.tryCommit hs
  | tick timedOut signature => exact inv.author timedOut signature hs
  | client ambient msg => exact inv.handleClient ambient msg hs
  | rpc bytes decoded signature hash nowMs => exact inv.submitIntent bytes decoded signature hash nowMs hs

/-- **A run**, when every certificate and every block that comes in is allowed. -/
theorem run (inv : NodeInvariant C (fun _ => True) R P) {actions : List Action} {s : State}
    (hs : P s) (hr : ∀ dyn block, .receive dyn (.block block) ∈ actions → R block) :
    P (runActions C actions s) := by
  induction actions generalizing s with
  | nil => exact hs
  | cons action actions ih =>
    refine ih (inv.exec hs ?_) fun dyn block h => hr dyn block (List.mem_cons_of_mem _ h)
    unfold Action.Delivers
    split
    · exact fun _ => trivial
    · next dyn block => exact hr dyn block List.mem_cons_self
    · trivial

end NodeInvariant

end Actions

/-! ## The store -/

section Growing

variable {C : Crypto}

/-- **The store only grows.** -/
theorem extends_nodeInvariant (dag : DagStore) : NodeInvariant C (fun _ => True) (fun _ => True)
    fun s => DagStore.Extends C.blake3 dag s.dag where
  need h hs := hs
  execute hs _ _ _ := by rwa [executeCert_dag]
  eject hs := hs
  insert hs _ _ hins := hs.tail ⟨_, _, hins⟩
  buffer missing hs _ :=
    (bufferOrphan_frame (fun s => DagStore.Extends C.blake3 dag s.dag) (by intros; rfl)).mpr hs
  waiting _ _ := trivial
  vote v hs := hs
  store hs _ := hs
  author timedOut signature hs := by
    unfold authorRound
    split
    · exact hs
    split
    · exact hs
    · unfold publish
      dsimp only
      split
      · next hins => exact hs.tail ⟨_, _, hins⟩
      · exact hs
  accept intent limited nowMs hs := hs
  remember hash auth hs := hs

theorem extends_exec (action : Action) (s : State) :
    DagStore.Extends C.blake3 s.dag (action.exec C s).dag :=
  (extends_nodeInvariant s.dag).exec (P := fun t => DagStore.Extends C.blake3 s.dag t.dag) .refl
    (delivers_true _ _)

end Growing

end SuwappuDag.Node
