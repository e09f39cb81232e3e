/-
  THE TASKS OF A NODE, one lock section at a time (`suwappu-node/src/daemon.rs`).

  The fields of the shared state have locks of their own, and a task holds a lock for a few lines
  only.  Between two sections other tasks move.  So the program is written once more, as a machine:
  a PROGRAM POINT names the section that is entered next and carries the local variables, `step` is
  the section.

  1. **`CommitPc`** — `try_commit` with `apply_governance_intent` and the equivocation queue.
  2. **`IngestPc`** — `ingest_cert`, here without fuel: a loop that never ends is a task that always
     has a next step.
  3. **`InboxPc`, `DriverPc`** — `run_inbox`, one task per peer, and `run_round_driver`.
  4. **`Task.stepAtomic`** — the same tasks with `try_commit` in one piece.

  Taking the next message, or a decision without a lock, is a step that leaves the shared state
  alone.  A client's request reads the registry and writes mempool and envelopes; it is one step.
-/
import SuwappuDag.Lib.Interleave
import SuwappuDag.Node.Ingress

namespace SuwappuDag.Node

open Words Consensus Execution
open Std (ExtTreeMap)

/-! ## The commit walk -/

/-- The local variables of the outer loop. -/
structure Walk where
  votes : List Vote
  n : CommitteeSize
  /-- The candidate rounds still to come. -/
  rounds : List Round

/-- The local variables of the inner loop. -/
structure Sweep where
  walk : Walk
  /-- The certificates of the history still to come. -/
  history : List CertHash

/-- A certificate with the payload of its block in hand. -/
structure Claim where
  hash : CertHash
  round : Round
  intents : List Intent
  governanceAuth : List (UInt32 × GovAuth)

/-- Where the removal of an authority goes back to. -/
inductive Back where
  | governance (p : Sweep) (queued : List (Intent × Option GovAuth))
  | equivocation (proofs : List EquivocationProof)

inductive CommitPc where
  | snapshot
  | size (votes : List Vote)
  | candidates (votes : List Vote) (n : CommitteeSize)
  | slot (w : Walk) (round : Round)
  | leader (w : Walk) (leaderHash : CertHash)
  | quorum (w : Walk) (leaderHash : CertHash)
  | history (w : Walk) (leaderHash : CertHash)
  | claimed (p : Sweep) (h : CertHash)
  | fetch (p : Sweep) (h : CertHash)
  | bind (p : Sweep) (h : CertHash) (cert : Certificate)
  | need (h : CertHash)
  | claim (p : Sweep) (c : Claim)
  | unneed (p : Sweep) (c : Claim)
  | execute (p : Sweep) (c : Claim)
  | queue (p : Sweep) (c : Claim)
  | unvote (p : Sweep) (c : Claim)
  | boundary (p : Sweep) (c : Claim)
  | take (p : Sweep)
  | govern (p : Sweep) (intent : Intent) (auth : Option GovAuth)
      (queued : List (Intent × Option GovAuth))
  | coSigner (p : Sweep) (intent : Intent) (envelope : GovAuth)
      (queued : List (Intent × Option GovAuth))
  | seatAuthority (p : Sweep) (id : AuthorityId) (stake : UInt64) (mldsaPublicKey : List UInt8)
      (queued : List (Intent × Option GovAuth))
  | park (p : Sweep) (id : AuthorityId) (stake : UInt64) (queued : List (Intent × Option GovAuth))
  | seatValidator (p : Sweep) (id : AuthorityId) (stake : UInt64)
      (queued : List (Intent × Option GovAuth))
  | unseat (p : Sweep) (id : AuthorityId) (queued : List (Intent × Option GovAuth))
  | epoch (p : Sweep)
  | equivocations
  | seated (id : AuthorityId) (proofs : List EquivocationProof)
  | remove (id : AuthorityId) (proofs : List EquivocationProof)
  | removeValidator (back : Back) (id : AuthorityId)
  | removeStake (back : Back) (id : AuthorityId)
  | recount (back : Back) (id : AuthorityId)
  | record (back : Back) (id : AuthorityId) (n : UInt32)
  | done

/-- The next slot, or the equivocation queue behind the last one. -/
def Walk.next (w : Walk) : CommitPc :=
  match w.rounds with
  | [] => .equivocations
  | round :: rounds => .slot { w with rounds } round

/-- The next certificate of the history. -/
def Sweep.next (p : Sweep) : CommitPc :=
  match p.history with
  | [] => p.walk.next
  | h :: history => .claimed { p with history } h

/-- The next call of `apply_governance_intent`. -/
def nextIntent (p : Sweep) : List (Intent × Option GovAuth) → CommitPc
  | [] => .epoch p
  | (intent, auth) :: queued => .govern p intent auth queued

def nextProof : List EquivocationProof → CommitPc
  | [] => .done
  | proof :: proofs => .seated proof.author proofs

def Back.next : Back → CommitPc
  | .governance p queued => nextIntent p queued
  | .equivocation proofs => nextProof proofs

/-- The first section behind the authorization of a governance intent. -/
def enactIntent (p : Sweep) (queued : List (Intent × Option GovAuth)) : Intent → CommitPc
  | .admitAuthority id stake mldsaPublicKey _ => .seatAuthority p id stake mldsaPublicKey queued
  | .exitAuthority id => .unseat p id queued
  | .ejectAuthority id _ => .unseat p id queued
  | _ => nextIntent p queued

section Program

variable (C : Crypto)

/-- `verify_governed_intent` up to the co-signer: the first look at the registry. -/
def checkSponsor (registry : AuthorityRegistry) (networkId : List UInt8) (intent : Intent)
    (auth : GovAuth) : Except String Unit := do
  if !isGovernanceIntent intent then throw "governed submit: not a governance intent"
  checkSeat "sponsor" "sponsor signature"
    (verifySingleSignature C registry networkId intent auth.sponsorSignature auth.sponsorPubkeyHash)

/-- The rest of it: the second look at the registry, and the candidate. -/
def checkCoSigner (registry : AuthorityRegistry) (networkId : List UInt8) (intent : Intent)
    (auth : GovAuth) : Except String Unit := do
  if auth.coSignerPubkeyHash = auth.sponsorPubkeyHash then
    throw "governed submit: co-signer must be a second, distinct seated authority"
  checkSeat "co-signer" "co-signature"
    (verifySingleSignature C registry networkId intent auth.coSignature auth.coSignerPubkeyHash)
  checkCandidate C networkId intent auth.candidatePopSignature

/-- The section of `execute_block`, with the indices it fills. -/
def executeClaim (s : State) (c : Claim) : State :=
  let run := executeBlock C.blake3 ⟨c.round, c.intents⟩ s.substrate
  { s with
    substrate := run.2
    latestBridgeHeader := some (run.1.round, run.1.postRoot)
    blocksByRound := s.blocksByRound.insert c.round c.hash
    txToBlock := indexIntents C s.txToBlock c.hash c.round c.intents
    executions := s.executions ++ [⟨c.hash, c.round, c.intents, c.governanceAuth, s.substrate⟩] }

/-- One lock section of `try_commit`. -/
def CommitPc.step (pc : CommitPc) (s : State) : CommitPc × State :=
  match pc with
  | .snapshot => (.size (votesFlat s), s)
  | .size votes => (.candidates votes s.committee.nAuthorities, s)
  | .candidates votes n => (Walk.next ⟨votes, n, s.dag.rounds⟩, s)
  | .slot w round =>
    match decideSlot s.dag round w.n with
    | .direct leaderHash => (.leader w leaderHash, s)
    | _ => (w.next, s)
  | .leader w leaderHash => (if leaderHash ∈ s.committed then w.next else .quorum w leaderHash, s)
  -- without quorum the whole walk stops
  | .quorum w leaderHash =>
    (if !validatorQuorumMet s.committee.stakeTable leaderHash w.votes then .equivocations
      else .history w leaderHash, s)
  | .history w leaderHash => (Sweep.next ⟨w, causalHistory s.dag leaderHash⟩, s)
  | .claimed p h => (if h ∈ s.committed then p.next else .fetch p h, s)
  | .fetch p h =>
    match s.dag.get h with
    | none => (p.next, s)
    | some cert => (.bind p h cert, s)
  | .bind p h cert =>
    match matchingBlock s h cert with
    | none => (.need h, s)
    | some block => (.claim p ⟨h, cert.round, block.intents, block.governanceAuth⟩, s)
  -- without the block, too
  | .need h => (.equivocations, { s with neededBlocks := insert h s.neededBlocks })
  | .claim p c =>
    if c.hash ∈ s.committed then (p.next, s)
    else (.unneed p c, { s with committed := s.committed ++ [c.hash] })
  | .unneed p c => (.execute p c, { s with neededBlocks := s.neededBlocks.erase c.hash })
  | .execute p c => (.queue p c, executeClaim C s c)
  | .queue p c => (.unvote p c, { s with
      pendingGovernance := s.pendingGovernance ++ governanceOf c.intents c.governanceAuth })
  | .unvote p c => (.boundary p c, { s with votes := s.votes.erase c.hash })
  | .boundary p c =>
    if s.epoch.boundaryCrossedBy c.round then
      (.take p, { s with epoch :=
        { s.epoch with current := s.epoch.epochFor c.round, lastBoundaryRound := c.round } })
    else (p.next, s)
  | .take p => (nextIntent p s.pendingGovernance, { s with pendingGovernance := [] })
  | .govern p intent auth queued =>
    (match auth with
      | none => nextIntent p queued
      | some envelope =>
        match checkSponsor C s.committee.authorityRegistry s.networkId intent envelope with
        | .error _ => nextIntent p queued
        | .ok _ => .coSigner p intent envelope queued,
      { s with
        drains := s.drains ++ [⟨intent, auth, s.committee⟩]
        reshapes := s.reshapes ++ [.govern intent auth] })
  | .coSigner p intent envelope queued =>
    (match checkCoSigner C s.committee.authorityRegistry s.networkId intent envelope with
      | .error _ => nextIntent p queued
      | .ok _ => enactIntent p queued intent, s)
  | .seatAuthority p id stake mldsaPublicKey queued =>
    match s.committee.authorityRegistry.tryAdmit ⟨id, stake, mldsaPublicKey⟩ with
    | .error _ => (nextIntent p queued, s)
    | .ok registry => (.park p id stake queued,
        { s with committee := { s.committee with authorityRegistry := registry } })
  | .park p id stake queued => (.seatValidator p id stake queued, { s with committee :=
      { s.committee with
        pendingStake := s.committee.pendingStake.insert id (BitVec.ofNat 128 stake.toNat) } })
  | .seatValidator p id stake queued => (nextIntent p queued, { s with committee :=
      { s.committee with validatorRegistry :=
        match s.committee.validatorRegistry.tryAdmit ⟨id, BitVec.ofNat 128 stake.toNat⟩ with
        | .ok registry => registry
        | .error _ => s.committee.validatorRegistry } })
  | .unseat p id queued =>
    if id ∈ s.committee.authorityRegistry then
      (.removeValidator (.governance p queued) id, { s with committee :=
        { s.committee with authorityRegistry := s.committee.authorityRegistry.erase id } })
    else (nextIntent p queued, s)
  -- the epoch is read for the log
  | .epoch p => (p.next, s)
  | .equivocations => (nextProof s.detectedEquivocations, { s with detectedEquivocations := [] })
  | .seated id proofs =>
    (if id ∈ s.committee.authorityRegistry then .remove id proofs else nextProof proofs,
      { s with reshapes := s.reshapes ++ [.eject id] })
  | .remove id proofs => (.removeValidator (.equivocation proofs) id, { s with committee :=
      { s.committee with authorityRegistry := s.committee.authorityRegistry.erase id } })
  | .removeValidator back id => (.removeStake back id, { s with committee :=
      { s.committee with validatorRegistry := s.committee.validatorRegistry.erase id } })
  | .removeStake back id => (.recount back id, { s with committee :=
      { s.committee with stakeTable := s.committee.stakeTable.erase id } })
  | .recount back id => (.record back id (UInt32.ofNat s.committee.authorityRegistry.size), s)
  | .record back id n => (back.next, { s with committee :=
      { s.committee with pendingStake := s.committee.pendingStake.erase id, nAuthorities := n } })
  | .done => (.done, s)

/-! ## Ingest -/

/-- The local variables of the ingest loop. -/
structure Ingesting where
  work : List Certificate
  inserted : List IngestedCert

inductive IngestPc where
  | verify (i : Ingesting) (cert : Certificate)
  | insert (i : Ingesting) (cert : Certificate)
  | evict (i : Ingesting) (cert : Certificate) (h : CertHash)
  | note (i : Ingesting) (cert : Certificate) (h : CertHash)
  | activate (i : Ingesting) (author : AuthorityId) (stake : Stake)
  | buffer (i : Ingesting) (cert : Certificate) (missing : CertHash)
  | done (inserted : List IngestedCert)

/-- `work.pop()`. -/
def Ingesting.next (i : Ingesting) : IngestPc :=
  match i.work with
  | [] => .done i.inserted
  | cert :: work => .verify { i with work } cert

/-- The `inner` section of a certificate that the store has taken. -/
def noteInserted (s : State) (cert : Certificate) (h : CertHash) : State :=
  noteSeen { s with
    maxObservedRound := max s.maxObservedRound cert.round
    inflightFetches := s.inflightFetches.erase h
    committee :=
      match s.committee.pendingStake[cert.author]? with
      | none => s.committee
      | some _ => { s.committee with
          pendingStake := s.committee.pendingStake.erase cert.author
          nAuthorities := Committee.succSaturating s.committee.nAuthorities }
    reshapes := s.reshapes ++ [.promote cert.author]
    orphans := s.orphans.erase h
    insertions := s.insertions ++ [⟨h, cert.author, s.committee.pendingStake[cert.author]?,
      s.seenAt[toLex (cert.author, cert.round)]?⟩] } cert.author cert.round h

/-- One lock section of `ingest_cert`. -/
def IngestPc.step (pc : IngestPc) (s : State) : IngestPc × State :=
  match pc with
  | .verify i cert =>
    (if !authored C s.committee.authorityRegistry cert then i.next else .insert i cert, s)
  | .insert i cert =>
    match s.dag.insert C.blake3 cert with
    | .ok (h, dag) => (.evict i cert h, { s with dag })
    | .error (.unknownParent missing) => (.buffer i cert missing, s)
    | .error _ => (i.next, s)
  | .evict i cert h => (.note i cert h, { s with blocks := evictBlock s.blocks h cert.payloadDigest })
  | .note i cert h =>
    let i : Ingesting := ⟨(s.orphans[h]?.getD []).reverse ++ i.work, i.inserted ++ [⟨h, cert.round⟩]⟩
    (match s.committee.pendingStake[cert.author]? with
      | none => i.next
      | some stake => .activate i cert.author stake, noteInserted s cert h)
  | .activate i author stake => (i.next, { s with committee :=
      { s.committee with stakeTable := s.committee.stakeTable.insert author stake } })
  | .buffer i cert missing => (i.next, bufferOrphan s cert missing)
  | .done inserted => (.done inserted, s)

/-! ## The inbox -/

inductive InboxPc where
  | idle
  | ingest (pc : IngestPc)
  | mayVote (inserted : List IngestedCert)
  | cast (candidate : CertHash) (inserted : List IngestedCert)
  | lookup (block : BlockPayload)
  | overwrite (block : BlockPayload)
  | storeNew (block : BlockPayload)
  | push (vote : Vote)
  | commit (pc : CommitPc)

/-- The next own vote, or `try_commit` behind the last one. -/
def nextVote : List IngestedCert → InboxPc
  | [] => .commit .snapshot
  | ic :: inserted => .cast ic.hash inserted

/-- The first section for a message. -/
def startMessage (isDynamic : Bool) : WireMessage → InboxPc
  | .cert cert => .ingest (.verify ⟨[], []⟩ cert)
  | .block block =>
    if isDynamic then .idle
    else if !blockPayloadIsConsistent C.blake3 block then .idle
    else .lookup block
  | .vote vote => if isDynamic then .idle else .push vote

/-- One lock section of `run_inbox` behind the arrival of a message. -/
def InboxPc.step (pc : InboxPc) (s : State) : InboxPc × State :=
  match pc with
  | .idle => (.idle, s)
  | .ingest (.done inserted) => (.mayVote inserted, s)
  | .ingest pc => (.ingest (pc.step C s).1, (pc.step C s).2)
  | .mayVote inserted =>
    (if s.selfId ∈ s.committee.authorityRegistry then nextVote inserted else .commit .snapshot, s)
  | .cast candidate inserted => (nextVote inserted, pushVote s ⟨s.selfId, candidate⟩)
  | .lookup block =>
    (match s.dag.get block.certHash with
      | some cert => if cert.payloadDigest = block.payloadDigest then .overwrite block else .idle
      | none => .storeNew block, s)
  | .overwrite block => (.idle, { s with blocks := s.blocks.insert block.certHash block })
  | .storeNew block => (.idle, { s with blocks := s.blocks.insertIfNew block.certHash block })
  | .push vote => (.commit .snapshot, pushVote s vote)
  | .commit .done => (.idle, s)
  | .commit pc => (.commit (pc.step C s).1, (pc.step C s).2)

/-! ## The round driver -/

/-- What the driver has gathered for its proposal. -/
structure Assembly where
  selfId : AuthorityId
  round : Round
  parents : List CertHash
  signature : List UInt8
  intents : List Intent
  attached : List (UInt32 × GovAuth)

structure Proposal where
  cert : Certificate
  hash : CertHash
  block : BlockPayload

/-- Digest and sign. -/
def Assembly.propose (a : Assembly) : Proposal :=
  let digest := computePayloadDigest C.blake3 a.intents a.attached
  let cert : Certificate := ⟨a.selfId, a.round, a.parents, digest, a.signature⟩
  let h := cert.hash C.blake3
  ⟨cert, h, ⟨digest, a.selfId, a.round, h, a.intents, a.attached⟩⟩

inductive DriverPc where
  | idle
  | seated (timedOut : Bool) (signature : List UInt8)
  | parents (timedOut : Bool) (signature : List UInt8)
  | drain (a : Assembly)
  | envelope (a : Assembly) (intent : Intent) (idx : Nat) (todo : List (Intent × Nat))
  | mark (p : Proposal)
  | insert (p : Proposal)
  | store (p : Proposal)

def nextEnvelope (a : Assembly) : List (Intent × Nat) → DriverPc
  | [] => .mark (a.propose C)
  | (intent, idx) :: todo => .envelope a intent idx todo

/-- The `inner` section of a proposal. -/
def markProposed (s : State) (p : Proposal) : State :=
  { s with
    lastAuthoredRound := some p.cert.round
    maxObservedRound := max s.maxObservedRound p.cert.round
    blocksByRound := s.blocksByRound.insert p.cert.round p.hash
    txToBlock := indexIntents C s.txToBlock p.hash p.cert.round p.block.intents
    seenAt := s.seenAt.insertIfNew (toLex (s.selfId, p.cert.round)) p.hash
    detectedEquivocations :=
      s.detectedEquivocations ++ conflict s.seenAt s.selfId p.cert.round p.hash
    insertions := s.insertions ++
      [⟨p.hash, s.selfId, none, s.seenAt[toLex (s.selfId, p.cert.round)]?⟩]
    proposals := s.proposals ++ [(p.cert, p.block)] }

/-- One lock section of `run_round_driver`.  The gates and the parents are read under the `inner` lock
    with the store's inside; `inner` cannot move in between. -/
def DriverPc.step (pc : DriverPc) (s : State) : DriverPc × State :=
  match pc with
  | .idle => (.idle, s)
  | .seated timedOut signature =>
    (if s.selfId ∉ s.committee.authorityRegistry then .idle else .parents timedOut signature, s)
  | .parents timedOut signature =>
    (if !mayPropose s timedOut then .idle
      else .drain ⟨s.selfId, targetRound s,
        parentsForRound s.dag (targetRound s) s.committee.nAuthorities, signature, [], []⟩, s)
  | .drain a =>
    let drained := s.mempool.drainForBlock maxIntentsPerBlock
    (nextEnvelope C { a with intents := drained.1 } drained.1.zipIdx, { s with mempool := drained.2 })
  | .envelope a intent idx todo =>
    let hash := intentHash C.blake3 intent
    match (if isGovernanceIntent intent then s.governanceEnvelopes[hash]? else none) with
    | some auth => (nextEnvelope C { a with attached := a.attached ++ [(UInt32.ofNat idx, auth)] } todo,
        { s with governanceEnvelopes := s.governanceEnvelopes.erase hash })
    | none => (nextEnvelope C a todo, s)
  | .mark p => (.insert p, markProposed C s p)
  -- the result of the insertion is ignored
  | .insert p =>
    (.store p, { s with dag := match s.dag.insert C.blake3 p.cert with
      | .ok (_, dag) => dag
      | .error _ => s.dag })
  | .store p => (.idle, { s with blocks := s.blocks.insert p.hash p.block })

/-! ## Tasks -/

/-- A request of a client, over TCP or JSON-RPC. -/
inductive Request where
  | tcp (ambient : Ambient) (msg : ClientMessage)
  | rpc (intentBincode : List UInt8) (decoded : Except String Intent) (signature : List UInt8)
      (signerPubkeyHash : Bytes32) (nowMs : UInt64)

def Request.exec (request : Request) (s : State) : State :=
  match request with
  | .tcp ambient msg => (handleClient C ambient msg s).1
  | .rpc intentBincode decoded signature signerPubkeyHash nowMs =>
    (submitIntent C intentBincode decoded signature signerPubkeyHash nowMs s).1

/-- A task, with what is still going to arrive for it. -/
inductive Task where
  | inbox (isDynamic : Bool) (messages : List WireMessage) (pc : InboxPc)
  | driver (ticks : List (Bool × List UInt8)) (pc : DriverPc)
  | client (requests : List Request)

def Task.step (task : Task) (s : State) : Task × State :=
  match task with
  | .inbox isDynamic messages .idle =>
    match messages with
    | [] => (.inbox isDynamic [] .idle, s)
    | msg :: messages => (.inbox isDynamic messages (startMessage C isDynamic msg), s)
  | .inbox isDynamic messages pc => (.inbox isDynamic messages (pc.step C s).1, (pc.step C s).2)
  | .driver ticks .idle =>
    match ticks with
    | [] => (.driver [] .idle, s)
    | (timedOut, signature) :: ticks => (.driver ticks (.seated timedOut signature), s)
  | .driver ticks pc => (.driver ticks (pc.step C s).1, (pc.step C s).2)
  | .client [] => (.client [], s)
  | .client (request :: requests) => (.client requests, request.exec C s)

/-- Every task waits for its first message. -/
def Task.idle : Task → Bool
  | .inbox _ _ .idle => true
  | .driver _ .idle => true
  | .client _ => true
  | _ => false

/-! ## `try_commit` in one piece -/

/-- Strictly between the first and the last section of a walk. -/
def CommitPc.inside : CommitPc → Bool
  | .snapshot => false
  | .done => false
  | _ => true

def Task.inside : Task → Bool
  | .inbox _ _ (.commit pc) => pc.inside
  | _ => false

/-- A task that runs `try_commit` in one step. -/
def Task.stepAtomic (task : Task) (s : State) : Task × State :=
  match task with
  | .inbox isDynamic messages (.commit .snapshot) =>
    (.inbox isDynamic messages (.commit .done), tryCommit C s)
  | task => task.step C s

end Program

end SuwappuDag.Node
