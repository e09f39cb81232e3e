/-
  THE DAEMON: what a node does with the messages it receives (`suwappu-node/src/daemon.rs`).

  1. **State** — the certificate store, the votes and blocks by certificate, the certificates claimed
     so far, the committee, the execution substrate and the queues between them.  Six HISTORIES ride
     along and are read by no step: `insertions`, one entry per certificate taken in, `executions`,
     one per `execute_block` call, `drains`, one per `apply_governance_intent` call, each with what it
     met, what the node has `accepted` into its mempool and proposed (`proposals`), and the calls that
     reached the committee (`reshapes`).
  2. **Ingest** — `ingestCert`: signature, store, then the effects of a new certificate; an orphan
     waits for its missing parent and is tried again when that parent comes in.  The loop is run
     on fuel, and `ingestCert_work` says that the fuel is enough.
  3. **Commit** — `tryCommit`: the slots in ascending order.  A leader without validator quorum, or a
     history with a missing block, stops the WHOLE walk; an undecided slot is only skipped.
  4. **Author** — `authorRound`: one tick of the round driver.

  Steps are atomic: a message is handled to its end before the next one.
-/
import SuwappuDag.Execution.Block
import SuwappuDag.Consensus.Equivocation
import SuwappuDag.Consensus.Finality
import SuwappuDag.Node.Committee
import SuwappuDag.Node.Mempool

namespace SuwappuDag.Node

open Words Consensus Execution
open Std (ExtTreeMap)

/-! ## The state -/

structure EpochState where
  current : UInt64
  roundsPerEpoch : UInt64
  lastBoundaryRound : UInt64
deriving DecidableEq

def EpochState.epochFor (epoch : EpochState) (round : Round) : UInt64 :=
  if epoch.roundsPerEpoch = 0 then epoch.current else round / epoch.roundsPerEpoch

def EpochState.boundaryCrossedBy (epoch : EpochState) (round : Round) : Bool :=
  epoch.current < epoch.epochFor round

/-- A certificate taken into the store, and what it met. -/
structure Insertion where
  cert : CertHash
  author : AuthorityId
  /-- The stake of its author, if that was parked. -/
  parked : Option Stake
  /-- The certificate seen first at its author and round. -/
  earlier : Option CertHash
deriving DecidableEq

/-- A call of `execute_block`, and the substrate it met. -/
structure ExecutedBlock where
  cert : CertHash
  round : Round
  intents : List Intent
  governanceAuth : List (UInt32 × GovAuth)
  before : InMemorySubstrate

/-- A call of `apply_governance_intent`, and the committee it met. -/
structure Drain where
  intent : Intent
  auth : Option GovAuth
  before : Committee

structure State where
  selfId : AuthorityId
  networkId : List UInt8
  dag : DagStore
  votes : ExtTreeMap CertHash (List Vote)
  blocks : ExtTreeMap CertHash BlockPayload
  /-- The claimed certificates (a set in the source), in the order of the claims. -/
  committed : List CertHash
  committee : Committee
  substrate : InMemorySubstrate
  lastAuthoredRound : Option Round
  maxObservedRound : Round
  /-- Certificates waiting for a parent, by that parent. -/
  orphans : ExtTreeMap CertHash (List Certificate)
  inflightFetches : Finset CertHash
  neededBlocks : Finset CertHash
  epoch : EpochState
  pendingGovernance : List (Intent × Option GovAuth)
  /-- The first certificate seen of an author at a round. -/
  seenAt : ExtTreeMap (AuthorityId ×ₗ Round) CertHash
  detectedEquivocations : List EquivocationProof
  blocksByRound : ExtTreeMap Round CertHash
  txToBlock : ExtTreeMap Bytes32 (Round × CertHash × Nat)
  latestBridgeHeader : Option (UInt64 × Bytes32)
  mempool : Mempool
  governanceEnvelopes : ExtTreeMap Bytes32 GovAuth
  insertions : List Insertion
  executions : List ExecutedBlock
  drains : List Drain
  accepted : List Intent
  proposals : List (Certificate × BlockPayload)
  reshapes : List Reshape

/-! ## Genesis -/

/-- One `[[validators]]` entry of the manifest, its keys decoded. -/
structure ManifestValidator where
  authorityId : AuthorityId
  authorityStakeSuwappu : UInt64
  validatorStakeSuwappu : UInt64
  mldsaPublicKey : List UInt8

structure GenesisManifest where
  networkId : List UInt8
  validators : List ManifestValidator
  prebalances : List (Address × Balance)
  roundsPerEpoch : UInt64

/-- Seat one manifest entry; a registry that refuses it is left as it is. -/
def seatGenesis (committee : Committee) (v : ManifestValidator) : Committee :=
  let stake := BitVec.ofNat 128 v.validatorStakeSuwappu.toNat
  { committee with
    stakeTable := committee.stakeTable.insert v.authorityId stake
    authorityRegistry :=
      match committee.authorityRegistry.tryAdmit
        ⟨v.authorityId, v.authorityStakeSuwappu, v.mldsaPublicKey⟩ with
      | .ok registry => registry
      | .error _ => committee.authorityRegistry
    validatorRegistry :=
      match committee.validatorRegistry.tryAdmit ⟨v.authorityId, stake⟩ with
      | .ok registry => registry
      | .error _ => committee.validatorRegistry }

def genesisCommittee (manifest : GenesisManifest) : Committee :=
  { manifest.validators.foldl seatGenesis ⟨∅, ∅, ∅, 0, ∅⟩ with
    nAuthorities := UInt32.ofNat manifest.validators.length }

theorem genesisCommittee_pendingStake (manifest : GenesisManifest) :
    (genesisCommittee manifest).pendingStake = ∅ := by
  have hfold : ∀ (vs : List ManifestValidator) (committee : Committee),
      (vs.foldl seatGenesis committee).pendingStake = committee.pendingStake := by
    intro vs
    induction vs with
    | nil => exact fun _ => rfl
    | cons v vs ih => exact fun committee => ih (seatGenesis committee v)
  exact hfold manifest.validators ⟨∅, ∅, ∅, 0, ∅⟩

/-- A refused allocation leaves a warning, and whatever it had written. -/
def genesisSubstrate (blake3 : List UInt8 → Bytes32) (manifest : GenesisManifest) :
    InMemorySubstrate :=
  if manifest.prebalances.isEmpty then InMemorySubstrate.new
  else (applyIntent blake3 (.genesisAllocation manifest.prebalances) InMemorySubstrate.new).2

/-- `State::new`, for the authority `selfId`. -/
def State.new (C : Crypto) (manifest : GenesisManifest) (selfId : AuthorityId) : State where
  selfId := selfId
  networkId := manifest.networkId
  dag := DagStore.new
  votes := ∅
  blocks := ∅
  committed := []
  committee := genesisCommittee manifest
  substrate := genesisSubstrate C.blake3 manifest
  lastAuthoredRound := none
  maxObservedRound := 0
  orphans := ∅
  inflightFetches := ∅
  neededBlocks := ∅
  epoch := ⟨0, manifest.roundsPerEpoch, 0⟩
  pendingGovernance := []
  seenAt := ∅
  detectedEquivocations := []
  blocksByRound := ∅
  txToBlock := ∅
  latestBridgeHeader := none
  mempool := Mempool.new
  governanceEnvelopes := ∅
  insertions := []
  executions := []
  drains := []
  accepted := []
  proposals := []
  reshapes := []

section Program

variable (C : Crypto)

/-! ## Ingest -/

/-- The proof of an equivocation: another certificate was seen first at this author and round. -/
def conflict (seenAt : ExtTreeMap (AuthorityId ×ₗ Round) CertHash) (author : AuthorityId)
    (round : Round) (h : CertHash) : List EquivocationProof :=
  match seenAt[toLex (author, round)]? with
  | some prev => if prev ≠ h then [⟨author, round, prev, h⟩] else []
  | none => []

/-- Remember the first certificate of an author at a round, and note a second one. -/
def noteSeen (s : State) (author : AuthorityId) (round : Round) (h : CertHash) : State :=
  { s with
    seenAt := s.seenAt.insertIfNew (toLex (author, round)) h
    detectedEquivocations := s.detectedEquivocations ++ conflict s.seenAt author round h }

/-- A block under `h` that is not the one its certificate commits to is dropped. -/
def evictBlock (blocks : ExtTreeMap CertHash BlockPayload) (h : CertHash) (payloadDigest : Bytes32) :
    ExtTreeMap CertHash BlockPayload :=
  if (blocks[h]?).any fun block => block.payloadDigest ≠ payloadDigest then blocks.erase h
  else blocks

/-- The effects of a certificate that the store has taken, which makes it `dag`. -/
def onInserted (s : State) (cert : Certificate) (h : CertHash) (dag : DagStore) : State :=
  noteSeen { s with
    dag := dag
    blocks := evictBlock s.blocks h cert.payloadDigest
    maxObservedRound := max s.maxObservedRound cert.round
    inflightFetches := s.inflightFetches.erase h
    committee := s.committee.promote cert.author
    reshapes := s.reshapes ++ [.promote cert.author]
    orphans := s.orphans.erase h
    insertions := s.insertions ++ [⟨h, cert.author, s.committee.pendingStake[cert.author]?,
      s.seenAt[toLex (cert.author, cert.round)]?⟩] } cert.author cert.round h

def maxOrphanCerts : Nat := 4096

def orphanCount (orphans : ExtTreeMap CertHash (List Certificate)) : Nat :=
  (orphans.toList.map fun e => e.2.length).sum

/-- Buffer a certificate under its missing parent, unless the buffer is full. -/
def bufferOrphan (s : State) (cert : Certificate) (missing : CertHash) : State :=
  if maxOrphanCerts ≤ orphanCount s.orphans then s
  else { s with
    orphans := s.orphans.insert missing (s.orphans[missing]?.getD [] ++ [cert])
    inflightFetches := insert missing s.inflightFetches }

structure IngestedCert where
  hash : CertHash
  round : Round
deriving DecidableEq

/-- The variables of the ingest loop; the head of `work` is what `pop` takes next. -/
structure Ingest where
  state : State
  work : List Certificate
  inserted : List IngestedCert

/-- One turn of the loop, for the certificate that was popped. -/
def ingestStep (cert : Certificate) (i : Ingest) : Ingest :=
  let s := i.state
  if !authored C s.committee.authorityRegistry cert then i
  else
    match s.dag.insert C.blake3 cert with
    | .ok (h, dag) =>
      let unblocked := s.orphans[h]?.getD []
      { state := onInserted s cert h dag
        work := unblocked.reverse ++ i.work
        inserted := i.inserted ++ [⟨h, cert.round⟩] }
    | .error (.unknownParent missing) => { i with state := bufferOrphan s cert missing }
    | .error _ => i

def ingestLoop : Nat → Ingest → Ingest
  | 0, i => i
  | fuel + 1, i =>
    match i.work with
    | [] => i
    | cert :: work => ingestLoop fuel (ingestStep C cert { i with work })

/-- Every turn takes a certificate out of the loop or moves it to the buffer. -/
def ingestFuel (s : State) : Nat := (orphanCount s.orphans + 2) * (orphanCount s.orphans + 2)

/-! The fuel is enough: the certificates in the loop and in the buffer together never grow in number,
    and when none of them leaves, one has moved from the loop to the buffer. -/

theorem orphanCount_erase (orphans : ExtTreeMap CertHash (List Certificate)) (h : CertHash) :
    orphanCount (orphans.erase h) + (orphans[h]?.getD []).length = orphanCount orphans := by
  unfold orphanCount
  cases hget : orphans[h]? with
  | none =>
    simp [MapSum.erase_eq_self hget]
  | some cs =>
    have hsum := ((MapSum.toList_perm_cons_erase hget).map fun e => e.2.length).sum_eq
    simp only [List.map_cons, List.sum_cons] at hsum
    simp only [Option.getD_some]
    omega

theorem orphanCount_bufferOrphan_le (s : State) (cert : Certificate) (missing : CertHash) :
    orphanCount (bufferOrphan s cert missing).orphans ≤ orphanCount s.orphans + 1 := by
  unfold bufferOrphan
  split
  · omega
  · have hsum := ((MapSum.toList_insert_perm s.orphans missing
      (s.orphans[missing]?.getD [] ++ [cert])).map fun e => e.2.length).sum_eq
    simp only [List.map_cons, List.sum_cons, List.length_append, List.length_singleton] at hsum
    have herase := orphanCount_erase s.orphans missing
    show orphanCount (s.orphans.insert missing (s.orphans[missing]?.getD [] ++ [cert])) ≤ _
    unfold orphanCount at herase ⊢
    omega

/-- Everything the loop can still come to. -/
def Ingest.load (i : Ingest) : Nat := i.work.length + orphanCount i.state.orphans

/-- One turn: the load falls, or it stays and the work list is shorter. -/
theorem ingestStep_load (cert : Certificate) (i : Ingest) :
    (ingestStep C cert i).load ≤ i.load ∨
      (ingestStep C cert i).load ≤ i.load + 1 ∧ (ingestStep C cert i).work = i.work := by
  unfold ingestStep
  dsimp only
  split
  · exact .inl le_rfl
  · split
    · next h dag hins =>
      left
      have herase := orphanCount_erase i.state.orphans h
      have horphans : (onInserted i.state cert h dag).orphans = i.state.orphans.erase h := rfl
      simp only [Ingest.load, List.length_append, List.length_reverse, horphans]
      omega
    · next missing hins =>
      right
      have := orphanCount_bufferOrphan_le i.state cert missing
      exact ⟨by simp only [Ingest.load]; omega, rfl⟩
    · exact .inl le_rfl

/-- **The fuel is enough**: the loop ends because its work list is empty. -/
theorem ingestLoop_work (bound : Nat) : ∀ (fuel : Nat) (i : Ingest), i.load ≤ bound →
    i.load * (bound + 1) + i.work.length ≤ fuel → (ingestLoop C fuel i).work = [] := by
  intro fuel
  induction fuel with
  | zero =>
    intro i _ hfuel
    exact List.eq_nil_of_length_eq_zero (by rw [ingestLoop]; omega)
  | succ fuel ih =>
    intro i hbound hfuel
    rw [ingestLoop]
    split
    · next hwork => exact hwork
    · next cert work hwork =>
      have hload : i.load = work.length + 1 + orphanCount i.state.orphans := by
        rw [Ingest.load, hwork, List.length_cons]
      have hpop : Ingest.load { i with work } = work.length + orphanCount i.state.orphans := rfl
      rw [hwork, List.length_cons] at hfuel
      rcases ingestStep_load C cert { i with work } with hle | ⟨hle, hsame⟩
      · have hlt : (ingestStep C cert { i with work }).load + 1 ≤ i.load := by omega
        have hmul := Nat.mul_le_mul_right (bound + 1) hlt
        have hwork' : (ingestStep C cert { i with work }).work.length ≤
            (ingestStep C cert { i with work }).load := Nat.le_add_right _ _
        refine ih _ (by omega) ?_
        rw [Nat.add_mul, one_mul] at hmul
        omega
      · have hmul : (ingestStep C cert { i with work }).load * (bound + 1) ≤
            i.load * (bound + 1) := Nat.mul_le_mul_right _ (by omega)
        refine ih _ (by omega) ?_
        rw [hsame]
        show _ + work.length ≤ fuel
        omega

/-- `ingest_cert`: the state, and what went into the store. -/
def ingestCert (s : State) (cert : Certificate) : State × List IngestedCert :=
  let out := ingestLoop C (ingestFuel s) ⟨s, [cert], []⟩
  (out.state, out.inserted)

/-- The first turn is for the certificate itself. -/
theorem ingestCert_eq (s : State) (cert : Certificate) : ∃ fuel,
    ingestCert C s cert = ((ingestLoop C fuel (ingestStep C cert ⟨s, [], []⟩)).state,
      (ingestLoop C fuel (ingestStep C cert ⟨s, [], []⟩)).inserted) := by
  have hpos : 1 * 1 ≤ ingestFuel s := Nat.mul_le_mul (Nat.le_add_left _ _) (Nat.le_add_left _ _)
  refine ⟨ingestFuel s - 1, ?_⟩
  rw [ingestCert, show ingestFuel s = ingestFuel s - 1 + 1 by omega]
  rfl

theorem ingestCert_work (s : State) (cert : Certificate) :
    (ingestLoop C (ingestFuel s) ⟨s, [cert], []⟩).work = [] := by
  apply ingestLoop_work C (orphanCount s.orphans + 1)
  · simp only [Ingest.load, List.length_singleton]
    omega
  · simp only [Ingest.load, List.length_singleton, ingestFuel]
    ring_nf
    omega

/-- More fuel changes nothing once the work list is empty. -/
theorem ingestLoop_add {fuel : Nat} (more : Nat) : ∀ {i : Ingest}, (ingestLoop C fuel i).work = [] →
    ingestLoop C (fuel + more) i = ingestLoop C fuel i := by
  induction fuel with
  | zero =>
    intro i hwork
    have hnil : i.work = [] := hwork
    cases more with
    | zero => rfl
    | succ more =>
      show ingestLoop C (0 + (more + 1)) i = i
      rw [Nat.zero_add, ingestLoop, hnil]
  | succ fuel ih =>
    intro i hwork
    rw [Nat.succ_add, ingestLoop, ingestLoop]
    rw [ingestLoop] at hwork
    split at hwork
    · rfl
    · exact ih hwork

/-- **The orphan cascade ends**: whatever is buffered, the loop has nothing left to do after
    `(orphans + 2)²` turns, and more turns change nothing. -/
theorem ingestCert_ends (s : State) (cert : Certificate) (more : Nat) :
    let out := ingestLoop C (ingestFuel s + more) ⟨s, [cert], []⟩
    out.work = [] ∧ (out.state, out.inserted) = ingestCert C s cert := by
  intro out
  have hwork := ingestCert_work C s cert
  have hout : out = ingestLoop C (ingestFuel s) ⟨s, [cert], []⟩ := ingestLoop_add C more hwork
  rw [hout]
  exact ⟨hwork, rfl⟩

/-! ## Commit -/

/-- The governance intents of a block with their envelopes, looked up by index. -/
def governanceOf (intents : List Intent) (governanceAuth : List (UInt32 × GovAuth)) :
    List (Intent × Option GovAuth) :=
  intents.zipIdx.filterMap fun e =>
    if isGovernanceIntent e.1 then
      some (e.1, (governanceAuth.find? fun a => a.1.toNat = e.2).map Prod.snd)
    else none

/-- Apply the queued governance intents one after the other, with the calls made. -/
def drainQueue (networkId : List UInt8) :
    List (Intent × Option GovAuth) → Committee → Committee × List Drain
  | [], committee => (committee, [])
  | (intent, auth) :: queued, committee =>
    let out := drainQueue networkId queued
      (committee.applyGovernanceIntent C networkId intent auth)
    (out.1, ⟨intent, auth, committee⟩ :: out.2)

/-- The epoch boundary: a commit in a later epoch drains the queue. -/
def crossBoundary (s : State) (round : Round) : State :=
  if s.epoch.boundaryCrossedBy round then
    let out := drainQueue C s.networkId s.pendingGovernance s.committee
    { s with
      epoch := { s.epoch with current := s.epoch.epochFor round, lastBoundaryRound := round }
      pendingGovernance := []
      committee := out.1
      drains := s.drains ++ out.2
      reshapes := s.reshapes ++ s.pendingGovernance.map fun q => .govern q.1 q.2 }
  else s

/-- The explorer's index from an intent to its block. -/
def indexIntents (index : ExtTreeMap Bytes32 (Round × CertHash × Nat)) (h : CertHash) (round : Round)
    (intents : List Intent) : ExtTreeMap Bytes32 (Round × CertHash × Nat) :=
  intents.zipIdx.foldl (fun index e => index.insert (intentHash C.blake3 e.1) (round, h, e.2)) index

/-- Claim, execute, index and queue one certificate. -/
def executeCert (s : State) (h : CertHash) (cert : Certificate) (block : BlockPayload) : State :=
  let run := executeBlock C.blake3 ⟨cert.round, block.intents⟩ s.substrate
  crossBoundary C { s with
    committed := s.committed ++ [h]
    neededBlocks := s.neededBlocks.erase h
    substrate := run.2
    latestBridgeHeader := some (run.1.round, run.1.postRoot)
    blocksByRound := s.blocksByRound.insert cert.round h
    txToBlock := indexIntents C s.txToBlock h cert.round block.intents
    pendingGovernance := s.pendingGovernance ++ governanceOf block.intents block.governanceAuth
    votes := s.votes.erase h
    executions := s.executions ++
      [⟨h, cert.round, block.intents, block.governanceAuth, s.substrate⟩] } cert.round

/-- The stored block of `h`, if it is the one the certificate commits to. -/
def matchingBlock (s : State) (h : CertHash) (cert : Certificate) : Option BlockPayload :=
  (s.blocks[h]?).filter fun block => block.payloadDigest = cert.payloadDigest

/-- The inner loop, over the causal history of a leader.  `false` stops the whole walk.  (The
    source checks its claim once more behind the block; between two atomic steps it cannot fail.) -/
def commitHistory : List CertHash → State → State × Bool
  | [], s => (s, true)
  | h :: history, s =>
    if h ∈ s.committed then commitHistory history s
    else
      match s.dag.get h with
      | none => commitHistory history s
      | some cert =>
        match matchingBlock s h cert with
        | none => ({ s with neededBlocks := insert h s.neededBlocks }, false)
        | some block => commitHistory history (executeCert C s h cert block)

/-- The outer loop, over the candidate rounds; `votes` and `n` are read once, before it. -/
def commitWalk (votes : List Vote) (n : CommitteeSize) : List Round → State → State
  | [], s => s
  | round :: rounds, s =>
    match decideSlot s.dag round n with
    | .direct leaderHash =>
      if leaderHash ∈ s.committed then commitWalk votes n rounds s
      else if !validatorQuorumMet s.committee.stakeTable leaderHash votes then s
      else
        match commitHistory C (causalHistory s.dag leaderHash) s with
        | (s, true) => commitWalk votes n rounds s
        | (s, false) => s
    | _ => commitWalk votes n rounds s

/-- The equivocation queue: every proven author is unseated. -/
def ejectEquivocators (s : State) : State :=
  { s with
    committee := s.detectedEquivocations.foldl (fun c proof => c.unseat proof.author) s.committee
    reshapes := s.reshapes ++ s.detectedEquivocations.map fun proof => .eject proof.author
    detectedEquivocations := [] }

/-- `votes.values().flatten()`. -/
def votesFlat (s : State) : List Vote := s.votes.toList.flatMap Prod.snd

/-- `try_commit`. -/
def tryCommit (s : State) : State :=
  ejectEquivocators (commitWalk C (votesFlat s) s.committee.nAuthorities s.dag.rounds s)

/-! ## The inbox -/

inductive WireMessage where
  | cert (cert : Certificate)
  | block (block : BlockPayload)
  | vote (vote : Vote)

def pushVote (s : State) (vote : Vote) : State :=
  { s with votes := s.votes.insert vote.candidate (s.votes[vote.candidate]?.getD [] ++ [vote]) }

/-- A seated node votes for every certificate it has taken in. -/
def voteFor (s : State) (inserted : List IngestedCert) : State :=
  if s.selfId ∈ s.committee.authorityRegistry then
    inserted.foldl (fun s ic => pushVote s ⟨s.selfId, ic.hash⟩) s
  else s

/-- A block is bound to its certificate if that is known, and stored first come first served if it
    is not. -/
def storeBlock (s : State) (block : BlockPayload) : State :=
  { s with
    blocks :=
      if !blockPayloadIsConsistent C.blake3 block then s.blocks
      else
        match s.dag.get block.certHash with
        | some cert =>
          if cert.payloadDigest = block.payloadDigest then s.blocks.insert block.certHash block
          else s.blocks
        | none => s.blocks.insertIfNew block.certHash block }

/-- One message of `run_inbox`.  A dynamic peer may deliver certificates only. -/
def receive (isDynamic : Bool) (msg : WireMessage) (s : State) : State :=
  match msg with
  | .cert cert =>
    let out := ingestCert C s cert
    tryCommit C (voteFor out.1 out.2)
  | .block block => if isDynamic then s else storeBlock C s block
  | .vote vote => if isDynamic then s else tryCommit C (pushVote s vote)

/-! ## The round driver -/

/-- The committee indices `0 .. n-1`. -/
def indices (n : UInt32) : List AuthorityId := (List.range n.toNat).map UInt32.ofNat

def distinctAuthorsAt (dag : DagStore) (round : Round) (n : UInt32) : UInt32 :=
  UInt32.ofNat ((indices n).filter fun a => (certAt dag round a).isSome).length

def parentsForRound (dag : DagStore) (round : Round) (n : UInt32) : List CertHash :=
  if round = 0 then [] else (indices n).filterMap fun a => certAt dag (round - 1) a

/-- `f + 1`. -/
def fPlusOne (n : UInt32) : UInt32 := (n - 1) / 3 + 1

def targetRound (s : State) : Round :=
  match s.lastAuthoredRound with
  | some r => r + 1
  | none => 0

/-- A node goes on to its next round with a quorum of the last one, or with `f + 1` of it when the
    leader timeout has passed. -/
def mayPropose (s : State) (timedOut : Bool) : Bool :=
  match s.lastAuthoredRound with
  | none => true
  | some _ =>
    let n := s.committee.nAuthorities
    let target := targetRound s
    let parents := distinctAuthorsAt s.dag (if target = 0 then 0 else target - 1) n
    quorumThreshold n ≤ parents || (fPlusOne n ≤ parents && timedOut)

/-- Take the retained envelope of each governance intent. -/
def attachEnvelopes (envelopes : ExtTreeMap Bytes32 GovAuth) :
    List (Intent × Nat) → List (UInt32 × GovAuth) × ExtTreeMap Bytes32 GovAuth
  | [] => ([], envelopes)
  | (intent, idx) :: rest =>
    let hash := intentHash C.blake3 intent
    match (if isGovernanceIntent intent then envelopes[hash]? else none) with
    | some auth =>
      let out := attachEnvelopes (envelopes.erase hash) rest
      ((UInt32.ofNat idx, auth) :: out.1, out.2)
    | none => attachEnvelopes envelopes rest

def maxIntentsPerBlock : Nat := 4096

/-- What the driver puts together outside the locks. -/
structure Draft where
  cert : Certificate
  hash : CertHash
  block : BlockPayload
  mempool : Mempool
  envelopes : ExtTreeMap Bytes32 GovAuth

/-- Drain the mempool, attach the envelopes, digest and sign; the bytes of the signature are an
    argument. -/
def draft (s : State) (signature : List UInt8) : Draft :=
  let round := targetRound s
  let drained := s.mempool.drainForBlock maxIntentsPerBlock
  let attached := attachEnvelopes C s.governanceEnvelopes drained.1.zipIdx
  let digest := computePayloadDigest C.blake3 drained.1 attached.1
  let cert : Certificate :=
    ⟨s.selfId, round, parentsForRound s.dag round s.committee.nAuthorities, digest, signature⟩
  let h := cert.hash C.blake3
  { cert := cert
    hash := h
    block := ⟨digest, s.selfId, round, h, drained.1, attached.1⟩
    mempool := drained.2
    envelopes := attached.2 }

/-- Record a draft: the markers, the indices, the first-seen table, the store and the block. -/
def publish (s : State) (d : Draft) : State :=
  { s with
    mempool := d.mempool
    governanceEnvelopes := d.envelopes
    lastAuthoredRound := some d.cert.round
    maxObservedRound := max s.maxObservedRound d.cert.round
    blocksByRound := s.blocksByRound.insert d.cert.round d.hash
    txToBlock := indexIntents C s.txToBlock d.hash d.cert.round d.block.intents
    seenAt := s.seenAt.insertIfNew (toLex (s.selfId, d.cert.round)) d.hash
    detectedEquivocations :=
      s.detectedEquivocations ++ conflict s.seenAt s.selfId d.cert.round d.hash
    -- the result of the insertion is ignored
    dag := match s.dag.insert C.blake3 d.cert with
      | .ok (_, dag) => dag
      | .error _ => s.dag
    blocks := s.blocks.insert d.hash d.block
    -- the driver promotes nobody
    insertions := s.insertions ++
      [⟨d.hash, s.selfId, none, s.seenAt[toLex (s.selfId, d.cert.round)]?⟩]
    proposals := s.proposals ++ [(d.cert, d.block)] }

theorem dag_publish_cases (s : State) (d : Draft) :
    (∃ h, s.dag.insert C.blake3 d.cert = .ok (h, (publish C s d).dag)) ∨
      (publish C s d).dag = s.dag := by
  unfold publish
  cases hins : s.dag.insert C.blake3 d.cert with
  | ok out => exact .inl ⟨out.1, rfl⟩
  | error e => exact .inr rfl

/-- One tick of the round driver: the state, and the certificate and block it broadcasts.  Whether
    the leader timeout has passed is an argument. -/
def authorRound (s : State) (timedOut : Bool) (signature : List UInt8) :
    State × Option (Certificate × BlockPayload) :=
  if s.selfId ∉ s.committee.authorityRegistry then (s, none)
  else if !mayPropose s timedOut then (s, none)
  else
    let d := draft C s signature
    (publish C s d, some (d.cert, d.block))

end Program

end SuwappuDag.Node
