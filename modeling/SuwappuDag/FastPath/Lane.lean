/-
  THE FAST-PATH LANE OF A NODE (`daemon.rs`: `propose_fastpath_tx`, `handle_fastpath_cert`; the crate
  `suwappu-fastpath`).

  A node keeps, per `(object, nonce)`, the partial certificate that it accumulates, the first payload
  digest that it has seen, and whether it has committed.  Either entry point is ONE critical section,
  and answers with the events it logs and the partial certificates it broadcasts.
-/
import SuwappuDag.Consensus.Commit

namespace SuwappuDag.FastPath

open Words Consensus
open Std (ExtTreeMap)

structure FastPathTx where
  object : Bytes32
  owner : Bytes32
  nonce : UInt64
  lineage : CertHash
  lineageRound : Round
  payloadDigest : Bytes32
deriving DecidableEq

@[ext] structure FastPathCert where
  tx : FastPathTx
  signers : Finset AuthorityId

-- by the iff: what a derived instance does with equal sets does not reduce
instance : DecidableEq FastPathCert := fun _ _ => decidable_of_iff _ FastPathCert.ext_iff.symm

/-- A transfer that the main lane has committed. -/
structure MainLaneTx where
  round : Round
  object : Bytes32
  payloadDigest : Bytes32
  lineage : CertHash

abbrev FastPathKey := Bytes32 ×ₗ UInt64

def fastpathKey (tx : FastPathTx) : FastPathKey := toLex (tx.object, tx.nonce)

/-- `q = n − ⌊(n−1)/3⌋`, as on the main lane. -/
def fastPathQuorumSize (n : CommitteeSize) : UInt32 := if n = 0 then 1 else n - (n - 1) / 3

def fastPathConfirmationK : Round := 4

/-- No transfer of the object with another digest in the `K` rounds behind the lineage. -/
def isMainLaneConsistent (cert : FastPathCert) (mainLane : List MainLaneTx) : Bool :=
  let lo := cert.tx.lineageRound + 1
  let hi := cert.tx.lineageRound + fastPathConfirmationK
  mainLane.all fun ml => ml.round < lo || hi < ml.round ||
    !(ml.object = cert.tx.object && ml.payloadDigest ≠ cert.tx.payloadDigest)

/-- The fields of a node's state that the lane reads and writes. -/
structure Lane where
  nAuthorities : CommitteeSize
  pending : ExtTreeMap FastPathKey FastPathCert
  committed : Finset FastPathKey
  firstPayload : ExtTreeMap FastPathKey Bytes32
  mainLaneIndex : List MainLaneTx

inductive EventKind where
  | proposed
  | received
  | signed
  | slashed
  | committed
deriving DecidableEq

/-- A line of the event log; the key is that of the transaction it is about. -/
structure FastPathEvent where
  kind : EventKind
  key : FastPathKey
  certHash : Bytes32
  round : Round
deriving DecidableEq

/-- What a call leaves, logs and broadcasts. -/
structure Reaction where
  lane : Lane
  events : List FastPathEvent
  sent : List FastPathCert

def event (kind : EventKind) (tx : FastPathTx) : FastPathEvent :=
  ⟨kind, fastpathKey tx, tx.payloadDigest, tx.lineageRound⟩

/-- With a quorum of signers the entry is committed; until then it stays pending. -/
def settle (s : Lane) (key : FastPathKey) (entry : FastPathCert) : Lane :=
  if fastPathQuorumSize s.nAuthorities ≤ UInt32.ofNat entry.signers.card then
    { s with pending := s.pending.erase key, committed := insert key s.committed }
  else { s with pending := s.pending.insert key entry }

/-- The event of a commit of `tx` with these signers. -/
def commitEvents (s : Lane) (tx : FastPathTx) (signers : Finset AuthorityId) : List FastPathEvent :=
  if fastPathQuorumSize s.nAuthorities ≤ UInt32.ofNat signers.card then [event .committed tx] else []

/-- `propose_fastpath_tx`.  The first digest stays if there is one; the pending entry does not. -/
def proposeFastpathTx (selfId : AuthorityId) (tx : FastPathTx) (s : Lane) : Reaction :=
  let key := fastpathKey tx
  if key ∈ s.committed then ⟨s, [], []⟩
  else
    let cert : FastPathCert := ⟨tx, {selfId}⟩
    let s := { s with firstPayload := s.firstPayload.insertIfNew key tx.payloadDigest }
    ⟨settle s key cert, event .proposed tx :: commitEvents s tx cert.signers, [cert]⟩

/-- The signers of a certificate join the pending ones; the node signs and broadcasts if it had not. -/
def accumulate (selfId : AuthorityId) (cert : FastPathCert) (s : Lane) : Reaction :=
  let key := fastpathKey cert.tx
  let entry := s.pending[key]?.getD ⟨cert.tx, ∅⟩
  let merged := entry.signers ∪ cert.signers
  let signers := if selfId ∈ entry.signers then merged else insert selfId merged
  { lane := settle s key ⟨entry.tx, signers⟩
    events := (if entry.signers.card = 0 then [event .received cert.tx] else []) ++
      (if selfId ∈ entry.signers then [] else [event .signed cert.tx]) ++
      commitEvents s cert.tx signers
    sent := if selfId ∈ entry.signers then [] else [⟨cert.tx, signers⟩] }

/-- The part of the main-lane index that binds a certificate. -/
def bindingWindow (cert : FastPathCert) (index : List MainLaneTx) : List MainLaneTx :=
  index.filter fun ml => cert.tx.lineageRound < ml.round ∧
    ml.round ≤ cert.tx.lineageRound + fastPathConfirmationK

/-- `handle_fastpath_cert`. -/
def handleFastpathCert (selfId : AuthorityId) (cert : FastPathCert) (s : Lane) : Reaction :=
  let key := fastpathKey cert.tx
  if ∃ signer ∈ cert.signers, s.nAuthorities ≤ signer then ⟨s, [], []⟩
  else if s.firstPayload[key]?.any (· ≠ cert.tx.payloadDigest) then
    ⟨s, [event .slashed cert.tx], []⟩
  else
    let s := { s with firstPayload := s.firstPayload.insertIfNew key cert.tx.payloadDigest }
    if !isMainLaneConsistent cert (bindingWindow cert s.mainLaneIndex) then
      ⟨s, [event .slashed cert.tx], []⟩
    else if key ∈ s.committed then ⟨s, [], []⟩
    else accumulate selfId cert s

/-! ## The binding window

    The window is tested in three places, with sums that wrap. -/

/-- The certificate whose signers are accused, and the transfer that convicts them. -/
structure FastPathEquivocationProof where
  cert : FastPathCert
  conflictingTx : MainLaneTx

def detectFastPathEquivocation (cert : FastPathCert) :
    List MainLaneTx → Option FastPathEquivocationProof
  | [] => none
  | ml :: mainLane =>
    if ml.round < cert.tx.lineageRound + 1 ∨
        cert.tx.lineageRound + fastPathConfirmationK < ml.round then
      detectFastPathEquivocation cert mainLane
    else if ml.object = cert.tx.object ∧ ml.payloadDigest ≠ cert.tx.payloadDigest then
      some ⟨cert, ml⟩
    else detectFastPathEquivocation cert mainLane

/-- The round lies in `(R, R + 4]`, as integers. -/
def InWindow (cert : FastPathCert) (ml : MainLaneTx) : Prop :=
  cert.tx.lineageRound.toNat < ml.round.toNat ∧ ml.round.toNat ≤ cert.tx.lineageRound.toNat + 4
deriving Decidable

/-- A transfer of the object with another digest in these rounds. -/
def Convicts (cert : FastPathCert) (ml : MainLaneTx) : Prop :=
  InWindow cert ml ∧ ml.object = cert.tx.object ∧ ml.payloadDigest ≠ cert.tx.payloadDigest
deriving Decidable

section Window

variable {cert : FastPathCert} (hfits : cert.tx.lineageRound.toNat + 4 < 2 ^ 64)

include hfits

/-- The tests are exact while the upper bound does not wrap. -/
theorem window_iff (ml : MainLaneTx) :
    ((ml.round < cert.tx.lineageRound + 1 ∨
      cert.tx.lineageRound + fastPathConfirmationK < ml.round) ↔ ¬ InWindow cert ml) ∧
    ((cert.tx.lineageRound < ml.round ∧
      ml.round ≤ cert.tx.lineageRound + fastPathConfirmationK) ↔ InWindow cert ml) := by
  have hone : (1 : UInt64).toNat = 1 := rfl
  have hfour : fastPathConfirmationK.toNat = 4 := rfl
  simp only [UInt64.lt_iff_toNat_lt, UInt64.le_iff_toNat_le, UInt64.toNat_add, hone, hfour, InWindow]
  omega

theorem isMainLaneConsistent_eq_all (mainLane : List MainLaneTx) :
    isMainLaneConsistent cert mainLane = mainLane.all fun ml => ¬ Convicts cert ml := by
  refine congrArg mainLane.all (funext fun ml => ?_)
  have hout := (window_iff hfits ml).1
  rw [Bool.eq_iff_iff]
  simp only [Bool.or_eq_true, decide_eq_true_eq, hout, Convicts]
  by_cases hin : InWindow cert ml <;> simp [hin]

theorem detectFastPathEquivocation_eq_find (mainLane : List MainLaneTx) :
    detectFastPathEquivocation cert mainLane =
      (mainLane.find? fun ml => Convicts cert ml).map (FastPathEquivocationProof.mk cert) := by
  induction mainLane with
  | nil => rfl
  | cons ml mainLane ih =>
    rw [detectFastPathEquivocation, ih]
    simp only [(window_iff hfits ml).1]
    by_cases hin : InWindow cert ml <;>
      by_cases hother : ml.object = cert.tx.object ∧ ml.payloadDigest ≠ cert.tx.payloadDigest <;>
        simp [hin, hother, Convicts]

end Window

/-- A certificate of lineage round `R` for object 1. -/
def lateCert (R : Round) : FastPathCert := ⟨⟨1, 0, 0, 0, R, 5⟩, ∅⟩

end SuwappuDag.FastPath
