/-
  INGRESS: how intents get into a node (`suwappu-node/src/client.rs`, `handle_conn`; and
  `rpc_adapter.rs`, `submit_intent`), and the runs of a node.

  1. **Wires** — the TCP wire takes single, batched and governed submissions, the JSON-RPC wire single
     ones.  Every path ends in `admitIntent`, the one call of `mempool.submit`.
  2. **Batches** — all signatures are checked before the first intent is submitted; a submission that
     the mempool refuses ends the batch, and what went in before it stays.
  3. **Actions** — everything that can happen to a node, and its runs.  The clock, the rate limiter,
     the codec's reading of RPC bytes and the bytes of signatures are arguments of the actions.
-/
import SuwappuDag.Node.Daemon

namespace SuwappuDag.Node

open Words Consensus Execution
open Std (ExtTreeMap)

/-! ## Texts -/

/-- `[b0, b1, …]`, the debug form of a byte array. -/
def debugBytes (h : Bytes32) : String :=
  "[" ++ ", ".intercalate ((beBytes 32 h.toNat).map fun b => toString b.toNat) ++ "]"

def MempoolError.text : MempoolError → String
  | .rateLimited retry => "rate limited: retry in " ++ toString retry.toNat ++ " ms"
  | .duplicateIntent hash => "duplicate intent: " ++ debugBytes hash ++ " already queued"
  | .belowFloor given floor capacity => "priority " ++ toString given.toNat ++ " below floor "
      ++ toString floor.toNat ++ ": mempool at capacity " ++ toString capacity

/-- What the TCP wire answers to a failed check; `batch` is appended to a bad signature. -/
def AuthOutcome.text (batch : String) : AuthOutcome → Option String
  | .ok => none
  | .unknownSigner => some "auth: unknown signer (pubkey hash not in Authority Ring)"
  | .badSignature => some ("auth: bad ML-DSA-65 signature" ++ batch)
  | .governanceRequiresCoSignature =>
    some "auth: governance intents require dual signatures (SubmitGoverned)"

/-! ## The two wires -/

inductive ClientMessage where
  | submit (intent : Intent) (signature : List UInt8) (signerPubkeyHash : Bytes32)
  | submitBatch (intents : List Intent) (signatures : List (List UInt8)) (signerPubkeyHash : Bytes32)
  | ping (n : UInt64)
  | submitGoverned (intent : Intent) (auth : GovAuth)

inductive ClientResponse where
  | ack (intentHash : Bytes32)
  | ackBatch (intentHashes : List Bytes32)
  | err (text : String)
  | pong (n : UInt64)
deriving DecidableEq

inductive SubmitIntentError where
  | badIntentEncoding (text : String)
  | unknownSigner
  | badSignature
  | governanceRequiresCoSignature
  | enqueueFull
deriving DecidableEq

/-- The answers of the peer's bucket and of the clock to the submissions of one message. -/
structure Ambient where
  limited : Nat → Option UInt64
  nowMs : Nat → UInt64

section Program

variable (C : Crypto)

/-- `mempool.submit` at the default priority. -/
def admitIntent (s : State) (intent : Intent) (limited : Option UInt64) (nowMs : UInt64) :
    Except MempoolError IntentHash × State :=
  let out := s.mempool.submit C.blake3 intent 0 limited nowMs
  (out.1, { s with
    mempool := out.2
    accepted := s.accepted ++ if out.1.isOk then [intent] else [] })

/-- `remember_governance_envelope`: a full store drops the new envelope. -/
def rememberGovernanceEnvelope (s : State) (intentHash : Bytes32) (auth : GovAuth) : State :=
  { s with
    governanceEnvelopes :=
      if 4096 ≤ s.governanceEnvelopes.size ∧ intentHash ∉ s.governanceEnvelopes then
        s.governanceEnvelopes
      else s.governanceEnvelopes.insert intentHash auth }

/-- The first check of a batch that fails, with its answer. -/
def refuseBatch (s : State) (signerPubkeyHash : Bytes32) : List (Intent × List UInt8) → Option String
  | [] => none
  | (intent, signature) :: rest =>
    match (verifySignedIntent C s.committee.authorityRegistry s.networkId intent signature
        signerPubkeyHash).text " in batch" with
    | some text => some text
    | none => refuseBatch s signerPubkeyHash rest

/-- Submit the intents of a batch one by one, up to the first refusal. -/
def submitAll (ambient : Ambient) : Nat → List Intent → List Bytes32 → State → State × ClientResponse
  | _, [], hashes, s => (s, .ackBatch hashes)
  | k, intent :: intents, hashes, s =>
    match admitIntent C s intent (ambient.limited k) (ambient.nowMs k) with
    | (.ok _, s) => submitAll ambient (k + 1) intents (hashes ++ [intentHash C.blake3 intent]) s
    | (.error e, s) => (s, .err ("mempool (mid-batch): " ++ e.text))

/-- Submit one verified intent over TCP. -/
def submitOne (ambient : Ambient) (intent : Intent) (s : State) : State × ClientResponse :=
  match admitIntent C s intent (ambient.limited 0) (ambient.nowMs 0) with
  | (.ok _, s) => (s, .ack (intentHash C.blake3 intent))
  | (.error e, s) => (s, .err ("mempool: " ++ e.text))

/-- One message of `handle_conn`. -/
def handleClient (ambient : Ambient) (msg : ClientMessage) (s : State) : State × ClientResponse :=
  match msg with
  | .submit intent signature signerPubkeyHash =>
    match (verifySignedIntent C s.committee.authorityRegistry s.networkId intent signature
        signerPubkeyHash).text "" with
    | some text => (s, .err text)
    | none => submitOne C ambient intent s
  | .submitBatch intents signatures signerPubkeyHash =>
    if signatures.length ≠ intents.length then
      (s, .err ("auth: batch length mismatch (" ++ toString intents.length ++ " intents vs "
        ++ toString signatures.length ++ " signatures)"))
    else
      match refuseBatch C s signerPubkeyHash (intents.zip signatures) with
      | some text => (s, .err text)
      | none => submitAll C ambient 0 intents [] s
  | .submitGoverned intent auth =>
    match verifyGovernedIntent C s.committee.authorityRegistry s.networkId intent auth with
    | .error text => (s, .err text)
    | .ok _ =>
      submitOne C ambient intent (rememberGovernanceEnvelope s (intentHash C.blake3 intent) auth)
  | .ping n => (s, .pong n)

/-- `submit_intent` of the JSON-RPC adapter; `decoded` is the codec's reading of the bytes.  The hash
    returned is that of the bytes as they came. -/
def submitIntent (intentBincode : List UInt8) (decoded : Except String Intent)
    (signature : List UInt8) (signerPubkeyHash : Bytes32) (nowMs : UInt64) (s : State) :
    State × Except SubmitIntentError Bytes32 :=
  match decoded with
  | .error text => (s, .error (.badIntentEncoding text))
  | .ok intent =>
    match verifySignedIntent C s.committee.authorityRegistry s.networkId intent signature
        signerPubkeyHash with
    | .unknownSigner => (s, .error .unknownSigner)
    | .badSignature => (s, .error .badSignature)
    | .governanceRequiresCoSignature => (s, .error .governanceRequiresCoSignature)
    | .ok =>
      match admitIntent C s intent none nowMs with
      | (.ok _, s) => (s, .ok (C.blake3 intentBincode))
      | (.error _, s) => (s, .error .enqueueFull)

/-! ## Runs of a node -/

/-- Everything that can happen to a node. -/
inductive Action where
  | receive (isDynamic : Bool) (msg : WireMessage)
  | commit
  | tick (timedOut : Bool) (signature : List UInt8)
  | client (ambient : Ambient) (msg : ClientMessage)
  | rpc (intentBincode : List UInt8) (decoded : Except String Intent) (signature : List UInt8)
      (signerPubkeyHash : Bytes32) (nowMs : UInt64)

def Action.exec (action : Action) (s : State) : State :=
  match action with
  | .receive isDynamic msg => Node.receive C isDynamic msg s
  | .commit => tryCommit C s
  | .tick timedOut signature => (authorRound C s timedOut signature).1
  | .client ambient msg => (handleClient C ambient msg s).1
  | .rpc intentBincode decoded signature signerPubkeyHash nowMs =>
    (submitIntent C intentBincode decoded signature signerPubkeyHash nowMs s).1

/-- The state after a sequence of actions. -/
def runActions (actions : List Action) (s : State) : State :=
  actions.foldl (fun s action => action.exec C s) s

end Program

end SuwappuDag.Node
