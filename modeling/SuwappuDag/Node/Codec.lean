/-
  BYTES ON THE WIRE (`suwappu-node/src/codec.rs`, `wire.rs`, and the envelope of `client.rs`).

  1. **Bincode** — the node fixes the legacy configuration: integers little-endian at full width,
     an enum as its `u32` variant index, a vector or string as its `u64` length and its elements,
     arrays and tuples as their elements alone.
  2. **Intents** — `encodeIntent` writes the variants in the order of their declaration.
  3. **Digests** — `intentHash` is the content hash under which the mempool, the round driver and the
     explorer know an intent; `computePayloadDigest` binds the intents AND the governance envelopes
     of a block, and is what the author's certificate signs.
-/
import SuwappuDag.Consensus.Dag
import SuwappuDag.Execution.Intent

namespace SuwappuDag.Node

open Words Consensus Execution

/-! ## Bincode, legacy configuration -/

namespace Bincode

/-- The low `k` bytes of `n`, least significant first. -/
def leBytes (k n : Nat) : List UInt8 := (beBytes k n).reverse

def u8 (n : UInt8) : List UInt8 := [n]

def u32 (n : UInt32) : List UInt8 := leBytes 4 n.toNat

def u64 (n : UInt64) : List UInt8 := leBytes 8 n.toNat

def u128 (n : BitVec 128) : List UInt8 := leBytes 16 n.toNat

/-- A byte array: its bytes, without a length. -/
def array (k : Nat) (bytes : BitVec (8 * k)) : List UInt8 := beBytes k bytes.toNat

def seq {α : Type} (put : α → List UInt8) (xs : List α) : List UInt8 :=
  leBytes 8 xs.length ++ xs.flatMap put

def bytes (bs : List UInt8) : List UInt8 := seq u8 bs

def option {α : Type} (put : α → List UInt8) : Option α → List UInt8
  | none => [0]
  | some a => 1 :: put a

def variant (index : Nat) (fields : List (List UInt8)) : List UInt8 :=
  leBytes 4 index ++ fields.flatten

end Bincode

open Bincode

/-! ## Intents -/

def encodeShares (shares : List (Address × Balance)) : List UInt8 :=
  seq (fun share => array 20 share.1 ++ u128 share.2) shares

def encodeRing : Ring → List UInt8
  | .authority => variant 0 []
  | .validator => variant 1 []

def encodeSlashReason : SlashReason → List UInt8
  | .missedForceInclude => variant 0 []
  | .equivocation => variant 1 []
  | .invalidBatch => variant 2 []
  | .downtime => variant 3 []

/-- `codec::encode` of an intent. -/
def encodeIntent : Intent → List UInt8
  | .transfer source dest amount => variant 0 [array 20 source, array 20 dest, u128 amount]
  | .genesisAllocation allocations => variant 1 [encodeShares allocations]
  | .distributeRewards epoch ring recipients =>
    variant 2 [u64 epoch, encodeRing ring, encodeShares recipients]
  | .delegate source validatorId amount => variant 3 [array 20 source, u32 validatorId, u128 amount]
  | .mintInflation epoch a v t => variant 4 [u64 epoch, u128 a, u128 v, u128 t]
  | .admitAuthority id stake mldsa bls => variant 5 [u32 id, u64 stake, bytes mldsa, bytes bls]
  | .exitAuthority id => variant 6 [u32 id]
  | .ejectAuthority id proofRef => variant 7 [u32 id, array 32 proofRef]
  | .admitValidator id stake mldsa bls => variant 8 [u32 id, u64 stake, bytes mldsa, bytes bls]
  | .exitValidator id => variant 9 [u32 id]
  | .ejectValidator id proofRef => variant 10 [u32 id, array 32 proofRef]
  | .commitL2StateRoot batchId root proof inputs vkHash =>
    variant 11 [u64 batchId, array 32 root, bytes proof, bytes inputs, array 32 vkHash]
  | .setL2VerifyingKey chain agg range => variant 12 [array 32 chain, array 32 agg, array 32 range]
  | .l1Lock user l2Recipient amount assetId =>
    variant 13 [array 20 user, array 20 l2Recipient, u128 amount, option (array 32) assetId]
  | .l2BurnProven batchId recipient amount path assetId chain =>
    variant 14 [u64 batchId, array 20 recipient, u128 amount, bytes path, option (array 32) assetId,
      array 32 chain]
  | .l2ForceInclude tx deadline submitter nonce =>
    variant 15 [bytes tx, u64 deadline, array 20 submitter, u64 nonce]
  | .slashSequencer reason hash => variant 16 [encodeSlashReason reason, array 32 hash]
  | .markForceIncludeHonored id => variant 17 [array 32 id]
  | .ejectSequencer id ejector => variant 18 [array 32 id, array 20 ejector]
  | .depositSequencerBond source amount => variant 19 [array 20 source, u128 amount]
  | .depositSafetyBond source amount => variant 20 [array 20 source, u128 amount]
  | .depositAuthorityStake source id amount => variant 21 [array 20 source, u32 id, u128 amount]
  | .depositValidatorStake source id amount => variant 22 [array 20 source, u32 id, u128 amount]
  | .withdrawAuthorityStake dest id amount => variant 23 [array 20 dest, u32 id, u128 amount]
  | .withdrawValidatorStake dest id amount => variant 24 [array 20 dest, u32 id, u128 amount]
  | .disburseTreasury recipient amount tag => variant 25 [array 20 recipient, u128 amount, array 32 tag]
  | .claimInsurance claimant amount ref => variant 26 [array 20 claimant, u128 amount, array 32 ref]
  | .postL2DA batchId blob => variant 27 [u64 batchId, bytes blob]
  | .distributeSlashedFunds event counterparties i t =>
    variant 28 [array 32 event, encodeShares counterparties, u128 i, u128 t]
  | .addBridgeAsset chain contract decimals name symbol =>
    variant 29 [u64 chain, bytes contract, u8 decimals, bytes name, bytes symbol]
  | .pauseBridgeAsset id => variant 30 [array 32 id]
  | .removeBridgeAsset id => variant 31 [array 32 id]

/-! ## Governance envelopes and blocks -/

/-- The authorization envelope of a governance intent. -/
structure GovAuth where
  sponsorPubkeyHash : Bytes32
  sponsorSignature : List UInt8
  coSignerPubkeyHash : Bytes32
  coSignature : List UInt8
  /-- Proof of possession by the candidate; `AdmitAuthority` only. -/
  candidatePopSignature : List UInt8
deriving DecidableEq

def encodeGovAuth (auth : GovAuth) : List UInt8 :=
  array 32 auth.sponsorPubkeyHash ++ bytes auth.sponsorSignature ++ array 32 auth.coSignerPubkeyHash
    ++ bytes auth.coSignature ++ bytes auth.candidatePopSignature

/-- The block behind a certificate; `governanceAuth` is keyed by the index of the intent. -/
structure BlockPayload where
  payloadDigest : Bytes32
  author : UInt32
  round : UInt64
  certHash : CertHash
  intents : List Intent
  governanceAuth : List (UInt32 × GovAuth)
deriving DecidableEq

section Digests

variable (blake3 : List UInt8 → Bytes32)

/-- BLAKE3 of the encoded intent. -/
def intentHash (intent : Intent) : Bytes32 := blake3 (encodeIntent intent)

/-- The two encodings are fed to the hasher one after the other. -/
def computePayloadDigest (intents : List Intent) (governanceAuth : List (UInt32 × GovAuth)) :
    Bytes32 :=
  blake3 (seq encodeIntent intents
    ++ seq (fun e => u32 e.1 ++ encodeGovAuth e.2) governanceAuth)

def blockPayloadIsConsistent (block : BlockPayload) : Bool :=
  computePayloadDigest blake3 block.intents block.governanceAuth = block.payloadDigest

end Digests

end SuwappuDag.Node
