/-
  WHO MAY ACT: the seated rings and the checks against them (`suwappu-authority`,
  `suwappu-validator`, and the verification half of `suwappu-node/src/client.rs`).

  1. **Rings** — both registries admit by the same three checks, in the same order: the stake floor,
     the size of the ring, the identifier.  `admitMember` is that check with its numbers left open.
  2. **Primitives** — BLAKE3 and ML-DSA-65 are parameters, collected in `Crypto`.
  3. **One signature** — `verifySingleSignature` looks a signer up among the SEATED authorities by the
     hash of its key.  `verifySignedIntent` puts the governance gate in front of it: three kinds of
     intent are refused, every other kind needs one seated signature.
  4. **Two signatures** — `verifyGovernedIntent` is for these three kinds: a sponsor, a second and
     different authority, and for an admission the candidate itself.
-/
import SuwappuDag.Consensus.Joint
import SuwappuDag.Node.Codec

namespace SuwappuDag.Node

open Words Consensus Execution
open Std (ExtTreeMap)

/-! ## The rings -/

inductive AdmissionError (S : Type) where
  | stakeBelowFloor (posted floor : S)
  | ringFull (size max : Nat)
  | duplicateMember (id : UInt32)
deriving DecidableEq

section Ring

variable {S M : Type} [LT S] [DecidableLT S]

/-- Admission into a ring with a stake floor and a largest size. -/
def admitMember (floor : S) (max : Nat) (id : M → UInt32) (stake : M → S)
    (members : ExtTreeMap UInt32 M) (member : M) :
    Except (AdmissionError S) (ExtTreeMap UInt32 M) :=
  if stake member < floor then .error (.stakeBelowFloor (stake member) floor)
  else if max ≤ members.size then .error (.ringFull members.size max)
  else if id member ∈ members then .error (.duplicateMember (id member))
  else .ok (members.insert (id member) member)

theorem admitMember_eq_ok_iff {floor : S} {max : Nat} {id : M → UInt32} {stake : M → S}
    {members members' : ExtTreeMap UInt32 M} {member : M} :
    admitMember floor max id stake members member = .ok members' ↔
      ¬ stake member < floor ∧ members.size < max ∧ id member ∉ members ∧
        members' = members.insert (id member) member := by
  unfold admitMember
  by_cases hfloor : stake member < floor
  · simp [hfloor]
  by_cases hfull : max ≤ members.size
  · simp [hfloor, hfull, not_lt.mpr hfull]
  by_cases hdup : id member ∈ members
  · simp [hfloor, hfull, hdup]
  · simp [hfloor, hfull, hdup, not_le.mp hfull, eq_comm]

end Ring

structure AuthorityMember where
  id : AuthorityId
  stakeSuwappu : UInt64
  publicKeyBytes : List UInt8
deriving DecidableEq

abbrev AuthorityRegistry := ExtTreeMap AuthorityId AuthorityMember

def authorityStakeThreshold : UInt64 := 100000

def authorityRingMax : Nat := 50

/-- `AuthorityRegistry::admit`. -/
def AuthorityRegistry.tryAdmit (registry : AuthorityRegistry) (member : AuthorityMember) :
    Except (AdmissionError UInt64) AuthorityRegistry :=
  admitMember authorityStakeThreshold authorityRingMax (·.id) (·.stakeSuwappu) registry member

structure ValidatorMember where
  id : ValidatorId
  stakeSuwappu : Stake
deriving DecidableEq

abbrev ValidatorRegistry := ExtTreeMap ValidatorId ValidatorMember

def validatorStakeThreshold : Stake := 25000

def validatorRingMax : Nat := 500

/-- `ValidatorRegistry::admit`. -/
def ValidatorRegistry.tryAdmit (registry : ValidatorRegistry) (member : ValidatorMember) :
    Except (AdmissionError Stake) ValidatorRegistry :=
  admitMember validatorStakeThreshold validatorRingMax (·.id) (·.stakeSuwappu) registry member

/-! ## The primitives -/

/-- The hash and the signature scheme.  A key or a signature is a byte string that may fail to parse. -/
structure Crypto where
  blake3 : List UInt8 → Bytes32
  /-- `mldsa::PublicKey::from_bytes` succeeds. -/
  publicKeyFromBytes : List UInt8 → Bool
  /-- `mldsa::Signature::from_bytes` succeeds. -/
  signatureFromBytes : List UInt8 → Bool
  /-- `mldsa::verify(message, signature, public key)` succeeds. -/
  verify : List UInt8 → List UInt8 → List UInt8 → Bool

section Verification

variable (C : Crypto)

/-- `Certificate::verify_signature` under the key with the given bytes. -/
def verifySignature (cert : Certificate) (publicKey : List UInt8) : Bool :=
  !cert.signature.isEmpty && C.signatureFromBytes cert.signature &&
    C.verify (beBytes 32 (cert.hash C.blake3).toNat) cert.signature publicKey

/-- A certificate is let in when its author is seated, with a key that parses, and has signed it. -/
def authored (registry : AuthorityRegistry) (cert : Certificate) : Bool :=
  match registry[cert.author]? with
  | some member =>
    C.publicKeyFromBytes member.publicKeyBytes && verifySignature C cert member.publicKeyBytes
  | none => false

/-- Tag, network and encoded intent in a row. -/
def intentSigningDigest (networkId : List UInt8) (intent : Intent) : Bytes32 :=
  C.blake3 (asciiBytes "SUWAPPU_INTENT_V1" ++ networkId ++ encodeIntent intent)

inductive AuthOutcome where
  | ok
  | unknownSigner
  | badSignature
  | governanceRequiresCoSignature
deriving DecidableEq

/-- The kinds of intent that need two signatures. -/
def isGovernanceIntent : Intent → Bool
  | .admitAuthority .. => true
  | .exitAuthority .. => true
  | .ejectAuthority .. => true
  | _ => false

/-- The first seated authority, by ascending id, whose key has the given hash. -/
def seatedKey (registry : AuthorityRegistry) (pubkeyHash : Bytes32) : Option (List UInt8) :=
  (registry.toList.find? fun e => C.blake3 e.2.publicKeyBytes = pubkeyHash).map
    fun e => e.2.publicKeyBytes

/-- One detached signature by a seated authority, without the governance gate. -/
def verifySingleSignature (registry : AuthorityRegistry) (networkId : List UInt8) (intent : Intent)
    (signature : List UInt8) (signerPubkeyHash : Bytes32) : AuthOutcome :=
  match seatedKey C registry signerPubkeyHash with
  | none => .unknownSigner
  | some publicKey =>
    if !C.publicKeyFromBytes publicKey then .unknownSigner
    else if !C.signatureFromBytes signature then .badSignature
    else if C.verify (beBytes 32 (intentSigningDigest C networkId intent).toNat) signature publicKey
    then .ok
    else .badSignature

/-- The gate both ingress wires share. -/
def verifySignedIntent (registry : AuthorityRegistry) (networkId : List UInt8) (intent : Intent)
    (signature : List UInt8) (signerPubkeyHash : Bytes32) : AuthOutcome :=
  if isGovernanceIntent intent then .governanceRequiresCoSignature
  else verifySingleSignature C registry networkId intent signature signerPubkeyHash

/-- One of the two seats of an envelope: `who` and `sig` are its words in the error texts. -/
def checkSeat (who sig : String) : AuthOutcome → Except String Unit
  | .ok => .ok ()
  | .unknownSigner => .error ("governed submit: " ++ who ++ " not a seated authority")
  | .badSignature => .error ("governed submit: bad " ++ sig)
  -- `unreachable!` in the source: `verifySingleSignature` never answers so
  | .governanceRequiresCoSignature => .error "no gate in single-sig core"

/-- The candidate of an admission has signed the digest with the key it asks to be seated with. -/
def checkCandidate (networkId : List UInt8) (intent : Intent) (popSignature : List UInt8) :
    Except String Unit :=
  match intent with
  | .admitAuthority _ _ mldsaPublicKey _ =>
    if !C.publicKeyFromBytes mldsaPublicKey then
      .error "governed submit: malformed candidate public key"
    else if !C.signatureFromBytes popSignature then
      .error "governed submit: malformed candidate PoP signature"
    else if C.verify (beBytes 32 (intentSigningDigest C networkId intent).toNat) popSignature
        mldsaPublicKey then .ok ()
    else .error "governed submit: candidate proof-of-possession signature invalid"
  | _ => .ok ()

/-- The dual-signature rule. -/
def verifyGovernedIntent (registry : AuthorityRegistry) (networkId : List UInt8) (intent : Intent)
    (auth : GovAuth) : Except String Unit := do
  if !isGovernanceIntent intent then throw "governed submit: not a governance intent"
  checkSeat "sponsor" "sponsor signature"
    (verifySingleSignature C registry networkId intent auth.sponsorSignature auth.sponsorPubkeyHash)
  if auth.coSignerPubkeyHash = auth.sponsorPubkeyHash then
    throw "governed submit: co-signer must be a second, distinct seated authority"
  checkSeat "co-signer" "co-signature"
    (verifySingleSignature C registry networkId intent auth.coSignature auth.coSignerPubkeyHash)
  checkCandidate C networkId intent auth.candidatePopSignature

end Verification

end SuwappuDag.Node
