/-
  CONTENT IDENTIFIERS — what the hash of a certificate, a burn, an obligation or a DID document binds
  (`suwappu-consensus/src/cert.rs`, `suwappu-execution/src/burn_nullifier.rs`, `force_include.rs`,
  `suwappu-precompiles/src/did.rs`).

  Four places of the source hash a record into 32 bytes and take the digest for the record from then
  on: as a key of the store, as a nullifier, as a name other messages refer to.

  1. **Preimages** — each identifier is BLAKE3 of a tag and a body, `Content.preimage`.
  2. **Tags** — the four tags differ within their first nine bytes, and each is longer than that, so no
     preimage of one kind is a preimage of another, whatever the bodies are.
  3. **Bodies** — numbers of fixed width, and lists behind their lengths.  The lengths are written in
     four bytes; what is 2^32 long or longer is not told apart (`Content.Short`).  The certificate
     alone has no such bound: the length of the whole gives the number of its parents.
-/
import SuwappuDag.Consensus.Cert
import SuwappuDag.Execution.Registries
import SuwappuDag.Precompiles.Did

namespace SuwappuDag.Identifiers

open Words Layout Consensus Execution Precompiles
open Std (ExtTreeMap ExtTreeSet)

/-! ## The four kinds -/

inductive Kind where
  | certificate
  | burn
  | obligation
  | document
deriving DecidableEq

/-- The domain tag in front of every preimage of the kind. -/
def Kind.tag : Kind → List UInt8
  | .certificate => asciiBytes "SUWAPPU-CERT-V1"
  | .burn => asciiBytes "suwappu-burn-v1"
  | .obligation => asciiBytes "suwappu-force-include-v1"
  | .document => asciiBytes "SUWAPPU-DID-DOC-V1"

/-- The arguments of one of the four hash functions. -/
inductive Content where
  | certificate (cert : Certificate)
  | burn (l2ChainIdHash : Bytes32) (batchId : UInt64) (recipient : Address) (amount : Balance)
      (merklePath : List UInt8) (assetId : Option Bytes32)
  | obligation (tx : List UInt8) (deadlineL1Height : UInt64) (submitter : Address) (l2Nonce : UInt64)
  | document (doc : DidDocument)

namespace Content

def kind : Content → Kind
  | .certificate _ => .certificate
  | .burn .. => .burn
  | .obligation .. => .obligation
  | .document _ => .document

/-- The identifier, by the source's function for its kind. -/
def identifier (blake3 : List UInt8 → Bytes32) : Content → Bytes32
  | .certificate cert => cert.hash blake3
  | .burn l2ChainIdHash batchId recipient amount merklePath assetId =>
    BurnNullifier.burnId blake3 l2ChainIdHash batchId recipient amount merklePath assetId
  | .obligation tx deadlineL1Height submitter l2Nonce =>
    ForceInclude.obligationId blake3 tx deadlineL1Height submitter l2Nonce
  | .document doc => doc.canonicalHash blake3

end Content

/-- The asset of a burn: a byte that says whether there is one. -/
def assetBytes : Option Bytes32 → List UInt8
  | some id => [1] ++ beBytes 32 id.toNat
  | none => [0]

/-- One relationship of a document with the methods that hold it. -/
def relationshipBytes (e : VerificationRelationship × ExtTreeSet VerificationMethodId) : List UInt8 :=
  [e.1.tag] ++ beBytes 4 e.2.toList.length ++ e.2.toList.flatMap fun id => beBytes 4 id.toNat

namespace Content

/-- The hashed bytes behind the tag. -/
def body : Content → List UInt8
  | .certificate cert => beBytes 4 cert.author.toNat ++ beBytes 8 cert.round.toNat
      ++ beBytes 4 (cert.parents.length % 2 ^ 32)
      ++ cert.parents.flatMap (fun p => beBytes 32 p.toNat) ++ beBytes 32 cert.payloadDigest.toNat
  | .burn l2ChainIdHash batchId recipient amount merklePath assetId =>
    beBytes 32 l2ChainIdHash.toNat ++ beBytes 8 batchId.toNat ++ beBytes 20 recipient.toNat
      ++ beBytes 16 amount.toNat ++ beBytes 4 merklePath.length ++ merklePath ++ assetBytes assetId
  | .obligation tx deadlineL1Height submitter l2Nonce =>
    beBytes 4 tx.length ++ tx ++ beBytes 8 deadlineL1Height.toNat ++ beBytes 20 submitter.toNat
      ++ beBytes 8 l2Nonce.toNat
  | .document doc => beBytes 32 doc.id.toNat ++ beBytes 4 doc.verificationMethods.length
      ++ doc.verificationMethods.flatMap VerificationMethod.bytes
      ++ beBytes 4 doc.relationships.toList.length
      ++ doc.relationships.toList.flatMap relationshipBytes
      ++ beBytes 4 doc.services.length ++ doc.services.flatMap Service.bytes

def preimage (x : Content) : List UInt8 := x.kind.tag ++ x.body

theorem identifier_eq (blake3 : List UInt8 → Bytes32) (x : Content) :
    x.identifier blake3 = blake3 x.preimage := by
  cases x with
  | certificate cert =>
    simp only [identifier, preimage, kind, Kind.tag, body, Certificate.hash, Certificate.encode,
      List.append_assoc]
  | burn chain batchId recipient amount merklePath assetId =>
    cases assetId <;> simp only [identifier, preimage, kind, Kind.tag, body, BurnNullifier.burnId,
      assetBytes, List.append_assoc]
  | obligation tx deadline submitter nonce =>
    simp only [identifier, preimage, kind, Kind.tag, body, ForceInclude.obligationId,
      List.append_assoc]
  | document doc =>
    simp only [identifier, preimage, kind, Kind.tag, body, DidDocument.canonicalHash,
      List.append_assoc]
    rfl

end Content

/-! ## The tags tell the kinds apart -/

theorem Kind.tag_append_inj {k l : Kind} {s t : List UInt8} (h : k.tag ++ s = l.tag ++ t) :
    k = l ∧ s = t := by
  have hlong : ∀ k : Kind, 9 ≤ k.tag.length := by intro k; cases k <;> decide
  have hstart : k.tag.take 9 = l.tag.take 9 := by
    have h := congrArg (List.take 9) h
    rwa [List.take_append_of_le_length (hlong k), List.take_append_of_le_length (hlong l)] at h
  have hkl : k = l := by
    revert hstart
    cases k <;> cases l <;> decide
  subst hkl
  exact ⟨rfl, List.append_cancel_left h⟩

/-! ## The bodies tell the fields apart -/

theorem utf8Bytes_inj {s t : String} (h : utf8Bytes s = utf8Bytes t) : s = t := by
  have hdata : s.toUTF8.data = t.toUTF8.data := Array.toList_inj.mp h
  exact String.toByteArray_inj.mp (ByteArray.ext hdata)

theorem tag_inj {a b : VerificationRelationship} (h : a.tag = b.tag) : a = b := by
  revert h
  cases a <;> cases b <;> decide

theorem assetBytes_inj {a b : Option Bytes32} (h : assetBytes a = assetBytes b) : a = b := by
  cases a with
  | none =>
    cases b with
    | none => rfl
    | some id => simp [assetBytes] at h
  | some id =>
    cases b with
    | none => simp [assetBytes] at h
    | some id' =>
      simp only [assetBytes, List.append_cancel_left_eq] at h
      rw [beBytes32_inj h]

/-- A method whose key has a length that fits. -/
theorem delimited_method : Delimited (fun vm : VerificationMethod => vm.publicKey.length < 2 ^ 32)
    VerificationMethod.bytes := by
  intro a b s t ha hb h
  simp only [VerificationMethod.bytes, lengthPrefixed, List.append_assoc, List.cons_append,
    List.nil_append] at h
  obtain ⟨hid, h⟩ := u32_append_inj h
  obtain ⟨hctl, h⟩ := word_append_inj rfl h
  obtain ⟨-, h⟩ := List.cons.inj h
  obtain ⟨hkey, hrest⟩ := lengthPrefixed_append_inj ha hb h
  cases a
  cases b
  -- there is one algorithm
  simp only [VerificationMethod.mk.injEq]
  exact ⟨⟨hid, hctl, trivial, hkey⟩, hrest⟩

theorem delimited_service : Delimited (fun service : Service =>
    (utf8Bytes service.serviceType).length < 2 ^ 32 ∧ (utf8Bytes service.endpoint).length < 2 ^ 32)
    Service.bytes := by
  intro a b s t ha hb h
  simp only [Service.bytes, lengthPrefixed, List.append_assoc] at h
  obtain ⟨hid, h⟩ := u32_append_inj h
  obtain ⟨htype, h⟩ := lengthPrefixed_append_inj ha.1 hb.1 h
  obtain ⟨hend, hrest⟩ := lengthPrefixed_append_inj ha.2 hb.2 h
  cases a
  cases b
  simp only [Service.mk.injEq]
  exact ⟨⟨hid, utf8Bytes_inj htype, utf8Bytes_inj hend⟩, hrest⟩

theorem delimited_relationship : Delimited
    (fun e : VerificationRelationship × ExtTreeSet VerificationMethodId => e.2.toList.length < 2 ^ 32)
    relationshipBytes := by
  intro a b s t ha hb h
  have hid : Delimited (fun _ => True) fun id : VerificationMethodId => beBytes 4 id.toNat :=
    fun _ _ _ _ _ _ h => u32_append_inj h
  simp only [relationshipBytes, List.append_assoc, List.cons_append, List.nil_append,
    List.cons.injEq] at h
  obtain ⟨htag, h⟩ := h
  obtain ⟨hids, hrest⟩ := hid.counted_append_inj (fun _ _ => trivial) (fun _ _ => trivial) ha hb h
  exact ⟨Prod.ext (tag_inj htag) (ExtTreeSet.toList_inj.mp hids), hrest⟩

namespace Content

/-- Every length that is written in four bytes fits there. -/
def Short : Content → Prop
  | .certificate _ => True
  | .burn _ _ _ _ merklePath _ => merklePath.length < 2 ^ 32
  | .obligation tx _ _ _ => tx.length < 2 ^ 32
  | .document doc =>
    doc.verificationMethods.length < 2 ^ 32 ∧
      (∀ vm ∈ doc.verificationMethods, vm.publicKey.length < 2 ^ 32) ∧
    doc.relationships.toList.length < 2 ^ 32 ∧
      (∀ e ∈ doc.relationships.toList, e.2.toList.length < 2 ^ 32) ∧
    doc.services.length < 2 ^ 32 ∧
      ∀ service ∈ doc.services, (utf8Bytes service.serviceType).length < 2 ^ 32 ∧
        (utf8Bytes service.endpoint).length < 2 ^ 32

/-- The same input, up to the signature of a certificate. -/
def Agrees : Content → Content → Prop
  | .certificate c, .certificate d =>
    c.author = d.author ∧ c.round = d.round ∧ c.parents = d.parents ∧ c.payloadDigest = d.payloadDigest
  | x, y => x = y

theorem agrees_of_burn {chain chain' : Bytes32} {batchId batchId' : UInt64}
    {recipient recipient' : Address} {amount amount' : Balance} {path path' : List UInt8}
    {asset asset' : Option Bytes32}
    (hx : (burn chain batchId recipient amount path asset).Short)
    (hy : (burn chain' batchId' recipient' amount' path' asset').Short)
    (h : (burn chain batchId recipient amount path asset).body =
      (burn chain' batchId' recipient' amount' path' asset').body) :
    burn chain batchId recipient amount path asset =
      burn chain' batchId' recipient' amount' path' asset' := by
  simp only [body, List.append_assoc] at h
  obtain ⟨hchain, h⟩ := word_append_inj (k := 32) rfl h
  obtain ⟨hbatch, h⟩ := u64_append_inj h
  obtain ⟨hrecipient, h⟩ := word_append_inj (k := 20) rfl h
  obtain ⟨hamount, h⟩ := word_append_inj (k := 16) rfl h
  obtain ⟨hpath, h⟩ := lengthPrefixed_append_inj hx hy h
  rw [hchain, hbatch, hrecipient, hamount, hpath, assetBytes_inj h]

theorem agrees_of_obligation {tx tx' : List UInt8} {deadline deadline' nonce nonce' : UInt64}
    {submitter submitter' : Address} (hx : (obligation tx deadline submitter nonce).Short)
    (hy : (obligation tx' deadline' submitter' nonce').Short)
    (h : (obligation tx deadline submitter nonce).body =
      (obligation tx' deadline' submitter' nonce').body) :
    obligation tx deadline submitter nonce = obligation tx' deadline' submitter' nonce' := by
  simp only [body, List.append_assoc] at h
  obtain ⟨htx, h⟩ := lengthPrefixed_append_inj hx hy h
  obtain ⟨hdeadline, h⟩ := u64_append_inj h
  obtain ⟨hsubmitter, h⟩ := word_append_inj (k := 20) rfl h
  obtain ⟨hnonce, -⟩ := u64_append_inj (s := []) (t := []) (by simpa using h)
  rw [htx, hdeadline, hsubmitter, hnonce]

theorem agrees_of_document {doc doc' : DidDocument} (hx : (document doc).Short)
    (hy : (document doc').Short) (h : (document doc).body = (document doc').body) : doc = doc' := by
  obtain ⟨hmethods, hkeys, hrels, hids, hservices, htexts⟩ := hx
  obtain ⟨hmethods', hkeys', hrels', hids', hservices', htexts'⟩ := hy
  simp only [body, List.append_assoc] at h
  obtain ⟨hid, h⟩ := word_append_inj rfl h
  obtain ⟨hmethod, h⟩ := delimited_method.counted_append_inj hkeys hkeys' hmethods hmethods' h
  obtain ⟨hrel, h⟩ := delimited_relationship.counted_append_inj hids hids' hrels hrels' h
  obtain ⟨hservice, -⟩ := delimited_service.counted_append_inj (s := []) (t := []) htexts htexts'
    hservices hservices' (by simpa using h)
  cases doc
  cases doc'
  simp only [DidDocument.mk.injEq]
  exact ⟨hid, hmethod, ExtTreeMap.toList_inj.mp hrel, hservice⟩

/-- **The preimage determines the content.** -/
theorem agrees_of_preimage {x y : Content} (hx : x.Short) (hy : y.Short)
    (h : x.preimage = y.preimage) : x.Agrees y := by
  obtain ⟨hkind, hbody⟩ := Kind.tag_append_inj h
  -- of the sixteen pairs four are of one kind
  cases x <;> cases y <;> cases hkind
  · refine encode_inj ?_
    simpa [Certificate.encode, preimage, kind, Kind.tag, body] using h
  · exact agrees_of_burn hx hy hbody
  · exact agrees_of_obligation hx hy hbody
  · exact congrArg document (agrees_of_document hx hy hbody)

end Content

/-! ## The identifiers -/

open Content in
/-- **Identifiers bind what they are made of**: no preimage of one kind is a preimage of another, and
    two contents whose preimages BLAKE3 tells apart have one identifier only if they are the same. -/
theorem identifiers_bind (blake3 : List UInt8 → Bytes32) (x y : Content) :
    (x.kind ≠ y.kind → x.preimage ≠ y.preimage) ∧
    (x.Short → y.Short → (blake3 x.preimage = blake3 y.preimage → x.preimage = y.preimage) →
      x.identifier blake3 = y.identifier blake3 → x.Agrees y) := by
  constructor
  · intro hne h
    exact hne (Kind.tag_append_inj h).1
  · intro hx hy hnc h
    rw [identifier_eq, identifier_eq] at h
    exact agrees_of_preimage hx hy (hnc h)

/-- Two obligations that differ in one byte of the transaction. -/
def obligationOf (b : UInt8) : Content := .obligation [b] 7 1 0

theorem identifiers_bind_obligations :
    (obligationOf 1).Short ∧ (obligationOf 2).Short ∧
      ((obligationOf 1).identifier Blake3.hash = (obligationOf 2).identifier Blake3.hash →
        (obligationOf 1).Agrees (obligationOf 2)) := by
  have hshort : ∀ b, (obligationOf b).Short := fun b => by
    show [b].length < 2 ^ 32
    simp
  have hdistinct : Blake3.hash (obligationOf 1).preimage ≠ Blake3.hash (obligationOf 2).preimage := by
    decide +kernel
  exact ⟨hshort 1, hshort 2, (identifiers_bind Blake3.hash (obligationOf 1) (obligationOf 2)).2
    (hshort 1) (hshort 2) fun h => absurd h hdistinct⟩

end SuwappuDag.Identifiers
