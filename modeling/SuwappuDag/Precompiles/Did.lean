/-
  DECENTRALIZED IDENTIFIERS (`suwappu-precompiles/src/did.rs`, `did_resolver.rs`).

  1. **Program** — a document lists public keys (verification methods), which of them hold which
     relationship, and services.  `create` registers the first document of a DID; `update` replaces it
     when the new document is signed under a key that the PRIOR document lists for
     `CapabilityInvocation`.
  2. **What a signature binds** — the canonical hash of the new document and nothing else: neither the
     document it replaces nor a revision number.  As long as the signing key stays listed the same
     message can be sent again (`replay_rolls_back`).
  3. **Specification** — with keys that are used once, no message is installed twice, and re-sending
     messages changes nothing (`updates_once`).
  4. **Crux** — the invariant `FreshKeys`: no key that the current document lists for updates has
     authorised an earlier update.  A message that is installed a second time would need the key of
     the first time.
-/
import SuwappuDag.Lib.Blake3
import SuwappuDag.Lib.Frame
import SuwappuDag.Lib.MapSum
import SuwappuDag.Lib.Runs

namespace SuwappuDag.Precompiles

open Words Command Runs
open Std (ExtTreeMap ExtTreeSet)

/-- A content-addressed 32-byte identifier. -/
abbrev Did := Bytes32

/-- The reserved "no DID". -/
def Did.null : Did := 0

abbrev VerificationMethodId := UInt32

inductive VerificationRelationship where
  | authentication
  | assertionMethod
  | keyAgreement
  | capabilityInvocation
  | capabilityDelegation
deriving DecidableEq, Repr

/-- The byte that stands for a relationship; its order is the order of the map. -/
def VerificationRelationship.tag : VerificationRelationship → UInt8
  | .authentication => 1
  | .assertionMethod => 2
  | .keyAgreement => 3
  | .capabilityInvocation => 4
  | .capabilityDelegation => 5

instance : Ord VerificationRelationship := ⟨compareOn fun r => r.tag.toNat⟩

instance : Std.TransOrd VerificationRelationship :=
  inferInstanceAs (Std.TransCmp (compareOn fun r : VerificationRelationship => r.tag.toNat))

instance : Std.LawfulEqOrd VerificationRelationship where
  eq_of_compare {a b} h := by
    have htag : a.tag.toNat = b.tag.toNat := Std.LawfulEqOrd.eq_of_compare h
    cases a <;> cases b <;> first | rfl | simp [VerificationRelationship.tag] at htag

inductive KeyAlgorithm where
  | mlDsa65
deriving DecidableEq, Repr

def KeyAlgorithm.tag : KeyAlgorithm → UInt8
  | .mlDsa65 => 1

structure VerificationMethod where
  id : VerificationMethodId
  controller : Did
  algorithm : KeyAlgorithm
  publicKey : List UInt8

structure Service where
  id : UInt32
  serviceType : String
  endpoint : String

structure DidDocument where
  id : Did
  verificationMethods : List VerificationMethod
  relationships : ExtTreeMap VerificationRelationship (ExtTreeSet VerificationMethodId)
  services : List Service

inductive DidError where
  | nullDid
  | duplicateMethodId (method : VerificationMethodId)
  | crossDidController (method : VerificationMethodId) (controller : Did)
  | danglingRelationship (relationship : VerificationRelationship) (method : VerificationMethodId)
  | duplicateServiceId (service : UInt32)
  | alreadyRegistered
  | notRegistered
  | unauthorizedUpdate
  | unknownMethod (method : VerificationMethodId)
deriving DecidableEq

/-! ## Documents -/

/-- `s.as_bytes()`. -/
def utf8Bytes (s : String) : List UInt8 := s.toUTF8.data.toList

/-- `u32::BE(len) || bytes`. -/
def lengthPrefixed (bytes : List UInt8) : List UInt8 := beBytes 4 bytes.length ++ bytes

def VerificationMethod.bytes (vm : VerificationMethod) : List UInt8 :=
  beBytes 4 vm.id.toNat ++ beBytes 32 vm.controller.toNat ++ [vm.algorithm.tag]
    ++ lengthPrefixed vm.publicKey

def Service.bytes (service : Service) : List UInt8 :=
  beBytes 4 service.id.toNat ++ lengthPrefixed (utf8Bytes service.serviceType)
    ++ lengthPrefixed (utf8Bytes service.endpoint)

namespace DidDocument

/-- The content hash of a document: what an update signs. -/
def canonicalHash (blake3 : List UInt8 → Bytes32) (doc : DidDocument) : Bytes32 :=
  blake3 (asciiBytes "SUWAPPU-DID-DOC-V1" ++ beBytes 32 doc.id.toNat
    ++ beBytes 4 doc.verificationMethods.length
    ++ doc.verificationMethods.flatMap VerificationMethod.bytes
    ++ beBytes 4 doc.relationships.toList.length
    ++ doc.relationships.toList.flatMap (fun e => [e.1.tag] ++ beBytes 4 e.2.toList.length
      ++ e.2.toList.flatMap fun id => beBytes 4 id.toNat)
    ++ beBytes 4 doc.services.length ++ doc.services.flatMap Service.bytes)

/-- Method ids are distinct, and every method is controlled by the document's own DID. -/
def validateMethods (id : Did) : List VerificationMethod → ExtTreeSet VerificationMethodId →
    Except DidError (ExtTreeSet VerificationMethodId)
  | [], seen => .ok seen
  | vm :: vms, seen =>
    if vm.id ∈ seen then .error (.duplicateMethodId vm.id)
    else if vm.controller ≠ id then .error (.crossDidController vm.id vm.controller)
    else validateMethods id vms (seen.insert vm.id)

/-- Every relationship refers to a method that exists. -/
def validateRelationships (seen : ExtTreeSet VerificationMethodId) :
    List (VerificationRelationship × VerificationMethodId) → Except DidError Unit
  | [] => .ok ()
  | (relationship, method) :: rest =>
    if method ∉ seen then .error (.danglingRelationship relationship method)
    else validateRelationships seen rest

def validateServices : List Service → ExtTreeSet UInt32 → Except DidError Unit
  | [], _ => .ok ()
  | service :: services, seen =>
    if service.id ∈ seen then .error (.duplicateServiceId service.id)
    else validateServices services (seen.insert service.id)

def validate (doc : DidDocument) : Except DidError Unit := do
  if doc.id = Did.null then .error .nullDid
  let seen ← validateMethods doc.id doc.verificationMethods ∅
  validateRelationships seen (doc.relationships.toList.flatMap fun e => e.2.toList.map (e.1, ·))
  validateServices doc.services ∅

/-- The key of a method. -/
def publicKey (doc : DidDocument) (method : VerificationMethodId) : Option (List UInt8) :=
  (doc.verificationMethods.find? fun vm => vm.id = method).map (·.publicKey)

def hasRelationship (doc : DidDocument) (method : VerificationMethodId)
    (relationship : VerificationRelationship) : Bool :=
  match doc.relationships[relationship]? with
  | some ids => ids.contains method
  | none => false

/-- The keys under which the next document may be signed. -/
def UpdateKey (doc : DidDocument) (key : List UInt8) : Prop :=
  ∃ method, doc.publicKey method = some key ∧
    doc.hasRelationship method .capabilityInvocation = true

end DidDocument

/-! ## The resolver -/

/-- ML-DSA-65: a key or a signature is a byte string that may fail to parse. -/
structure Mldsa where
  publicKeyFromBytes : List UInt8 → Bool
  signatureFromBytes : List UInt8 → Bool
  /-- `verify(digest, signature, public key)` succeeds. -/
  verify : Bytes32 → List UInt8 → List UInt8 → Bool

structure InMemoryDidResolver where
  docs : ExtTreeMap Did DidDocument

namespace InMemoryDidResolver

def new : InMemoryDidResolver := ⟨∅⟩

def resolve (r : InMemoryDidResolver) (did : Did) : Option DidDocument := r.docs[did]?

def install (r : InMemoryDidResolver) (doc : DidDocument) : InMemoryDidResolver :=
  ⟨r.docs.insert doc.id doc⟩

theorem resolve_install (r : InMemoryDidResolver) (doc : DidDocument) (did : Did) :
    (r.install doc).resolve did = if doc.id = did then some doc else r.resolve did := by
  unfold install resolve
  rw [ExtTreeMap.getElem?_insert]
  simp only [Std.compare_eq_iff_eq]

end InMemoryDidResolver

section Program

variable (blake3 : List UInt8 → Bytes32) (mldsa : Mldsa)

/-- The signature on the new document parses and verifies under the key. -/
def SignedUnder (doc : DidDocument) (signature key : List UInt8) : Prop :=
  mldsa.publicKeyFromBytes key = true ∧ mldsa.signatureFromBytes signature = true ∧
    mldsa.verify (doc.canonicalHash blake3) signature key = true

instance (doc : DidDocument) (signature key : List UInt8) :
    Decidable (SignedUnder blake3 mldsa doc signature key) := by
  unfold SignedUnder
  infer_instance

def create (doc : DidDocument) : Command DidError InMemoryDidResolver Unit := do
  fetch fun _ => doc.validate
  failWhen (fun r => doc.id ∈ r.docs) .alreadyRegistered
  write fun r => r.install doc

def update (newDoc : DidDocument) (signature : List UInt8)
    (signingMethodId : VerificationMethodId) : Command DidError InMemoryDidResolver Unit := do
  fetch fun _ => newDoc.validate
  let prior ← fetch fun r => okOr (r.resolve newDoc.id) .notRegistered
  let key ← fetch fun _ => okOr (prior.publicKey signingMethodId) (.unknownMethod signingMethodId)
  failIf (prior.hasRelationship signingMethodId .capabilityInvocation = false) .unauthorizedUpdate
  -- the key and the signature are parsed first; all three failures have one error
  failIf (¬ SignedUnder blake3 mldsa newDoc signature key) .unauthorizedUpdate
  write fun r => r.install newDoc

inductive ResolverCall where
  | create (doc : DidDocument)
  | update (newDoc : DidDocument) (signature : List UInt8) (signingMethodId : VerificationMethodId)

def ResolverCall.exec : ResolverCall → Command DidError InMemoryDidResolver Unit
  | .create doc => Precompiles.create doc
  | .update newDoc signature signingMethodId =>
    Precompiles.update blake3 mldsa newDoc signature signingMethodId

/-- The resolver a call leaves. -/
def resolverStep (r : InMemoryDidResolver) (call : ResolverCall) : InMemoryDidResolver :=
  (call.exec blake3 mldsa r).2

end Program

/-! ## What a call does -/

section Calls

variable {blake3 : List UInt8 → Bytes32} {mldsa : Mldsa} {r : InMemoryDidResolver}

/-- `create` registers the first document of its DID. -/
theorem create_guarded (doc : DidDocument) : Guarded (create doc) r (fun out =>
    doc.validate = .ok () ∧ r.resolve doc.id = none ∧ out = (.ok (), r.install doc)) := by
  refine (guarded_fetch_bind fun _ _ => guarded_failWhen_bind
    fun _ => guarded_run _ _).congr fun out => ?_
  constructor
  · rintro ⟨⟨⟩, hvalid, hfree, hout⟩
    exact ⟨hvalid, MapSum.notMem_iff.mp hfree, hout⟩
  · rintro ⟨hvalid, hfree, hout⟩
    exact ⟨(), hvalid, MapSum.notMem_iff.mpr hfree, hout⟩

/-- `update` replaces a document under a key that this document lists for updates. -/
theorem update_guarded (newDoc : DidDocument) (signature : List UInt8)
    (method : VerificationMethodId) :
    Guarded (update blake3 mldsa newDoc signature method) r (fun out =>
      newDoc.validate = .ok () ∧ ∃ prior, r.resolve newDoc.id = some prior ∧
        ∃ key, prior.publicKey method = some key ∧
          prior.hasRelationship method .capabilityInvocation = true ∧
          SignedUnder blake3 mldsa newDoc signature key ∧ out = (.ok (), r.install newDoc)) := by
  refine (guarded_fetch_bind fun _ _ => guarded_fetch_bind fun prior _ => guarded_fetch_bind
    fun key _ => guarded_failIf_bind fun _ => guarded_failIf_bind fun _ =>
      guarded_run _ _).congr fun out => ?_
  simp only [okOr_eq_ok_iff, Bool.not_eq_false, not_not, write_run]
  constructor
  · rintro ⟨⟨⟩, hvalid, h⟩
    exact ⟨hvalid, h⟩
  · rintro ⟨hvalid, h⟩
    exact ⟨(), hvalid, h⟩

theorem resolve_update {newDoc : DidDocument} {signature : List UInt8} {method : VerificationMethodId}
    (hok : (update blake3 mldsa newDoc signature method r).1 = .ok ()) :
    (update blake3 mldsa newDoc signature method r).2.resolve newDoc.id = some newDoc := by
  obtain ⟨-, _, -, _, -, -, -, hrun⟩ := (update_guarded newDoc signature method).ok (Prod.ext hok rfl)
  have hstate : (update blake3 mldsa newDoc signature method r).2 = r.install newDoc :=
    (Prod.mk.inj hrun).2
  exact hstate ▸ (InMemoryDidResolver.resolve_install r newDoc newDoc.id).trans (if_pos rfl)

end Calls

/-! ## Messages in a run -/

section Messages

variable (blake3 : List UInt8 → Bytes32) (mldsa : Mldsa)

abbrev ResolverEvent := Event InMemoryDidResolver ResolverCall

/-- The event installs the document of this update message. -/
def Installs (a : ResolverEvent) (doc : DidDocument) (signature : List UInt8) : Prop :=
  ∃ method, a.event = .update doc signature method ∧
    (update blake3 mldsa doc signature method a.before).1 = .ok ()

/-- The event is an update of the DID that was let through under this key. -/
def Authorises (a : ResolverEvent) (did : Did) (key : List UInt8) : Prop :=
  ∃ doc signature method prior, a.event = .update doc signature method ∧ doc.id = did ∧
    (update blake3 mldsa doc signature method a.before).1 = .ok () ∧
    a.before.resolve did = some prior ∧ prior.publicKey method = some key

/-- No message is installed that was installed before. -/
def InstallsOnce (past : List ResolverEvent) (a : ResolverEvent) : Prop :=
  ∀ doc signature, Installs blake3 mldsa a doc signature →
    ∀ b ∈ past, ¬ Installs blake3 mldsa b doc signature

/-- Keys are used once: a document that is installed for the first time lists no key for updates that
    has authorised an update of its DID, this one included. -/
def RotatesKeys (past : List ResolverEvent) (a : ResolverEvent) : Prop :=
  ∀ doc signature, Installs blake3 mldsa a doc signature →
    (∀ b ∈ past, ¬ Installs blake3 mldsa b doc signature) →
    ∀ key, doc.UpdateKey key → ∀ b ∈ past ++ [a], ¬ Authorises blake3 mldsa b doc.id key

/-- The message was made by one signer: no two keys accept it. -/
def OneSigner (doc : DidDocument) (signature : List UInt8) : Prop :=
  ∀ key key', SignedUnder blake3 mldsa doc signature key →
    SignedUnder blake3 mldsa doc signature key' → key = key'

/-- No key that is listed for updates has been used, and nobody has updated what is not there. -/
structure FreshKeys (l : List ResolverEvent) (r : InMemoryDidResolver) : Prop where
  unused : ∀ did doc, r.resolve did = some doc → ∀ key, doc.UpdateKey key →
    ∀ b ∈ l, ¬ Authorises blake3 mldsa b did key
  absent : ∀ did, r.resolve did = none → ∀ b ∈ l, ∀ key, ¬ Authorises blake3 mldsa b did key

variable {blake3 mldsa} {l : List ResolverEvent} {r : InMemoryDidResolver}

variable {doc : DidDocument} {signature : List UInt8}

/-- What is installed was signed under the key that authorised it. -/
theorem Installs.authorises {a : ResolverEvent} (h : Installs blake3 mldsa a doc signature) :
    ∃ key, Authorises blake3 mldsa a doc.id key ∧ SignedUnder blake3 mldsa doc signature key := by
  obtain ⟨method, hevent, hok⟩ := h
  obtain ⟨-, prior, hprior, key, hkey, -, hsigned, -⟩ :=
    (update_guarded doc signature method).ok (Prod.ext hok rfl)
  exact ⟨key, ⟨doc, signature, method, prior, hevent, rfl, hok, hprior, hkey⟩, hsigned⟩

/-- **A message that was installed is refused from then on.** -/
theorem FreshKeys.refuses (h : FreshKeys blake3 mldsa l r)
    (hone : OneSigner blake3 mldsa doc signature) {b : ResolverEvent} (hb : b ∈ l)
    (hinst : Installs blake3 mldsa b doc signature) (method : VerificationMethodId) :
    ∃ e, update blake3 mldsa doc signature method r = (.error e, r) := by
  rcases update_guarded doc signature method with hrun | ⟨-, herror⟩
  · obtain ⟨-, prior, hprior, key, hkey, hlisted, hsigned, -⟩ := hrun
    obtain ⟨key', hauth, hsigned'⟩ := hinst.authorises
    obtain rfl := hone key key' hsigned hsigned'
    exact absurd hauth (h.unused doc.id prior hprior key ⟨method, hkey, hlisted⟩ b hb)
  · exact herror

/-- An event that neither installs a message nor authorises anything adds nothing to the past. -/
theorem FreshKeys.idle {a : ResolverEvent} (h : FreshKeys blake3 mldsa l r)
    (hidle : ∀ did key, ¬ Authorises blake3 mldsa a did key) :
    FreshKeys blake3 mldsa (l ++ [a]) r where
  unused did doc hdoc key hkey := List.forall_mem_append.mpr
    ⟨h.unused did doc hdoc key hkey, List.forall_mem_singleton.mpr (hidle did key)⟩
  absent did hdid := List.forall_mem_append.mpr
    ⟨h.absent did hdid, List.forall_mem_singleton.mpr (hidle did)⟩

/-- An update that fails is no update. -/
theorem not_authorises_of_error {method : VerificationMethodId} {e : DidError}
    {t : InMemoryDidResolver} (h : update blake3 mldsa doc signature method r = (.error e, t))
    (did : Did) (key : List UInt8) :
    ¬ Authorises blake3 mldsa ⟨.update doc signature method, r⟩ did key := by
  rintro ⟨doc', signature', method', prior, hevent, -, hok, -⟩
  cases hevent
  rw [h] at hok
  cases hok

/-- The step: keys stay fresh when a document is created … -/
theorem FreshKeys.create (h : FreshKeys blake3 mldsa l r) (doc : DidDocument) :
    FreshKeys blake3 mldsa (l ++ [⟨.create doc, r⟩]) (Precompiles.create doc r).2 := by
  have hidle : ∀ did key, ¬ Authorises blake3 mldsa ⟨.create doc, r⟩ did key := by
    rintro did key ⟨doc', signature, method, prior, hevent, -⟩
    cases hevent
  refine FreshKeys.idle ?_ hidle
  rcases create_guarded doc with ⟨-, hfree, hrun⟩ | ⟨-, e, hrun⟩
  · rw [hrun]
    constructor
    · intro did doc' hdoc'
      rw [InMemoryDidResolver.resolve_install] at hdoc'
      split at hdoc'
      · next hdid =>
        subst hdid
        exact fun key _ b hb => h.absent doc.id hfree b hb key
      · exact h.unused did doc' hdoc'
    · intro did hdid
      rw [InMemoryDidResolver.resolve_install] at hdid
      split at hdid
      · cases hdid
      · exact h.absent did hdid
  · rw [hrun]
    exact h

/-- … and when one is updated, provided the new one brings fresh keys. -/
theorem FreshKeys.update (h : FreshKeys blake3 mldsa l r) {method : VerificationMethodId}
    (hrot : (Precompiles.update blake3 mldsa doc signature method r).1 = .ok () →
      ∀ key, doc.UpdateKey key →
        ∀ b ∈ l ++ [⟨.update doc signature method, r⟩], ¬ Authorises blake3 mldsa b doc.id key) :
    FreshKeys blake3 mldsa (l ++ [⟨.update doc signature method, r⟩])
      (Precompiles.update blake3 mldsa doc signature method r).2 := by
  rcases update_guarded doc signature method with hrun | ⟨-, e, hrun⟩
  · obtain ⟨-, prior, hprior, key, hkey, hlisted, hsigned, hrun⟩ := hrun
    rw [hrun] at hrot ⊢
    have hother : ∀ did, ¬ doc.id = did → ∀ key,
        ¬ Authorises blake3 mldsa ⟨.update doc signature method, r⟩ did key := by
      rintro did hne key ⟨doc', signature', method', prior', hevent, hdid, -⟩
      cases hevent
      exact hne hdid
    constructor
    · intro did doc' hdoc' key' hkey'
      rw [InMemoryDidResolver.resolve_install] at hdoc'
      split at hdoc'
      · next hdid =>
        cases hdoc'
        subst hdid
        exact hrot rfl key' hkey'
      · next hne =>
        exact List.forall_mem_append.mpr ⟨h.unused did doc' hdoc' key' hkey',
          List.forall_mem_singleton.mpr (hother did hne key')⟩
    · intro did hdid
      rw [InMemoryDidResolver.resolve_install] at hdid
      split at hdid
      · cases hdid
      · next hne =>
        exact List.forall_mem_append.mpr ⟨h.absent did hdid,
          List.forall_mem_singleton.mpr (hother did hne)⟩
  · have hsame : (Precompiles.update blake3 mldsa doc signature method r).2 = r := by rw [hrun]
    rw [hsame]
    exact h.idle (not_authorises_of_error hrun)

/-- **The run**: as long as keys are rotated, no message is installed twice. -/
theorem freshKeys_trace (calls : List ResolverCall) :
    let l := trace (resolverStep blake3 mldsa) calls .new
    (∀ a ∈ l, ∀ doc signature method, a.event = .update doc signature method →
      OneSigner blake3 mldsa doc signature) → Chronicle (RotatesKeys blake3 mldsa) l →
    Chronicle (InstallsOnce blake3 mldsa) l ∧
      FreshKeys blake3 mldsa l (calls.foldl (resolverStep blake3 mldsa) .new) := by
  refine trace_invariant (I := fun l r =>
    (∀ a ∈ l, ∀ doc signature method, a.event = .update doc signature method →
      OneSigner blake3 mldsa doc signature) → Chronicle (RotatesKeys blake3 mldsa) l →
    Chronicle (InstallsOnce blake3 mldsa) l ∧ FreshKeys blake3 mldsa l r) ?_ ?_ calls
  · exact fun _ _ => ⟨chronicle_nil, fun _ _ _ _ _ => List.forall_mem_nil _,
      fun _ _ => List.forall_mem_nil _⟩
  · intro l r call ih hone hrot
    rw [List.forall_mem_append, List.forall_mem_singleton] at hone
    rw [chronicle_concat_iff] at hrot
    obtain ⟨honce, hfresh⟩ := ih hone.1 hrot.1
    cases call with
    | create doc =>
      refine ⟨honce.concat ?_, hfresh.create doc⟩
      rintro doc' signature ⟨method, hevent, -⟩
      cases hevent
    | update doc signature method =>
      -- the message is new, or it would have been refused
      have hnew : (Precompiles.update blake3 mldsa doc signature method r).1 = .ok () →
          ∀ b ∈ l, ¬ Installs blake3 mldsa b doc signature := by
        intro hok b hb hinst
        obtain ⟨e, he⟩ := hfresh.refuses (hone.2 doc signature method rfl) hb hinst method
        rw [he] at hok
        cases hok
      refine ⟨honce.concat ?_, hfresh.update fun hok => ?_⟩
      · rintro doc' signature' ⟨method', hevent, hok⟩
        cases hevent
        exact hnew hok
      · exact hrot.2 doc signature ⟨method, rfl, hok⟩ (hnew hok)

/-- **Updates cannot be replayed, where keys are rotated**: every message installs its document at most
    once, and sending installed messages again changes nothing. -/
theorem updates_once (calls : List ResolverCall)
    (hone : ∀ doc signature method, ResolverCall.update doc signature method ∈ calls →
      OneSigner blake3 mldsa doc signature)
    (hrot : Chronicle (RotatesKeys blake3 mldsa) (trace (resolverStep blake3 mldsa) calls .new)) :
    Chronicle (InstallsOnce blake3 mldsa) (trace (resolverStep blake3 mldsa) calls .new) ∧
      ∀ replays : List ResolverCall,
        (∀ call ∈ replays, ∃ doc signature method, call = .update doc signature method ∧
          ∃ a ∈ trace (resolverStep blake3 mldsa) calls .new, Installs blake3 mldsa a doc signature) →
        (calls ++ replays).foldl (resolverStep blake3 mldsa) .new =
          calls.foldl (resolverStep blake3 mldsa) .new := by
  have honeTrace : ∀ a ∈ trace (resolverStep blake3 mldsa) calls .new, ∀ doc signature method,
      a.event = .update doc signature method → OneSigner blake3 mldsa doc signature := by
    intro a ha doc signature method hevent
    exact hone doc signature method (hevent ▸ event_mem_of_mem_trace ha)
  obtain ⟨honce, hfresh⟩ := freshKeys_trace calls honeTrace hrot
  refine ⟨honce, fun replays hreplays => ?_⟩
  rw [List.foldl_append]
  induction replays with
  | nil => rfl
  | cons call replays ih =>
    rw [List.forall_mem_cons] at hreplays
    obtain ⟨⟨doc, signature, method, rfl, a, ha, hinst⟩, hrest⟩ := hreplays
    have hevent := hinst
    obtain ⟨method', hevent, -⟩ := hevent
    obtain ⟨e, he⟩ := hfresh.refuses (honeTrace a ha doc signature method' hevent) ha hinst method
    have hstep : resolverStep blake3 mldsa (calls.foldl (resolverStep blake3 mldsa) .new)
        (.update doc signature method) = calls.foldl (resolverStep blake3 mldsa) .new := by
      rw [resolverStep, ResolverCall.exec, he]
    rw [List.foldl_cons, hstep]
    exact ih hrest

end Messages

/-! ## A resolver at work -/

/-- A scheme whose signatures spell out the key and the digest: each is accepted under one key. -/
def echoMldsa : Mldsa where
  publicKeyFromBytes key := key.length = 4
  signatureFromBytes signature := signature.length = 36
  verify digest signature key := signature = key ++ beBytes 32 digest.toNat

theorem echoMldsa_oneSigner (blake3 : List UInt8 → Bytes32) (doc : DidDocument)
    (signature : List UInt8) : OneSigner blake3 echoMldsa doc signature := by
  rintro key key' ⟨hlen, -, hsig⟩ ⟨hlen', -, hsig'⟩
  simp only [echoMldsa, decide_eq_true_eq] at hlen hlen' hsig hsig'
  exact (List.append_inj (hsig.symm.trans hsig') (by rw [hlen, hlen'])).1

/-- The document of DID 1 with one key, for everything, and one service. -/
def echoDoc (key : UInt8) (service : UInt32) : DidDocument where
  id := 1
  verificationMethods := [⟨0, 1, .mlDsa65, List.replicate 4 key⟩]
  relationships := (∅ : ExtTreeMap VerificationRelationship (ExtTreeSet VerificationMethodId)).insert
    .capabilityInvocation ((∅ : ExtTreeSet VerificationMethodId).insert 0)
  services := [⟨service, "", ""⟩]

/-- The message that installs the document, signed under a key. -/
def echoUpdate (key : UInt8) (doc : DidDocument) : ResolverCall :=
  .update doc (List.replicate 4 key ++ beBytes 32 (doc.canonicalHash Blake3.hash).toNat) 0

/-- The only key that may sign the next document. -/
theorem echoDoc_updateKey {key : UInt8} {service : UInt32} {bytes : List UInt8}
    (h : (echoDoc key service).UpdateKey bytes) : bytes = List.replicate 4 key := by
  obtain ⟨method, hkey, -⟩ := h
  rw [DidDocument.publicKey, Option.map_eq_some_iff] at hkey
  obtain ⟨vm, hvm, rfl⟩ := hkey
  have hmem : vm ∈ (echoDoc key service).verificationMethods := List.mem_of_find?_eq_some hvm
  rw [List.mem_singleton.mp hmem]

/-- The key is exchanged with the update. -/
def rotation : List ResolverCall := [.create (echoDoc 5 0), echoUpdate 5 (echoDoc 6 1)]

theorem rotation_created :
    resolverStep Blake3.hash echoMldsa .new (.create (echoDoc 5 0)) =
      InMemoryDidResolver.install .new (echoDoc 5 0) := by
  have hok : (create (echoDoc 5 0) .new).1 = .ok () := by decide +kernel
  exact (Prod.mk.inj ((create_guarded (echoDoc 5 0)).ok (Prod.ext hok rfl)).2.2).2

theorem rotation_rotates : Chronicle (RotatesKeys Blake3.hash echoMldsa)
    (trace (resolverStep Blake3.hash echoMldsa) rotation .new) := by
  have hfirst : RotatesKeys Blake3.hash echoMldsa [] ⟨.create (echoDoc 5 0), .new⟩ := by
    rintro doc signature ⟨method, hevent, -⟩
    cases hevent
  have hsecond : RotatesKeys Blake3.hash echoMldsa [⟨.create (echoDoc 5 0), .new⟩]
      ⟨echoUpdate 5 (echoDoc 6 1), InMemoryDidResolver.install .new (echoDoc 5 0)⟩ := by
    rintro doc signature ⟨method, hevent, -⟩ - key hkey b hb ⟨doc', signature', method', prior,
      hevent', hid, -, hprior, hpriorKey⟩
    cases hevent
    rcases List.mem_append.mp hb with hb | hb
    · cases List.mem_singleton.mp hb
      cases hevent'
    · cases List.mem_singleton.mp hb
      cases hevent'
      -- the update was signed under the key of the first document
      have hsame : (echoDoc 5 0).id = (echoDoc 6 1).id := rfl
      rw [InMemoryDidResolver.resolve_install, if_pos hsame, Option.some.injEq] at hprior
      subst hprior
      have hold : key = List.replicate 4 5 := echoDoc_updateKey ⟨0, hpriorKey, by decide +kernel⟩
      have hnew : key = List.replicate 4 6 := echoDoc_updateKey hkey
      exact absurd (hold.symm.trans hnew) (by decide)
  have htrace : trace (resolverStep Blake3.hash echoMldsa) rotation .new =
      [] ++ [⟨.create (echoDoc 5 0), .new⟩] ++
        [⟨echoUpdate 5 (echoDoc 6 1), InMemoryDidResolver.install .new (echoDoc 5 0)⟩] := by
    rw [rotation, trace, trace, trace, rotation_created]
    rfl
  rw [htrace]
  exact (chronicle_nil.concat hfirst).concat hsecond

/-- The message is sent again, and nothing changes. -/
theorem updates_once_rotated :
    (rotation ++ [echoUpdate 5 (echoDoc 6 1)]).foldl (resolverStep Blake3.hash echoMldsa) .new =
      rotation.foldl (resolverStep Blake3.hash echoMldsa) .new := by
  refine (updates_once rotation (fun doc signature _ _ => echoMldsa_oneSigner _ doc signature)
    rotation_rotates).2 _ ?_
  rw [List.forall_mem_singleton]
  refine ⟨_, _, 0, rfl, _, List.mem_cons_of_mem _ List.mem_cons_self, 0, rfl, ?_⟩
  decide +kernel

/-- The key stays, and the first update is sent again behind the second: the document of the first
    is back, although every message was signed once, by the holder of the key. -/
theorem replay_rolls_back :
    let first := [.create (echoDoc 5 0), echoUpdate 5 (echoDoc 5 1), echoUpdate 5 (echoDoc 5 2)]
    let replayed := first ++ [echoUpdate 5 (echoDoc 5 1)]
    (∀ doc signature, OneSigner Blake3.hash echoMldsa doc signature) ∧
      (first.foldl (resolverStep Blake3.hash echoMldsa) .new).resolve 1 = some (echoDoc 5 2) ∧
      (replayed.foldl (resolverStep Blake3.hash echoMldsa) .new).resolve 1 = some (echoDoc 5 1) ∧
      ¬ Chronicle (InstallsOnce Blake3.hash echoMldsa)
        (trace (resolverStep Blake3.hash echoMldsa) replayed .new) := by
  intro first replayed
  refine ⟨echoMldsa_oneSigner _, ?_, ?_, fun honce => ?_⟩
  · exact resolve_update (by decide +kernel)
  · exact resolve_update (by decide +kernel)
  · refine honce [_, _, _] _ [] rfl _ _ ⟨0, rfl, ?_⟩ _ (List.mem_cons_of_mem _ List.mem_cons_self)
      ⟨0, rfl, ?_⟩ <;> decide +kernel

end SuwappuDag.Precompiles
