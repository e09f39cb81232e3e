/-
  THE GATEWAY RESPONSE (`suwappu-transport/src/gateway.rs`).

  1. **Program** — the envelope of a client's request is digested with SHA3; the gateway signs that
     digest with the response.  `verifyResponse` checks the envelope's path, its digest and the
     signature.
  2. **What the digest covers** — the IP packet, the two creation rounds, the path's ISD and the MACs of
     its hops (`preimage_inj`).  The other fields of a hop are not in it.
  3. **What the MACs add** — a verified path is a chain, and along two chains with one seed and the same
     MACs the inputs of the MACs agree, so do the keys, interfaces and expirations
     (`hops_eq_of_chained`).  The ISD of a hop is in neither: two envelopes accepted with one response
     are the same exactly if their hops name the same ISDs (`envelope_eq_iff`).
-/
import SuwappuDag.Lib.Blake3
import SuwappuDag.Transport.Scion

namespace SuwappuDag.Transport

open Words
open Std (ExtTreeMap)

structure GatewayConfig where
  gatewayIsd : IsdId
  gatewayAs : AsId
  gatewayPubkey : List UInt8
  trc : TrustRootConfig

@[ext] structure IpPacket where
  sourceIp : BitVec 128
  destIp : BitVec 128
  payload : List UInt8
deriving DecidableEq

@[ext] structure GatewayEnvelope where
  ipPacket : IpPacket
  scionPath : Path
  createdAt : UInt64
deriving DecidableEq

structure GatewayResponse where
  requestDigest : Bytes32
  responsePayload : List UInt8
  gatewaySignature : List UInt8
  createdAt : UInt64
deriving DecidableEq

inductive GatewayError where
  | pathVerificationFailed (e : ScionError)
  | malformedGatewayKey
  | digestMismatch
  | invalidSignature
  | malformedSignature
deriving DecidableEq

/-- The hashes of the path with SHA3 and ML-DSA-65. -/
structure GatewayCrypto extends PathCrypto where
  sha3 : List UInt8 → Bytes32
  publicKeyFromBytes : List UInt8 → Bool
  signatureFromBytes : List UInt8 → Bool
  verify : Bytes32 → List UInt8 → List UInt8 → Bool

/-! ## The program -/

/-- What `sha3_256_domain` hashes: the length of the tag, the tag, the data. -/
def domainBytes (tag data : List UInt8) : List UInt8 := beBytes 4 tag.length ++ tag ++ data

/-- What the digest of an envelope is taken of; `payload.len() as u32` and `hops.len() as u32`
    truncate. -/
def GatewayEnvelope.preimage (e : GatewayEnvelope) : List UInt8 :=
  domainBytes (asciiBytes "SUWAPPU-GATEWAY-ENV-V1")
    (beBytes 16 e.ipPacket.sourceIp.toNat ++ beBytes 16 e.ipPacket.destIp.toNat
      ++ beBytes 4 (e.ipPacket.payload.length % 2 ^ 32) ++ e.ipPacket.payload
      ++ beBytes 2 e.scionPath.isd.toNat ++ beBytes 8 e.scionPath.createdAt.toNat
      ++ beBytes 4 (e.scionPath.hops.length % 2 ^ 32)
      ++ e.scionPath.hops.flatMap (fun hop => beBytes 16 hop.mac.toNat) ++ beBytes 8 e.createdAt.toNat)

section Program

variable (C : GatewayCrypto)

def GatewayEnvelope.canonicalDigest (e : GatewayEnvelope) : Bytes32 := C.sha3 e.preimage

def responseSigningDigest (requestDigest : Bytes32) (responsePayload : List UInt8) (createdAt : UInt64) :
    Bytes32 :=
  C.sha3 (domainBytes (asciiBytes "SUWAPPU-GATEWAY-RESP-V1")
    (beBytes 32 requestDigest.toNat ++ beBytes 4 (responsePayload.length % 2 ^ 32) ++ responsePayload
      ++ beBytes 8 createdAt.toNat))

def verifyResponse (config : GatewayConfig) (envelope : GatewayEnvelope) (response : GatewayResponse)
    (now : UInt64) : Except GatewayError Unit :=
  match verifyPath C.toPathCrypto envelope.scionPath config.trc now with
  | .error e => .error (.pathVerificationFailed e)
  | .ok () =>
    if envelope.canonicalDigest C ≠ response.requestDigest then .error .digestMismatch
    else if !C.publicKeyFromBytes config.gatewayPubkey then .error .malformedGatewayKey
    else if !C.signatureFromBytes response.gatewaySignature then .error .malformedSignature
    else if C.verify (responseSigningDigest C response.requestDigest response.responsePayload
        response.createdAt) response.gatewaySignature config.gatewayPubkey then .ok ()
    else .error .invalidSignature

end Program

/-! ## The digest -/

theorem beBytes_bitVec_inj {k : Nat} {x y : BitVec (8 * k)}
    (h : beBytes k x.toNat = beBytes k y.toNat) : x = y := by
  have hpow : 2 ^ (8 * k) = 256 ^ k := by rw [pow_mul]; norm_num
  exact BitVec.eq_of_toNat_eq (beBytes_inj (hpow ▸ x.isLt) (hpow ▸ y.isLt) h)

theorem beBytes_u16_inj {x y : UInt16} (h : beBytes 2 x.toNat = beBytes 2 y.toNat) : x = y :=
  UInt16.toNat_inj.mp (beBytes_inj (by have := x.toNat_lt; omega) (by have := y.toNat_lt; omega) h)

theorem beBytes_u64_inj {x y : UInt64} (h : beBytes 8 x.toNat = beBytes 8 y.toNat) : x = y :=
  UInt64.toNat_inj.mp (beBytes_inj (by have := x.toNat_lt; omega) (by have := y.toNat_lt; omega) h)

theorem length_flatMap_macs (hops : List HopField) :
    (hops.flatMap fun hop => beBytes 16 hop.mac.toNat).length = 16 * hops.length := by
  induction hops with
  | nil => rfl
  | cons hop hops ih => simp [ih]; omega

theorem macs_inj : ∀ {hops hops' : List HopField}, hops.length = hops'.length →
    (hops.flatMap fun hop => beBytes 16 hop.mac.toNat) =
      (hops'.flatMap fun hop => beBytes 16 hop.mac.toNat) →
    hops.map (·.mac) = hops'.map (·.mac) := by
  intro hops
  induction hops with
  | nil => intro hops' hlen _; rw [List.eq_nil_of_length_eq_zero hlen.symm]
  | cons hop hops ih =>
    intro hops' hlen h
    cases hops' with
    | nil => simp at hlen
    | cons hop' hops' =>
      simp only [List.flatMap_cons] at h
      obtain ⟨hhead, htail⟩ := List.append_inj h (by simp)
      rw [List.map_cons, List.map_cons, beBytes_bitVec_inj (k := 16) hhead, ih (by simpa using hlen) htail]

/-- **What the digest covers**, for payloads below 4 GiB. -/
theorem preimage_inj {e₁ e₂ : GatewayEnvelope} (hlen₁ : e₁.ipPacket.payload.length < 2 ^ 32)
    (hlen₂ : e₂.ipPacket.payload.length < 2 ^ 32) (h : e₁.preimage = e₂.preimage) :
    e₁.ipPacket = e₂.ipPacket ∧ e₁.createdAt = e₂.createdAt ∧
    e₁.scionPath.isd = e₂.scionPath.isd ∧ e₁.scionPath.createdAt = e₂.scionPath.createdAt ∧
    e₁.scionPath.hops.map (·.mac) = e₂.scionPath.hops.map (·.mac) := by
  -- from the left up to the payload every cut falls at a known length
  obtain ⟨-, h⟩ := List.append_inj h rfl
  simp only [List.append_assoc] at h
  obtain ⟨hsource, h⟩ := List.append_inj h (by simp only [length_beBytes])
  obtain ⟨hdest, h⟩ := List.append_inj h (by simp only [length_beBytes])
  obtain ⟨hcount, h⟩ := List.append_inj h (by simp only [length_beBytes])
  have hlen : e₁.ipPacket.payload.length = e₂.ipPacket.payload.length := by
    have := beBytes_inj (by omega) (by omega) hcount
    omega
  obtain ⟨hpayload, h⟩ := List.append_inj h hlen
  obtain ⟨hisd, h⟩ := List.append_inj h (by simp only [length_beBytes])
  obtain ⟨hcreated, h⟩ := List.append_inj h (by simp only [length_beBytes])
  obtain ⟨-, h⟩ := List.append_inj h (by simp only [length_beBytes])
  -- the number of hops is fixed by what is left
  have hhops : e₁.scionPath.hops.length = e₂.scionPath.hops.length := by
    have := congrArg List.length h
    simp only [List.length_append, length_flatMap_macs, length_beBytes] at this
    omega
  obtain ⟨hmacs, hat⟩ := List.append_inj h (by rw [length_flatMap_macs, length_flatMap_macs, hhops])
  have hpacket : e₁.ipPacket = e₂.ipPacket :=
    IpPacket.ext (beBytes_bitVec_inj (k := 16) hsource) (beBytes_bitVec_inj (k := 16) hdest) hpayload
  exact ⟨hpacket, beBytes_u64_inj hat, beBytes_u16_inj hisd, beBytes_u64_inj hcreated,
    macs_inj hhops hmacs⟩

/-! ## The chain -/

/-- The keys and messages of the MACs along a list of hops. -/
def macInputs (trc : TrustRootConfig) : HopMac → List HopField → List (Bytes32 × List UInt8)
  | _, [] => []
  | prev, hop :: rest =>
    (trc.asKeys[hop.isdAs.2]?).toList.map (fun key => (key, hopMessage prev hop)) ++
      macInputs trc hop.mac rest

/-- The MACs that `verify_path` computes for a path are taken of these. -/
def Path.macInputs (C : PathCrypto) (trc : TrustRootConfig) (path : Path) : List (Bytes32 × List UInt8) :=
  Transport.macInputs trc (pathSeedMac C path) path.hops

/-- The keyed hop MAC of a key and a message. -/
def macOf (C : PathCrypto) (input : Bytes32 × List UInt8) : HopMac :=
  truncate (C.blake3Keyed input.1 input.2)

/-- No two ASes have the same key. -/
def TrustRootConfig.KeysDistinct (trc : TrustRootConfig) : Prop :=
  ∀ (a b : AsId) key, trc.asKeys[a]? = some key → trc.asKeys[b]? = some key → a = b

theorem hopMessage_inj {prev prev' : HopMac} {hop hop' : HopField}
    (h : hopMessage prev hop = hopMessage prev' hop') :
    hop.ingressIface = hop'.ingressIface ∧ hop.egressIface = hop'.egressIface ∧
      hop.expirationRound = hop'.expirationRound := by
  obtain ⟨h, hexp⟩ := List.append_inj h (by simp only [List.length_append, length_beBytes])
  obtain ⟨h, hegress⟩ := List.append_inj h (by simp only [List.length_append, length_beBytes])
  obtain ⟨-, hingress⟩ := List.append_inj h (by simp only [length_beBytes])
  exact ⟨beBytes_u16_inj hingress, beBytes_u16_inj hegress, beBytes_u64_inj hexp⟩

/-- **Along two chains from one MAC with the same MACs** the hops agree, but for their ISDs. -/
theorem hops_eq_of_chained {C : PathCrypto} {trc : TrustRootConfig} (hkeys : trc.KeysDistinct)
    {hops₁ : List HopField} : ∀ {hops₂ : List HopField} {prev : HopMac},
    Chained C trc prev hops₁ → Chained C trc prev hops₂ →
    hops₁.map (·.mac) = hops₂.map (·.mac) →
    (∀ x ∈ macInputs trc prev hops₁, ∀ y ∈ macInputs trc prev hops₂, macOf C x = macOf C y → x = y) →
    hops₁.map (·.isdAs.1) = hops₂.map (·.isdAs.1) → hops₁ = hops₂ := by
  induction hops₁ with
  | nil =>
    intro hops₂ prev _ _ hmacs _ _
    exact (List.map_eq_nil_iff.mp hmacs.symm).symm
  | cons hop₁ rest₁ ih =>
    intro hops₂ prev hchain₁ hchain₂ hmacs hinj hisds
    cases hops₂ with
    | nil => simp at hmacs
    | cons hop₂ rest₂ =>
      obtain ⟨hmac, hrestMacs⟩ := List.cons.inj hmacs
      obtain ⟨hisd, hrestIsds⟩ := List.cons.inj hisds
      obtain ⟨⟨key₁, hkey₁, hmac₁⟩, hchain₁⟩ := hchain₁
      obtain ⟨⟨key₂, hkey₂, hmac₂⟩, hchain₂⟩ := hchain₂
      have hmac : hop₁.mac = hop₂.mac := hmac
      have hinput : (key₁, hopMessage prev hop₁) = (key₂, hopMessage prev hop₂) := by
        refine hinj _ (List.mem_append_left _ ?_) _ (List.mem_append_left _ ?_) ?_
        · rw [hkey₁]; exact List.mem_cons_self
        · rw [hkey₂]; exact List.mem_cons_self
        · exact hmac₁.trans (hmac.trans hmac₂.symm)
      obtain ⟨hkey, hmessage⟩ := Prod.mk.inj hinput
      have has : hop₁.isdAs.2 = hop₂.isdAs.2 := hkeys _ _ key₁ hkey₁ (hkey ▸ hkey₂)
      obtain ⟨hingress, hegress, hexp⟩ := hopMessage_inj hmessage
      have hhop : hop₁ = hop₂ := HopField.ext (Prod.ext hisd has) hingress hegress hexp hmac
      subst hhop
      refine congrArg (hop₁ :: ·) (ih hchain₁ hchain₂ hrestMacs (fun x hx y hy => ?_) hrestIsds)
      exact hinj x (List.mem_append_right _ hx) y (List.mem_append_right _ hy)

/-! ## Responses -/

theorem verifyResponse_ok_iff {C : GatewayCrypto} {config : GatewayConfig} {envelope : GatewayEnvelope}
    {response : GatewayResponse} {now : UInt64} :
    verifyResponse C config envelope response now = .ok () ↔
      verifyPath C.toPathCrypto envelope.scionPath config.trc now = .ok () ∧
      envelope.canonicalDigest C = response.requestDigest ∧
      C.publicKeyFromBytes config.gatewayPubkey = true ∧
      C.signatureFromBytes response.gatewaySignature = true ∧
      C.verify (responseSigningDigest C response.requestDigest response.responsePayload
        response.createdAt) response.gatewaySignature config.gatewayPubkey = true := by
  rw [verifyResponse]
  cases verifyPath C.toPathCrypto envelope.scionPath config.trc now with
  | error e => simp
  | ok u =>
    by_cases hdigest : envelope.canonicalDigest C = response.requestDigest
    swap
    · simp [hdigest]
    cases hkey : C.publicKeyFromBytes config.gatewayPubkey
    · simp [hdigest]
    cases hsig : C.signatureFromBytes response.gatewaySignature
    · simp [hdigest]
    · simp [hdigest]

/-- **What one response binds**: two envelopes accepted with it, where SHA3 and the hop MAC do not
    collide on them and AS keys are distinct, are the same exactly if their hops name the same ISDs. -/
theorem envelope_eq_iff {C : GatewayCrypto} {config : GatewayConfig} {response : GatewayResponse}
    {now : UInt64} {e₁ e₂ : GatewayEnvelope}
    (h₁ : verifyResponse C config e₁ response now = .ok ())
    (h₂ : verifyResponse C config e₂ response now = .ok ())
    (hsha : C.sha3 e₁.preimage = C.sha3 e₂.preimage → e₁.preimage = e₂.preimage)
    (hmac : ∀ x ∈ e₁.scionPath.macInputs C.toPathCrypto config.trc,
      ∀ y ∈ e₂.scionPath.macInputs C.toPathCrypto config.trc,
      macOf C.toPathCrypto x = macOf C.toPathCrypto y → x = y)
    (hkeys : config.trc.KeysDistinct) (hlen₁ : e₁.ipPacket.payload.length < 2 ^ 32)
    (hlen₂ : e₂.ipPacket.payload.length < 2 ^ 32) :
    e₁ = e₂ ↔
      e₁.scionPath.hops.map (·.isdAs.1) = e₂.scionPath.hops.map (·.isdAs.1) := by
  refine ⟨fun h => by rw [h], fun hisds => ?_⟩
  obtain ⟨hpath₁, hdigest₁, -⟩ := verifyResponse_ok_iff.mp h₁
  obtain ⟨hpath₂, hdigest₂, -⟩ := verifyResponse_ok_iff.mp h₂
  obtain ⟨hpacket, hat, hisd, hcreated, hmacs⟩ :=
    preimage_inj hlen₁ hlen₂ (hsha (hdigest₁.trans hdigest₂.symm))
  obtain ⟨-, -, -, -, hchain₁⟩ := verifyPath_ok_iff_chained.mp hpath₁
  obtain ⟨-, -, -, -, hchain₂⟩ := verifyPath_ok_iff_chained.mp hpath₂
  have hseed : pathSeedMac C.toPathCrypto e₁.scionPath = pathSeedMac C.toPathCrypto e₂.scionPath := by
    rw [pathSeedMac, pathSeedMac, hisd, hcreated]
  unfold Path.macInputs at hmac
  rw [hseed] at hchain₁ hmac
  have hhops := hops_eq_of_chained hkeys hchain₁ hchain₂ hmacs hmac hisds
  exact GatewayEnvelope.ext hpacket (Path.ext hisd hhops hcreated) hat

/-! ## An envelope relabelled in transit -/

theorem keysDistinct_of_nodup {trc : TrustRootConfig} (h : (trc.asKeys.toList.map Prod.snd).Nodup) :
    trc.KeysDistinct := by
  intro a b key ha hb
  have hpair := List.inj_on_of_nodup_map h (ExtTreeMap.mem_toList_iff_getElem?_eq_some.mpr ha)
    (ExtTreeMap.mem_toList_iff_getElem?_eq_some.mpr hb) rfl
  exact congrArg Prod.fst hpair

/-- BLAKE3 stands in for the keyed hash and for SHA3; a signature spells out its key and message. -/
def spelledCrypto : GatewayCrypto where
  blake3 := Blake3.hash
  blake3Keyed key message := Blake3.hash (beBytes 32 key.toNat ++ message)
  sha3 := Blake3.hash
  publicKeyFromBytes publicKey := publicKey.length = 4
  signatureFromBytes signature := signature.length = 36
  verify digest signature publicKey := signature = publicKey ++ beBytes 32 digest.toNat

def twoAses : TrustRootConfig :=
  ⟨1, 0, ExtTreeMap.ofList ([(7, 0x77#256), (8, 0x88#256)] : List (AsId × Bytes32)), 100⟩

def meshGateway : GatewayConfig := ⟨1, 7, [1, 2, 3, 4], twoAses⟩

/-- From AS 7 to AS 8, sealed. -/
def meshPath : Path :=
  match sealPath spelledCrypto.toPathCrypto 1 3 [⟨(1, 7), 0, 1, 50, 0⟩, ⟨(1, 8), 2, 0, 60, 0⟩] twoAses with
  | .ok path => path
  | .error _ => ⟨1, [], 3⟩

def request : GatewayEnvelope := ⟨⟨0x0a000001#128, 0x0a000002#128, [1, 2, 3]⟩, meshPath, 5⟩

/-- The same envelope, with every hop moved to the ISD 9. -/
def relabelled : GatewayEnvelope :=
  { request with scionPath := { meshPath with
      hops := meshPath.hops.map fun hop => { hop with isdAs := (9, hop.isdAs.2) } } }

def signedReply : GatewayResponse :=
  let digest := request.canonicalDigest spelledCrypto
  ⟨digest, [42], meshGateway.gatewayPubkey ++
    beBytes 32 (responseSigningDigest spelledCrypto digest [42] 6).toNat, 6⟩

/-- The hop MACs of the two paths do not collide. -/
theorem relabelled_macs_apart : ∀ x ∈ request.scionPath.macInputs spelledCrypto.toPathCrypto twoAses,
    ∀ y ∈ relabelled.scionPath.macInputs spelledCrypto.toPathCrypto twoAses,
    macOf spelledCrypto.toPathCrypto x = macOf spelledCrypto.toPathCrypto y → x = y := by
  decide +kernel

theorem envelope_eq_iff_relabelled :
    request = relabelled ↔
      request.scionPath.hops.map (·.isdAs.1) = relabelled.scionPath.hops.map (·.isdAs.1) := by
  have h₁ : verifyResponse spelledCrypto meshGateway request signedReply 10 = .ok () := by decide +kernel
  have h₂ : verifyResponse spelledCrypto meshGateway relabelled signedReply 10 = .ok () := by
    decide +kernel
  exact envelope_eq_iff h₁ h₂ (fun _ => by decide +kernel) relabelled_macs_apart
    (keysDistinct_of_nodup (by decide +kernel)) (by decide) (by decide)

/-- **A tampered envelope is accepted**: the reply to the request verifies with the relabelled envelope,
    although no hash or MAC collides and the keys are distinct. -/
theorem relabelled_accepted :
    verifyResponse spelledCrypto meshGateway request signedReply 10 = .ok () ∧
    verifyResponse spelledCrypto meshGateway relabelled signedReply 10 = .ok () ∧
    request ≠ relabelled ∧
    (∀ x ∈ request.scionPath.macInputs spelledCrypto.toPathCrypto twoAses,
      ∀ y ∈ relabelled.scionPath.macInputs spelledCrypto.toPathCrypto twoAses,
      macOf spelledCrypto.toPathCrypto x = macOf spelledCrypto.toPathCrypto y → x = y) ∧
    (twoAses.asKeys.toList.map Prod.snd).Nodup ∧ request.preimage = relabelled.preimage := by
  refine ⟨?_, ?_, ?_, relabelled_macs_apart, ?_, ?_⟩
  all_goals decide +kernel

end SuwappuDag.Transport
