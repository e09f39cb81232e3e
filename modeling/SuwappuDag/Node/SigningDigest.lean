/-
  WHAT A SIGNATURE IS BOUND TO (`intent_signing_digest` and `verify_single_signature` of `client.rs`).

  The digest hashes tag, network id and encoded intent in a row, with no length between them.  The tag
  is fixed and the encoding delimits itself from the front, but the id is free text: where one id is
  another id followed by some bytes that an encoding can START with, the two readings of one string
  meet.

  1. **Gaps** — `Gap g`: an encoded intent is `g` followed by another encoded intent.
  2. **Ambiguous ids** — `Ambiguous n₁ n₂`: one id is the other one followed by a gap.
  3. **Binding** — equal digests mean equal ids and equal intents EXACTLY for the pairs of ids that are
     not ambiguous; for these a signature that is accepted on one network is accepted on no other, and
     for ambiguous ones there are two intents whose signatures can be swapped.  A gap starts with a
     variant index, a byte below 32, so ids without control characters are never ambiguous.

  BLAKE3 is asked for no collision between the two strings that are compared, and nothing else.
-/
import SuwappuDag.Node.Bincode
import SuwappuDag.Node.Scheme

namespace SuwappuDag.Node

open Words Consensus Execution

/-! ## Ids and gaps -/

/-- `network_id.as_bytes()`. -/
def networkBytes (networkId : String) : List UInt8 := networkId.toByteArray.data.toList

theorem networkBytes_inj {n₁ n₂ : String} (h : networkBytes n₁ = networkBytes n₂) : n₁ = n₂ :=
  String.toByteArray_inj.mp (ByteArray.ext (Array.toList_inj.mp h))

/-- The bytes that are hashed. -/
def signingPreimage (networkId : String) (intent : Intent) : List UInt8 :=
  asciiBytes "SUWAPPU_INTENT_V1" ++ networkBytes networkId ++ encodeIntent intent

/-- Some encoded intent is `g` followed by another encoded intent. -/
def Gap (g : List UInt8) : Prop :=
  g ≠ [] ∧ ∃ intent intent', Fits intent ∧ Fits intent' ∧ encodeIntent intent = g ++ encodeIntent intent'

/-- One id is the other one and a gap. -/
def Ambiguous (n₁ n₂ : String) : Prop :=
  ∃ g, Gap g ∧ (networkBytes n₂ = networkBytes n₁ ++ g ∨ networkBytes n₁ = networkBytes n₂ ++ g)

theorem Ambiguous.ne {n₁ n₂ : String} (h : Ambiguous n₁ n₂) : n₁ ≠ n₂ := by
  rintro rfl
  obtain ⟨g, ⟨hg, -⟩, heq | heq⟩ := h
  all_goals exact hg (List.append_right_eq_self.mp heq.symm)

/-- Ambiguous ids have intents with one preimage. -/
theorem Ambiguous.preimage {n₁ n₂ : String} (h : Ambiguous n₁ n₂) :
    ∃ i₁ i₂, Fits i₁ ∧ Fits i₂ ∧ signingPreimage n₁ i₁ = signingPreimage n₂ i₂ := by
  obtain ⟨g, ⟨-, i, j, hi, hj, henc⟩, hnet | hnet⟩ := h
  · refine ⟨i, j, hi, hj, ?_⟩
    simp only [signingPreimage, hnet, henc, List.append_assoc]
  · refine ⟨j, i, hj, hi, ?_⟩
    simp only [signingPreimage, hnet, henc, List.append_assoc]

/-- One preimage, read in two ways: the same id and the same intent, or a gap between the ids. -/
theorem eq_or_ambiguous_of_preimage {n₁ n₂ : String} {i₁ i₂ : Intent} (h₁ : Fits i₁) (h₂ : Fits i₂)
    (h : signingPreimage n₁ i₁ = signingPreimage n₂ i₂) : (n₁ = n₂ ∧ i₁ = i₂) ∨ Ambiguous n₁ n₂ := by
  simp only [signingPreimage, List.append_assoc, List.append_cancel_left_eq] at h
  rcases List.append_eq_append_iff.mp h with ⟨g, hnet, henc⟩ | ⟨g, hnet, henc⟩
  · by_cases hg : g = []
    · subst hg
      rw [List.append_nil] at hnet
      exact .inl ⟨(networkBytes_inj hnet).symm, encodeIntent_inj h₁ h₂ henc⟩
    · exact .inr ⟨g, ⟨hg, i₁, i₂, h₁, h₂, henc⟩, .inl hnet⟩
  · by_cases hg : g = []
    · subst hg
      rw [List.append_nil] at hnet
      exact .inl ⟨networkBytes_inj hnet, (encodeIntent_inj h₂ h₁ henc).symm⟩
    · exact .inr ⟨g, ⟨hg, i₂, i₁, h₂, h₁, henc⟩, .inr hnet⟩

/-! ## Printable ids -/

/-- An encoded intent starts with its variant index, least significant byte first. -/
theorem encodeIntent_head (intent : Intent) : ∃ b rest, encodeIntent intent = b :: rest ∧ b < 32 := by
  cases intent <;> exact ⟨_, _, rfl, by decide⟩

theorem Gap.head_lt {g : List UInt8} (h : Gap g) : ∃ b ∈ g, b < 32 := by
  obtain ⟨hne, intent, _, -, -, henc⟩ := h
  obtain ⟨b, rest, hhead, hlt⟩ := encodeIntent_head intent
  cases g with
  | nil => exact absurd rfl hne
  | cons c g =>
    rw [hhead, List.cons_append, List.cons.injEq] at henc
    exact ⟨c, List.mem_cons_self, henc.1 ▸ hlt⟩

/-- No id of ordinary text is in doubt. -/
theorem not_ambiguous_of_printable {n₁ n₂ : String} (h₁ : ∀ b ∈ networkBytes n₁, 32 ≤ b)
    (h₂ : ∀ b ∈ networkBytes n₂, 32 ≤ b) : ¬ Ambiguous n₁ n₂ := by
  rintro ⟨g, hgap, hnet⟩
  obtain ⟨b, hb, hlt⟩ := hgap.head_lt
  rcases hnet with hnet | hnet
  · exact absurd hlt (UInt8.not_lt.mpr (h₂ b (hnet ▸ List.mem_append_right _ hb)))
  · exact absurd hlt (UInt8.not_lt.mpr (h₁ b (hnet ▸ List.mem_append_right _ hb)))

/-! ## Binding -/

section Binding

variable (C : Crypto)

/-- BLAKE3 tells the two preimages apart. -/
def PreimagesApart (n₁ n₂ : String) (i₁ i₂ : Intent) : Prop :=
  C.blake3 (signingPreimage n₁ i₁) = C.blake3 (signingPreimage n₂ i₂) →
    signingPreimage n₁ i₁ = signingPreimage n₂ i₂

/-- Equal digests mean equal ids and equal intents. -/
def DigestsBind (n₁ n₂ : String) : Prop :=
  ∀ i₁ i₂, Fits i₁ → Fits i₂ → PreimagesApart C n₁ n₂ i₁ i₂ →
    intentSigningDigest C (networkBytes n₁) i₁ = intentSigningDigest C (networkBytes n₂) i₂ →
    n₁ = n₂ ∧ i₁ = i₂

/-- The bytes are a signature of at most one message, under all keys together. -/
def SignsOnce (signature : List UInt8) : Prop :=
  ∀ m₁ m₂ k₁ k₂, C.publicKeyFromBytes k₁ = true → C.publicKeyFromBytes k₂ = true →
    C.verify m₁ signature k₁ = true → C.verify m₂ signature k₂ = true → m₁ = m₂

/-- A signature accepted for an intent on one network is accepted for no other on either, whoever is
    seated there. -/
def SignaturesBind (n₁ n₂ : String) : Prop :=
  ∀ i₁ i₂, Fits i₁ → Fits i₂ → PreimagesApart C n₁ n₂ i₁ i₂ →
    ∀ registry₁ registry₂ signature signer₁ signer₂, SignsOnce C signature →
    verifySingleSignature C registry₁ (networkBytes n₁) i₁ signature signer₁ = .ok →
    verifySingleSignature C registry₂ (networkBytes n₂) i₂ signature signer₂ = .ok →
    n₁ = n₂ ∧ i₁ = i₂

variable {C}

/-- What an accepted signature signs. -/
theorem verify_of_ok {registry : AuthorityRegistry} {networkId : List UInt8} {intent : Intent}
    {signature : List UInt8} {signer : Bytes32}
    (h : verifySingleSignature C registry networkId intent signature signer = .ok) :
    ∃ key, C.publicKeyFromBytes key = true ∧
      C.verify (beBytes 32 (intentSigningDigest C networkId intent).toNat) signature key = true := by
  unfold verifySingleSignature at h
  split at h
  · cases h
  next key _ =>
    split at h
    · cases h
    next hparses =>
    split at h
    · cases h
    split at h
    next hverify => exact ⟨key, by simpa using hparses, hverify⟩
    · cases h

theorem verifySingleSignature_congr {n₁ n₂ : String} {i₁ i₂ : Intent}
    (h : signingPreimage n₁ i₁ = signingPreimage n₂ i₂) (registry : AuthorityRegistry)
    (signature : List UInt8) (signer : Bytes32) :
    verifySingleSignature C registry (networkBytes n₁) i₁ signature signer =
      verifySingleSignature C registry (networkBytes n₂) i₂ signature signer := by
  have hdigest : intentSigningDigest C (networkBytes n₁) i₁ = intentSigningDigest C (networkBytes n₂) i₂ :=
    congrArg C.blake3 h
  simp only [verifySingleSignature, hdigest]

/-- **Binding.**  Digests bind exactly where the ids are not ambiguous.  There signatures bind as well;
    elsewhere two different networks have intents that every signature fits alike. -/
theorem signing_digest_binds_iff (C : Crypto) (n₁ n₂ : String) :
    (DigestsBind C n₁ n₂ ↔ ¬ Ambiguous n₁ n₂) ∧ (¬ Ambiguous n₁ n₂ → SignaturesBind C n₁ n₂) ∧
    (Ambiguous n₁ n₂ → n₁ ≠ n₂ ∧ ∃ i₁ i₂, Fits i₁ ∧ Fits i₂ ∧
      ∀ registry signature signer,
        verifySingleSignature C registry (networkBytes n₁) i₁ signature signer =
          verifySingleSignature C registry (networkBytes n₂) i₂ signature signer) := by
  have hbind : ¬ Ambiguous n₁ n₂ → DigestsBind C n₁ n₂ := by
    intro hclear i₁ i₂ h₁ h₂ hfree hdigest
    exact (eq_or_ambiguous_of_preimage h₁ h₂ (hfree hdigest)).resolve_right hclear
  refine ⟨⟨?_, hbind⟩, ?_, ?_⟩
  · intro hbinds hambiguous
    obtain ⟨i₁, i₂, h₁, h₂, hpre⟩ := hambiguous.preimage
    exact hambiguous.ne (hbinds i₁ i₂ h₁ h₂ (fun _ => hpre) (congrArg C.blake3 hpre)).1
  · intro hclear i₁ i₂ h₁ h₂ hfree registry₁ registry₂ signature signer₁ signer₂ honce hok₁ hok₂
    obtain ⟨key₁, hparses₁, hverify₁⟩ := verify_of_ok hok₁
    obtain ⟨key₂, hparses₂, hverify₂⟩ := verify_of_ok hok₂
    have hbytes := honce _ _ key₁ key₂ hparses₁ hparses₂ hverify₁ hverify₂
    have hdigest := BitVec.eq_of_toNat_eq (beBytes_inj (by simpa using BitVec.isLt _)
      (by simpa using BitVec.isLt _) hbytes)
    exact hbind hclear i₁ i₂ h₁ h₂ hfree hdigest
  · intro hambiguous
    obtain ⟨i₁, i₂, h₁, h₂, hpre⟩ := hambiguous.preimage
    exact ⟨hambiguous.ne, i₁, i₂, h₁, h₂, verifySingleSignature_congr hpre⟩

end Binding

/-- **Printable ids bind**: where neither id has a control character, equal digests are of one id and
    one intent. -/
theorem printable_ids_bind (C : Crypto) {n₁ n₂ : String} (h₁ : ∀ b ∈ networkBytes n₁, 32 ≤ b)
    (h₂ : ∀ b ∈ networkBytes n₂, 32 ≤ b) : DigestsBind C n₁ n₂ := by
  intro i₁ i₂ hfits₁ hfits₂ hapart hdigest
  exact (eq_or_ambiguous_of_preimage hfits₁ hfits₂ (hapart hdigest)).resolve_right
    (not_ambiguous_of_printable h₁ h₂)

/-- Of the two networks below, the second is not printable; these are. -/
theorem printable_ids_bind_testnet : DigestsBind briefScheme "suwappu-testnet" "suwappu-testnet2" :=
  printable_ids_bind briefScheme (by decide +kernel) (by decide +kernel)

/-! ## One signature, two networks -/

/-- 27 is the variant index of this intent. -/
def blobIntent : Intent := .postL2DA 0 (List.replicate 25 7 ++ 9 :: List.replicate 15 0)

/-- The same bytes without the first one. -/
def paymentIntent : Intent :=
  .transfer 0x0000000000000029000000000000000707070707#160
    0x0707070707070707070707070707070707070707#160 9

/-- **A signature is replayed**: what authority 0 signs as a data blob on `suwappu-testnet` is accepted
    as a transfer on the network with one more character in its id. -/
theorem blob_signature_pays_elsewhere :
    let registry := (State.new briefScheme briefManifest 0).committee.authorityRegistry
    let n₁ := "suwappu-testnet"
    let n₂ := "suwappu-testnet\x1b"
    let signature := briefKey 0 ++
      beBytes 32 (intentSigningDigest briefScheme (networkBytes n₁) blobIntent).toNat
    n₁ ≠ n₂ ∧ blobIntent ≠ paymentIntent ∧ Fits blobIntent ∧ Fits paymentIntent ∧
      encodeIntent blobIntent = [27] ++ encodeIntent paymentIntent ∧
      intentSigningDigest briefScheme (networkBytes n₁) blobIntent =
        intentSigningDigest briefScheme (networkBytes n₂) paymentIntent ∧
      verifySingleSignature briefScheme registry (networkBytes n₁) blobIntent signature
        (Blake3.hash (briefKey 0)) = .ok ∧
      verifySingleSignature briefScheme registry (networkBytes n₂) paymentIntent signature
        (Blake3.hash (briefKey 0)) = .ok := by
  decide +kernel

end SuwappuDag.Node
