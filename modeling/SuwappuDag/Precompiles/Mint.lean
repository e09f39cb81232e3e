/-
  MINT QUORUMS (`suwappu-mldsa-precompile/src/lib.rs`).

  1. **Program** — `verify` cuts a flat input into key, signature and message; `verifyMintQuorum` runs
     over a list of signers and counts an index once it has brought a valid signature.
  2. **Specification** — the SET of the indices that bring one: how often and in which order they stand
     in the list, and what invalid entries stand between them, does not matter.
  3. **Crux (`mem_countSigners`)** — an entry is skipped only when its index is counted already, so the
     entries behind it can add the index or find it there, to the same effect.
-/
import Mathlib.Data.Finset.Card
import SuwappuDag.Lib.Layout

namespace SuwappuDag.Precompiles

open Words Layout

/-- ML-DSA-65 over byte strings. -/
structure Mldsa65 where
  /-- `PublicKey::from_bytes` succeeds. -/
  publicKeyFromBytes : List UInt8 → Bool
  /-- `DetachedSignature::from_bytes` succeeds. -/
  signatureFromBytes : List UInt8 → Bool
  /-- `verify_detached_signature(signature, message, public key)` succeeds. -/
  verifyDetachedSignature : List UInt8 → List UInt8 → List UInt8 → Bool

/-! ## The program -/

def pkLen : Nat := 1952

def sigLen : Nat := 3309

def minInputLen : Nat := pkLen + sigLen

def wordTrue : Bytes32 := 1

def wordFalse : Bytes32 := 0

structure MintCommit where
  sourceChain : UInt64
  targetChain : UInt64
  commitId : Bytes32
  amount : BitVec 128
  recipient : List UInt8
deriving DecidableEq

def commitDomain : List UInt8 := asciiBytes "SUWAPPU-MINT-COMMIT-V1"

def MintCommit.canonicalEncoding (commit : MintCommit) : List UInt8 :=
  beBytes 4 commitDomain.length ++ commitDomain ++ beBytes 8 commit.sourceChain.toNat
    ++ beBytes 8 commit.targetChain.toNat ++ beBytes 32 commit.commitId.toNat
    ++ beBytes 16 commit.amount.toNat ++ beBytes 8 commit.recipient.length ++ commit.recipient

structure QuorumSigner where
  index : UInt32
  pubkey : List UInt8
  signature : List UInt8
deriving DecidableEq

section Program

variable (M : Mldsa65)

def verify (input : List UInt8) : Bytes32 :=
  if input.length < minInputLen then wordFalse
  else
    let pk := input.take pkLen
    let sig := (input.drop pkLen).take sigLen
    let message := input.drop minInputLen
    if !M.publicKeyFromBytes pk then wordFalse
    else if !M.signatureFromBytes sig then wordFalse
    else if M.verifyDetachedSignature sig message pk then wordTrue
    else wordFalse

def verifyMintAuthorization (committeePubkey : List UInt8) (commit : MintCommit)
    (signature : List UInt8) : Bool :=
  if committeePubkey.length ≠ pkLen ∨ signature.length ≠ sigLen then false
  else verify M (committeePubkey ++ signature ++ commit.canonicalEncoding) = wordTrue

/-- The loop over the signers; `counted` has the indices counted so far. -/
def countSigners (msg : List UInt8) : List QuorumSigner → List UInt32 → List UInt32
  | [], counted => counted
  | s :: signers, counted =>
    if s.index ∈ counted then countSigners msg signers counted
    else if s.pubkey.length ≠ pkLen ∨ s.signature.length ≠ sigLen then countSigners msg signers counted
    else if verify M (s.pubkey ++ s.signature ++ msg) = wordTrue then
      countSigners msg signers (counted ++ [s.index])
    else countSigners msg signers counted

def verifyMintQuorum (commit : MintCommit) (signers : List QuorumSigner) (threshold : Nat) : Bool :=
  if threshold = 0 then false
  else threshold ≤ (countSigners M commit.canonicalEncoding signers []).length

end Program

/-! ## Who is counted -/

variable {M : Mldsa65} {msg : List UInt8}

/-- The entry has a key and a signature of the right size, and the signature is valid for the message. -/
def QuorumSigner.Signs (M : Mldsa65) (msg : List UInt8) (s : QuorumSigner) : Prop :=
  s.pubkey.length = pkLen ∧ s.signature.length = sigLen ∧ M.publicKeyFromBytes s.pubkey = true ∧
    M.signatureFromBytes s.signature = true ∧ M.verifyDetachedSignature s.signature msg s.pubkey = true

instance (s : QuorumSigner) : Decidable (s.Signs M msg) := by
  unfold QuorumSigner.Signs
  infer_instance

/-- The distinct indices with a valid signature. -/
def signingSlots (M : Mldsa65) (msg : List UInt8) (signers : List QuorumSigner) : Finset UInt32 :=
  ((signers.filter fun s => s.Signs M msg).map QuorumSigner.index).toFinset

/-- The input is cut where it was put together. -/
theorem verify_append {pk sig : List UInt8} (hpk : pk.length = pkLen) (hsig : sig.length = sigLen) :
    verify M (pk ++ sig ++ msg) = wordTrue ↔ M.publicKeyFromBytes pk = true ∧
      M.signatureFromBytes sig = true ∧ M.verifyDetachedSignature sig msg pk = true := by
  have hlen : (pk ++ sig).length = minInputLen := by rw [List.length_append, hpk, hsig]; rfl
  have hlong : ¬ (pk ++ sig ++ msg).length < minInputLen := by rw [List.length_append]; omega
  have htake : (pk ++ sig ++ msg).take pkLen = pk := by
    rw [List.append_assoc, List.take_left' hpk]
  have hdrop : ((pk ++ sig ++ msg).drop pkLen).take sigLen = sig := by
    rw [List.append_assoc, List.drop_left' hpk, List.take_left' hsig]
  have hrest : (pk ++ sig ++ msg).drop minInputLen = msg := List.drop_left' hlen
  unfold verify
  simp only [hlong, htake, hdrop, hrest, if_false]
  cases M.publicKeyFromBytes pk <;> cases M.signatureFromBytes sig <;>
    cases M.verifyDetachedSignature sig msg pk <;> decide

/-- The tests of one entry, in the order of the loop. -/
theorem signs_iff {s : QuorumSigner} : s.Signs M msg ↔
    ¬ (s.pubkey.length ≠ pkLen ∨ s.signature.length ≠ sigLen) ∧
      verify M (s.pubkey ++ s.signature ++ msg) = wordTrue := by
  rw [not_or, not_not, not_not, QuorumSigner.Signs]
  constructor
  · rintro ⟨hpk, hsig, hvalid⟩
    exact ⟨⟨hpk, hsig⟩, (verify_append hpk hsig).mpr hvalid⟩
  · rintro ⟨⟨hpk, hsig⟩, hverify⟩
    exact ⟨hpk, hsig, (verify_append hpk hsig).mp hverify⟩

/-- The gate for a single committee key asks for the same. -/
theorem verifyMintAuthorization_iff {s : QuorumSigner} {commit : MintCommit} :
    verifyMintAuthorization M s.pubkey commit s.signature = true ↔
      s.Signs M commit.canonicalEncoding := by
  rw [signs_iff, verifyMintAuthorization]
  split_ifs with hlen
  · simp [hlen]
  · simp [hlen]

/-- One entry: its index joins if the entry signs, and no index joins twice. -/
theorem countSigners_cons (s : QuorumSigner) (signers : List QuorumSigner) (counted : List UInt32) :
    countSigners M msg (s :: signers) counted = countSigners M msg signers
      (if s.index ∉ counted ∧ s.Signs M msg then counted ++ [s.index] else counted) := by
  rw [countSigners]
  by_cases hin : s.index ∈ counted
  · rw [if_pos hin, if_neg fun h => h.1 hin]
  · rw [if_neg hin]
    by_cases hlen : s.pubkey.length ≠ pkLen ∨ s.signature.length ≠ sigLen
    · rw [if_pos hlen, if_neg fun h => (signs_iff.mp h.2).1 hlen]
    · rw [if_neg hlen]
      by_cases hv : verify M (s.pubkey ++ s.signature ++ msg) = wordTrue
      · rw [if_pos hv, if_pos ⟨hin, signs_iff.mpr ⟨hlen, hv⟩⟩]
      · rw [if_neg hv, if_neg fun h => hv (signs_iff.mp h.2).2]

theorem nodup_countSigners : ∀ (signers : List QuorumSigner) (counted : List UInt32), counted.Nodup →
    (countSigners M msg signers counted).Nodup := by
  intro signers
  induction signers with
  | nil => exact fun _ h => h
  | cons s signers ih =>
    intro counted h
    rw [countSigners_cons]
    apply ih
    split_ifs with hs
    · rw [← List.concat_eq_append]
      exact h.concat hs.1
    · exact h

/-- **What is counted**: what was counted before, and the indices that sign. -/
theorem mem_countSigners : ∀ (signers : List QuorumSigner) (counted : List UInt32) {i : UInt32},
    i ∈ countSigners M msg signers counted ↔ i ∈ counted ∨ i ∈ signingSlots M msg signers := by
  intro signers
  induction signers with
  | nil => simp [countSigners, signingSlots]
  | cons s signers ih =>
    intro counted i
    rw [countSigners_cons, ih]
    have hslots : i ∈ signingSlots M msg (s :: signers) ↔
        i = s.index ∧ s.Signs M msg ∨ i ∈ signingSlots M msg signers := by
      by_cases hs : s.Signs M msg <;> simp [signingSlots, hs]
    rw [hslots]
    by_cases hs : s.index ∉ counted ∧ s.Signs M msg
    · rw [if_pos hs, List.mem_append, List.mem_singleton]
      simp [hs.2, or_assoc]
    · rw [if_neg hs]
      -- an entry that is passed over is counted already or does not sign
      by_cases hin : s.index ∈ counted
      · constructor
        · exact Or.imp_right Or.inr
        · rintro (h | ⟨rfl, -⟩ | h)
          · exact Or.inl h
          · exact Or.inl hin
          · exact Or.inr h
      · have hnot : ¬ s.Signs M msg := fun h => hs ⟨hin, h⟩
        simp [hnot]

theorem length_countSigners (signers : List QuorumSigner) :
    (countSigners M msg signers []).length = (signingSlots M msg signers).card := by
  rw [← List.toFinset_card_of_nodup (nodup_countSigners signers [] List.nodup_nil)]
  congr 1
  ext i
  rw [List.mem_toFinset, mem_countSigners]
  simp

theorem verifyMintQuorum_eq_true_iff {commit : MintCommit} {signers : List QuorumSigner}
    {threshold : Nat} : verifyMintQuorum M commit signers threshold = true ↔
      0 < threshold ∧ threshold ≤ (signingSlots M commit.canonicalEncoding signers).card := by
  unfold verifyMintQuorum
  rw [length_countSigners]
  by_cases h0 : threshold = 0
  · simp [h0]
  · simp [h0, Nat.pos_of_ne_zero h0]

/-- More entries, no fewer slots. -/
theorem signingSlots_mono {signers signers' : List QuorumSigner} (h : signers ⊆ signers') :
    signingSlots M msg signers ⊆ signingSlots M msg signers' := by
  intro i hi
  simp only [signingSlots, List.mem_toFinset, List.mem_map, List.mem_filter] at hi ⊢
  obtain ⟨s, ⟨hs, hsigns⟩, rfl⟩ := hi
  exact ⟨s, ⟨h hs, hsigns⟩, rfl⟩

theorem canonicalEncoding_injective : Function.Injective MintCommit.canonicalEncoding := by
  intro a b h
  simp only [MintCommit.canonicalEncoding, List.append_assoc] at h
  obtain ⟨hsource, h⟩ := u64_append_inj (List.append_cancel_left (List.append_cancel_left h))
  obtain ⟨htarget, h⟩ := u64_append_inj h
  obtain ⟨hid, h⟩ := word_append_inj rfl h
  obtain ⟨hamount, h⟩ := word_append_inj rfl h
  -- the recipient is what is left behind eight bytes, whatever they say
  obtain ⟨-, hrecipient⟩ := List.append_inj h (by rw [length_beBytes, length_beBytes])
  cases a
  cases b
  simp_all

/-- **A mint quorum is a number of slots**: the quorum stands exactly when enough distinct indices bring
    a valid signature over the commit; so it depends on the set of entries alone, survives more
    entries, and is a quorum over the bytes of no other commit. -/
theorem mint_quorum_counts_slots (M : Mldsa65) (commit : MintCommit) (signers : List QuorumSigner)
    (threshold : Nat) :
    (verifyMintQuorum M commit signers threshold = true ↔ 0 < threshold ∧
      threshold ≤ (signingSlots M commit.canonicalEncoding signers).card) ∧
    (∀ signers', signers ⊆ signers' → verifyMintQuorum M commit signers threshold = true →
      verifyMintQuorum M commit signers' threshold = true) ∧
    (∀ signers', (∀ s, s ∈ signers ↔ s ∈ signers') →
      verifyMintQuorum M commit signers threshold = verifyMintQuorum M commit signers' threshold) ∧
    ∀ commit', commit'.canonicalEncoding = commit.canonicalEncoding → commit' = commit := by
  have hmono : ∀ {l l' : List QuorumSigner}, l ⊆ l' → verifyMintQuorum M commit l threshold = true →
      verifyMintQuorum M commit l' threshold = true := by
    intro l l' hsub h
    rw [verifyMintQuorum_eq_true_iff] at h ⊢
    exact ⟨h.1, h.2.trans (Finset.card_le_card (signingSlots_mono hsub))⟩
  refine ⟨verifyMintQuorum_eq_true_iff, fun _ => hmono, fun signers' hsame => ?_,
    fun _ h => canonicalEncoding_injective h⟩
  rw [Bool.eq_iff_iff]
  exact ⟨hmono fun s => (hsame s).mp, hmono fun s => (hsame s).mpr⟩

end SuwappuDag.Precompiles
