/-
  CONFIDENTIAL NOTES (`suwappu-l2-confidential/src/lib.rs`, `suwappu-crypto/src/hash.rs`,
  `suwappu-mldsa-precompile/src/lib.rs`).

  1. **Program** — a note is committed to by a digest of its value, its randomness and its owner's
     key; a nullifier is a digest of the spender's nullifier key, the commitment and the position.
     `commit_note` and `derive_l2_address` insist on the length of the key.
  2. **What the digests bind** — every string that is hashed starts with the length of its tag and the
     tag, and has fields of fixed width behind it, but for the key, which comes last.
  3. **The length is the wrong one** — the crate asks for 1312 bytes.  An ML-DSA-65 key has 1952, as
     the signature precompile and the authority registry know it; so for every key the system
     accepts elsewhere no note can be committed to and no address derived
     (`system_key_refused`).  For keys of 1312 bytes everything holds (`notes_usable_iff`).
-/
import SuwappuDag.Node.Codec

namespace SuwappuDag.L2

open Words Layout
open Node.Bincode (leBytes)

/-- `PK_LEN` of the ML-DSA precompile: the length of an ML-DSA-65 public key. -/
def pkLen : Nat := 1952

/-- The length this crate takes for it. -/
def mlDsa65PublicKeyBytes : Nat := 1312

/-- `sha3_256_domain`: SHA3-256 of the tag behind its length, and the data. -/
def sha3Domain (sha3 : List UInt8 → Bytes32) (tag data : List UInt8) : Bytes32 :=
  sha3 (beBytes 4 tag.length ++ tag ++ data)

def noteCommitTag : List UInt8 := asciiBytes "suwappu-l2-note-commit-v1"

def nullifierTag : List UInt8 := asciiBytes "suwappu-l2-nullifier-v1"

def nfKeyTag : List UInt8 := asciiBytes "suwappu-l2-nf-key-v1"

def addressTag : List UInt8 := asciiBytes "suwappu-l2-address-v1"

structure Note where
  v : UInt64
  r : Bytes32
  pkOwner : List UInt8
  /-- The index of the commitment in the tree. -/
  position : UInt64
deriving DecidableEq

inductive ConfidentialError where
  | badPublicKeyLength (expected got : Nat)
deriving DecidableEq

/-- What a commitment hashes. -/
def Note.opening (note : Note) : List UInt8 :=
  leBytes 8 note.v.toNat ++ beBytes 32 note.r.toNat ++ note.pkOwner

def commitNote (sha3 : List UInt8 → Bytes32) (note : Note) : Except ConfidentialError Bytes32 :=
  if note.pkOwner.length ≠ mlDsa65PublicKeyBytes then
    .error (.badPublicKeyLength mlDsa65PublicKeyBytes note.pkOwner.length)
  else .ok (sha3Domain sha3 noteCommitTag note.opening)

def deriveNullifierKey (sha3 : List UInt8 → Bytes32) (skSeed : Bytes32) : Bytes32 :=
  sha3Domain sha3 nfKeyTag (beBytes 32 skSeed.toNat)

/-- What a nullifier hashes. -/
def spend (nk cm : Bytes32) (position : UInt64) : List UInt8 :=
  beBytes 32 nk.toNat ++ beBytes 32 cm.toNat ++ leBytes 8 position.toNat

def computeNullifier (sha3 : List UInt8 → Bytes32) (nk cm : Bytes32) (position : UInt64) : Bytes32 :=
  sha3Domain sha3 nullifierTag (spend nk cm position)

/-- The first 20 bytes of the digest. -/
def deriveL2Address (sha3 : List UInt8 → Bytes32) (pk : List UInt8) :
    Except ConfidentialError (BitVec 160) :=
  if pk.length ≠ mlDsa65PublicKeyBytes then
    .error (.badPublicKeyLength mlDsa65PublicKeyBytes pk.length)
  else .ok ((sha3Domain sha3 addressTag pk).extractLsb' 96 160)

/-! ## When the calls succeed -/

variable {sha3 : List UInt8 → Bytes32}

theorem commitNote_eq_ok_iff {note : Note} {cm : Bytes32} :
    commitNote sha3 note = .ok cm ↔ note.pkOwner.length = mlDsa65PublicKeyBytes ∧
      cm = sha3Domain sha3 noteCommitTag note.opening := by
  unfold commitNote
  split
  · next hlen => simp [hlen]
  · next hlen =>
    simp only [Except.ok.injEq, not_ne_iff.mp hlen, true_and]
    exact eq_comm

theorem deriveL2Address_ok_iff {pk : List UInt8} :
    (∃ addr, deriveL2Address sha3 pk = .ok addr) ↔ pk.length = mlDsa65PublicKeyBytes := by
  unfold deriveL2Address
  split
  · next hlen => simp [hlen]
  · next hlen => simp [not_ne_iff.mp hlen]

/-! ## What the digests bind -/

theorem leBytes_append_inj {a b : UInt64} {s t : List UInt8}
    (h : leBytes 8 a.toNat ++ s = leBytes 8 b.toNat ++ t) : a = b ∧ s = t := by
  obtain ⟨hbytes, hrest⟩ := List.append_inj h (by simp [leBytes])
  have hbytes := List.reverse_injective hbytes
  exact ⟨UInt64.toNat_inj.mp (beBytes_inj a.toNat_lt b.toNat_lt hbytes), hrest⟩

theorem Note.opening_inj {n n' : Note} (h : n.opening = n'.opening) :
    n.v = n'.v ∧ n.r = n'.r ∧ n.pkOwner = n'.pkOwner := by
  simp only [opening, List.append_assoc] at h
  obtain ⟨hv, h⟩ := leBytes_append_inj h
  obtain ⟨hr, hpk⟩ := word_append_inj (k := 32) rfl h
  exact ⟨hv, hr, hpk⟩

theorem spend_inj {nk nk' cm cm' : Bytes32} {p p' : UInt64} (h : spend nk cm p = spend nk' cm' p') :
    nk = nk' ∧ cm = cm' ∧ p = p' := by
  simp only [spend, List.append_assoc] at h
  obtain ⟨hnk, h⟩ := word_append_inj (k := 32) rfl h
  obtain ⟨hcm, h⟩ := word_append_inj (k := 32) rfl h
  obtain ⟨hp, -⟩ := leBytes_append_inj (s := []) (t := []) (by simpa using h)
  exact ⟨hnk, hcm, hp⟩

/-- Under one tag SHA3-256 tells the two data apart. -/
def Apart (sha3 : List UInt8 → Bytes32) (tag data data' : List UInt8) : Prop :=
  sha3Domain sha3 tag data = sha3Domain sha3 tag data' → data = data'

/-- The three digests of a spend, for two seeds and two notes. -/
structure SpendsApart (sha3 : List UInt8 → Bytes32) (seed seed' : Bytes32) (n n' : Note) : Prop where
  keys : Apart sha3 nfKeyTag (beBytes 32 seed.toNat) (beBytes 32 seed'.toNat)
  openings : Apart sha3 noteCommitTag n.opening n'.opening
  spends : Apart sha3 nullifierTag
    (spend (deriveNullifierKey sha3 seed) (sha3Domain sha3 noteCommitTag n.opening) n.position)
    (spend (deriveNullifierKey sha3 seed') (sha3Domain sha3 noteCommitTag n'.opening) n'.position)

/-- Both owners have an address, both notes a commitment; one commitment is of one value, randomness
    and owner, and one nullifier is of one seed and one note, its position included. -/
structure NotesUsable (sha3 : List UInt8 → Bytes32) (seed seed' : Bytes32) (n n' : Note) : Prop where
  address : ∃ addr, deriveL2Address sha3 n.pkOwner = .ok addr
  address' : ∃ addr, deriveL2Address sha3 n'.pkOwner = .ok addr
  commits : ∃ cm, commitNote sha3 n = .ok cm
  commits' : ∃ cm, commitNote sha3 n' = .ok cm
  binding : ∀ {cm cm'}, commitNote sha3 n = .ok cm → commitNote sha3 n' = .ok cm' → cm = cm' →
    n.v = n'.v ∧ n.r = n'.r ∧ n.pkOwner = n'.pkOwner
  unique : ∀ {cm cm'}, commitNote sha3 n = .ok cm → commitNote sha3 n' = .ok cm' →
    computeNullifier sha3 (deriveNullifierKey sha3 seed) cm n.position =
      computeNullifier sha3 (deriveNullifierKey sha3 seed') cm' n'.position → seed = seed' ∧ n = n'

/-- **When notes are usable**: where SHA3-256 does not collide, iff both owners' keys have 1312
    bytes. -/
theorem notes_usable_iff (seed seed' : Bytes32) (n n' : Note)
    (happart : SpendsApart sha3 seed seed' n n') :
    NotesUsable sha3 seed seed' n n' ↔
      n.pkOwner.length = mlDsa65PublicKeyBytes ∧ n'.pkOwner.length = mlDsa65PublicKeyBytes := by
  constructor
  · exact fun h => ⟨deriveL2Address_ok_iff.mp h.address, deriveL2Address_ok_iff.mp h.address'⟩
  · rintro ⟨hlen, hlen'⟩
    refine
      { address := deriveL2Address_ok_iff.mpr hlen
        address' := deriveL2Address_ok_iff.mpr hlen'
        commits := ⟨_, commitNote_eq_ok_iff.mpr ⟨hlen, rfl⟩⟩
        commits' := ⟨_, commitNote_eq_ok_iff.mpr ⟨hlen', rfl⟩⟩
        binding := ?_
        unique := ?_ }
    · intro cm cm' hcm hcm' heq
      rw [(commitNote_eq_ok_iff.mp hcm).2, (commitNote_eq_ok_iff.mp hcm').2] at heq
      exact Note.opening_inj (happart.openings heq)
    · intro cm cm' hcm hcm' heq
      rw [(commitNote_eq_ok_iff.mp hcm).2, (commitNote_eq_ok_iff.mp hcm').2] at heq
      obtain ⟨hnk, hcommitment, hposition⟩ := spend_inj (happart.spends heq)
      have hseed := happart.keys hnk
      obtain ⟨hv, hr, hpk⟩ := Note.opening_inj (happart.openings hcommitment)
      cases n
      cases n'
      cases hv
      cases hr
      cases hpk
      cases hposition
      exact ⟨Consensus.beBytes32_inj hseed, rfl⟩

/-! ## Keys of the system -/

/-- A key as long as the signature precompile has it. -/
def systemKey : List UInt8 := List.replicate pkLen 0

/-- **No system key is taken**: with a key of `PK_LEN` bytes no address is derived and no note is
    committed to. -/
theorem system_key_refused :
    systemKey.length = pkLen ∧
    (∀ sha3 : List UInt8 → Bytes32,
      deriveL2Address sha3 systemKey = .error (.badPublicKeyLength 1312 1952)) ∧
    ∀ sha3 : List UInt8 → Bytes32,
      commitNote sha3 ⟨100, 7, systemKey, 0⟩ = .error (.badPublicKeyLength 1312 1952) := by
  have hlen : systemKey.length = 1952 := List.length_replicate
  refine ⟨hlen, fun sha3 => ?_, fun sha3 => ?_⟩
  · rw [deriveL2Address, if_pos (by rw [hlen]; decide), hlen]
    rfl
  · rw [commitNote, if_pos (by show systemKey.length ≠ _; rw [hlen]; decide)]
    show Except.error (ConfidentialError.badPublicKeyLength _ systemKey.length) = _
    rw [hlen]
    rfl

/-- A note for a key of 1312 bytes, all of them `b`. -/
def shortKeyNote (b : UInt8) : Note := ⟨100, 7, List.replicate mlDsa65PublicKeyBytes b, 0⟩

/-- The last 32 bytes of a string: enough to tell a few strings apart. -/
def lastBytes (bytes : List UInt8) : Bytes32 := BitVec.ofNat 256 (ofBeBytes bytes)

theorem notes_usable_iff_shortKeys :
    SpendsApart lastBytes 1 2 (shortKeyNote 1) (shortKeyNote 2) ∧
      NotesUsable lastBytes 1 2 (shortKeyNote 1) (shortKeyNote 2) := by
  have happart : SpendsApart lastBytes 1 2 (shortKeyNote 1) (shortKeyNote 2) :=
    ⟨fun h => absurd h (by decide +kernel), fun h => absurd h (by decide +kernel),
      fun h => absurd h (by decide +kernel)⟩
  exact ⟨happart, (notes_usable_iff 1 2 _ _ happart).mpr
    ⟨List.length_replicate, List.length_replicate⟩⟩

end SuwappuDag.L2
