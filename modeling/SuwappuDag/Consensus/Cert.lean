/-
  CERTIFICATES of the DagBft-C certificate DAG (`suwappu-consensus/src/cert.rs`).

  1. **Data** — a `Certificate` names its author, its round, the hashes of its parents and the
     digest of its payload; the detached signature rides along and is NOT part of the hash.
  2. **Hash** — `Certificate.hash` is BLAKE3 over a domain-separated encoding.  BLAKE3 itself is a
     parameter: a function from byte strings to 32-byte digests.
  3. **What the encoding gives** — `encode_inj`: two certificates with one encoding agree on every
     hashed field, parent list included.  The parent count is truncated to 32 bits before it is
     written, but the TOTAL length of the encoding already fixes the number of parents, so nothing
     is lost.  Collision freedom of BLAKE3 is asked only of the encodings actually in play
     (`NoCollision`), never globally: no function into 32 bytes is injective.
-/
import SuwappuDag.Lib.Layout

namespace SuwappuDag.Consensus

open Words

/-- Index into the published Authority Ring (`u32`). -/
abbrev AuthorityId := UInt32

/-- Consensus round number (`u64`); round 0 is genesis. -/
abbrev Round := UInt64

/-- Content hash of a certificate's canonical encoding. -/
abbrev CertHash := Bytes32

structure Certificate where
  author : AuthorityId
  round : Round
  parents : List CertHash
  payloadDigest : Bytes32
  signature : List UInt8
deriving DecidableEq, Repr

namespace Certificate

/-- Round 0, no parents, unsigned. -/
def genesis (author : AuthorityId) (payloadDigest : Bytes32) : Certificate :=
  ⟨author, 0, [], payloadDigest, []⟩

/-- The hashed bytes: `tag ‖ author (4) ‖ round (8) ‖ parent count (4) ‖ parents ‖ payload digest`,
    all big-endian.  `parents.len() as u32` truncates. -/
def encode (c : Certificate) : List UInt8 :=
  asciiBytes "SUWAPPU-CERT-V1" ++ beBytes 4 c.author.toNat ++ beBytes 8 c.round.toNat
    ++ beBytes 4 (c.parents.length % 2 ^ 32) ++ c.parents.flatMap (fun p => beBytes 32 p.toNat)
    ++ beBytes 32 c.payloadDigest.toNat

/-- BLAKE3 of the encoding. -/
def hash (blake3 : List UInt8 → Bytes32) (c : Certificate) : CertHash := blake3 c.encode

end Certificate

/-! ## The encoding is injective on the hashed fields -/

theorem beBytes32_inj {p q : Bytes32} (h : beBytes 32 p.toNat = beBytes 32 q.toNat) : p = q :=
  BitVec.eq_of_toNat_eq (beBytes_inj (by have := p.isLt; omega) (by have := q.isLt; omega) h)

theorem length_flatMap_beBytes32 (ps : List CertHash) :
    (ps.flatMap fun p => beBytes 32 p.toNat).length = 32 * ps.length := by
  induction ps with
  | nil => rfl
  | cons p ps ih => simp [ih]; omega

theorem delimited_certHash :
    Layout.Delimited (fun _ : CertHash => True) fun p => beBytes 32 p.toNat :=
  fun _ _ _ _ _ _ h => Layout.word_append_inj (k := 32) rfl h

/-- Two certificates with one encoding differ at most in their signatures. -/
theorem encode_inj {c d : Certificate} (h : c.encode = d.encode) :
    c.author = d.author ∧ c.round = d.round ∧ c.parents = d.parents
      ∧ c.payloadDigest = d.payloadDigest := by
  have hlen : c.parents.length = d.parents.length := by
    have := congrArg List.length h
    simp only [Certificate.encode, List.length_append, length_beBytes, length_flatMap_beBytes32] at this
    omega
  -- field by field from the left; the parents need no count, their number is known
  simp only [Certificate.encode, List.append_assoc] at h
  obtain ⟨hauthor, h⟩ := Layout.u32_append_inj (List.append_cancel_left h)
  obtain ⟨hround, h⟩ := Layout.u64_append_inj h
  obtain ⟨-, h⟩ := List.append_inj h (by simp only [length_beBytes])
  obtain ⟨hparents, h⟩ := delimited_certHash.flatMap_append_inj (fun _ _ => trivial)
    (fun _ _ => trivial) hlen h
  exact ⟨hauthor, hround, hparents, beBytes32_inj h⟩

/-- BLAKE3 does not collide on the encodings of the certificates in `S`. -/
def NoCollision (blake3 : List UInt8 → Bytes32) (S : Certificate → Prop) : Prop :=
  ∀ c d, S c → S d → blake3 c.encode = blake3 d.encode → c.encode = d.encode

/-- Certificates that are listed with distinct hashes do not collide. -/
theorem noCollision_of_nodup {blake3 : List UInt8 → Bytes32} {S : Certificate → Prop}
    {certs : List Certificate} (hdistinct : (certs.map (Certificate.hash blake3)).Nodup)
    (hlisted : ∀ c, S c → c ∈ certs) : NoCollision blake3 S := by
  intro c d hc hd heq
  rw [List.inj_on_of_nodup_map hdistinct (hlisted c hc) (hlisted d hd) heq]

end SuwappuDag.Consensus
