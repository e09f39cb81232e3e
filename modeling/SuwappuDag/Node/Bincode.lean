/-
  READING INTENTS BACK (`codec::decode` of an intent).

  1. **Readers** — one for each writer of `Bincode`: words little-endian, vectors behind their length,
     an option behind a byte that is 0 or 1.  The reasons are the names of the decoder's own errors.
  2. **Round trip, both ways** — `decodeIntent_eq_ok_iff`: `decodeIntent` takes exactly the bytes that
     `encodeIntent` writes and gives the intent back, whatever follows; and it accepts no other bytes.
     A vector's length is written as a `u64`, and a longer one could not be told from a shorter one; no
     vector of the source is that long (`Fits`).
  3. **Unique parsing** — so the encoding is injective and DELIMITS ITSELF: of two byte strings that
     start with an encoded intent and are equal, the intents and the rests are equal.
-/
import SuwappuDag.Node.Codec

namespace SuwappuDag.Node

open Words Execution Command
open Codec (Reader Canonical)

/-! ## Readers -/

namespace Bincode

section Readers

variable {α : Type}

/-- The next `k` bytes. -/
def next (k : Nat) : Reader (List UInt8) := do
  Codec.need k "UnexpectedEnd"
  Codec.take k

/-- A `k`-byte little-endian number. -/
def word (k : Nat) : Reader Nat := do return ofBeBytes (← next k).reverse

def readU8 : Reader UInt8 := do return UInt8.ofNat (← word 1)

def readU32 : Reader UInt32 := do return UInt32.ofNat (← word 4)

def readU64 : Reader UInt64 := do return UInt64.ofNat (← word 8)

def readU128 : Reader (BitVec 128) := do return BitVec.ofNat 128 (← word 16)

def readArray (k : Nat) : Reader (BitVec (8 * k)) := do return BitVec.ofNat (8 * k) (ofBeBytes (← next k))

def times (get : Reader α) : Nat → Reader (List α)
  | 0 => pure []
  | n + 1 => do return (← get) :: (← times get n)

def readSeq (get : Reader α) : Reader (List α) := do times get (← word 8)

def readBytes : Reader (List UInt8) := readSeq readU8

def readOption (get : Reader α) : Reader (Option α) := do
  match ← word 1 with
  | 0 => return none
  | 1 => return some (← get)
  | _ => fail "InvalidBooleanValue"

/-! ### What they read -/

theorem canonical_next (k : Nat) : Canonical (next k) id fun bs => bs.length = k where
  iff := by
    intro bs xs rest
    constructor
    · intro h
      obtain ⟨⟨⟩, cs, hneed, h⟩ := bind_eq_ok_iff.mp h
      obtain ⟨hlen, rfl⟩ := fetch_eq_ok_iff.mp hneed
      obtain ⟨rfl, rfl⟩ := Codec.take_eq_ok h
      split at hlen
      · cases hlen
      · next hle => exact ⟨by simpa using hle, List.take_append_drop k bs⟩
    · rintro ⟨rfl, rfl⟩
      rw [next, bind_run_ok (Codec.need_run (by simp))]
      exact Codec.reads_take xs rest

@[simp] theorem length_leBytes (k n : Nat) : (leBytes k n).length = k := by
  rw [leBytes, List.length_reverse, length_beBytes]

instance canonical_word (k : Nat) : Canonical (word k) (leBytes k) fun n => n < 256 ^ k where
  iff := by
    intro bs n rest
    rw [word, (canonical_next k).bind_iff]
    constructor
    · rintro ⟨xs, rfl, cs, rfl, h⟩
      cases h
      have hlt := ofBeBytes_lt xs.reverse
      have hback := beBytes_ofBeBytes xs.reverse
      rw [List.length_reverse] at hlt hback
      exact ⟨hlt, by rw [leBytes, hback, List.reverse_reverse, id]⟩
    · rintro ⟨hn, rfl⟩
      refine ⟨leBytes k n, length_leBytes k n, rest, rfl, ?_⟩
      rw [leBytes, List.reverse_reverse, ofBeBytes_beBytes, Nat.mod_eq_of_lt hn, pure_run]

instance canonical_u8 : Canonical readU8 u8 fun _ => True := by
  have h := (canonical_word 1).map (fun _ => UInt8.ofNat_toNat)
    (fun _ hn => UInt8.toNat_ofNat_of_lt' hn) UInt8.toNat_lt
  have hput : (fun x : UInt8 => leBytes 1 x.toNat) = u8 := funext fun x => by
    rw [leBytes, beBytes, beBytes, UInt8.ofNat_toNat]
    rfl
  rwa [hput] at h

instance canonical_u32 : Canonical readU32 u32 fun _ => True :=
  (canonical_word 4).map (fun _ => UInt32.ofNat_toNat) (fun _ hn => UInt32.toNat_ofNat_of_lt' hn)
    UInt32.toNat_lt

instance canonical_u64 : Canonical readU64 u64 fun _ => True :=
  (canonical_word 8).map (fun _ => UInt64.ofNat_toNat) (fun _ hn => UInt64.toNat_ofNat_of_lt' hn)
    UInt64.toNat_lt

instance canonical_u128 : Canonical readU128 u128 fun _ => True :=
  (canonical_word 16).map (by simp) (fun _ hn => Nat.mod_eq_of_lt hn) BitVec.isLt

instance canonical_array (k : Nat) : Canonical (readArray k) (array k) fun _ => True :=
  (canonical_next k).map (g := array k)
    (fun x => by
      have hlt : x.toNat < 256 ^ k := by
        have := x.isLt
        rwa [pow_mul] at this
      rw [array, ofBeBytes_beBytes, Nat.mod_eq_of_lt hlt, BitVec.ofNat_toNat, BitVec.setWidth_eq])
    (fun bs hbs => by
      have hlt := ofBeBytes_lt bs
      rw [hbs, show 256 = 2 ^ 8 from rfl, ← pow_mul] at hlt
      rw [array, BitVec.toNat_ofNat, Nat.mod_eq_of_lt hlt, ← hbs, beBytes_ofBeBytes])
    (fun x => length_beBytes k _)

variable {get : Reader α} {put : α → List UInt8} [Canonical get put fun _ => True]

theorem times_eq_ok_iff {n : Nat} {bs rest : List UInt8} {xs : List α} :
    times get n bs = (.ok xs, rest) ↔ xs.length = n ∧ xs.flatMap put ++ rest = bs := by
  induction n generalizing bs xs with
  | zero => cases xs <;> simp [times, eq_comm]
  | succ n ih =>
    rw [times, Canonical.bind_iff]
    constructor
    · rintro ⟨x, -, cs, rfl, h⟩
      obtain ⟨ys, _, hys, hxs⟩ := bind_eq_ok_iff.mp h
      cases hxs
      obtain ⟨rfl, rfl⟩ := ih.mp hys
      exact ⟨rfl, List.append_assoc _ _ _⟩
    · rintro ⟨hlen, rfl⟩
      obtain ⟨x, ys, rfl⟩ := List.exists_cons_of_length_eq_add_one hlen
      exact ⟨x, trivial, _, (List.append_assoc _ _ _).symm,
        bind_run_ok (ih.mpr ⟨Nat.succ.inj hlen, rfl⟩)⟩

instance canonical_seq : Canonical (readSeq get) (seq put) fun xs => xs.length < 2 ^ 64 where
  iff := by
    intro bs xs rest
    simp only [readSeq, Canonical.bind_iff, times_eq_ok_iff, seq, List.append_assoc]
    constructor
    · rintro ⟨n, hn, cs, rfl, rfl, rfl⟩
      exact ⟨hn, rfl⟩
    · rintro ⟨hn, rfl⟩
      exact ⟨_, hn, _, rfl, rfl, rfl⟩

instance canonical_bytes : Canonical readBytes bytes fun xs => xs.length < 2 ^ 64 := canonical_seq

instance canonical_option : Canonical (readOption get) (option put) fun _ => True where
  iff := by
    intro bs o rest
    rw [readOption, Canonical.bind_iff, true_and]
    constructor
    · rintro ⟨n, -, cs, rfl, h⟩
      split at h
      · cases h
        rfl
      · obtain ⟨a, -, ds, rfl, ha⟩ := Canonical.bind_iff.mp h
        cases ha
        rfl
      · cases h
    · rintro rfl
      cases o with
      | none => exact ⟨0, by decide, rest, rfl, rfl⟩
      | some a => exact ⟨1, by decide, put a ++ rest, rfl, Canonical.run trivial⟩

end Readers
end Bincode
open Bincode

/-! ## Intents -/

def decodeShare : Reader (Address × Balance) := do return (← readArray 20, ← readU128)

def decodeShares : Reader (List (Address × Balance)) := readSeq decodeShare

def decodeRing : Reader Ring := do
  match ← word 4 with
  | 0 => return .authority
  | 1 => return .validator
  | _ => fail "UnexpectedVariant"

def decodeSlashReason : Reader SlashReason := do
  match ← word 4 with
  | 0 => return .missedForceInclude
  | 1 => return .equivocation
  | 2 => return .invalidBatch
  | 3 => return .downtime
  | _ => fail "UnexpectedVariant"

/-- `codec::decode` of an intent; trailing bytes are left. -/
def decodeIntent : Reader Intent := do
  match ← word 4 with
  | 0 => return .transfer (← readArray 20) (← readArray 20) (← readU128)
  | 1 => return .genesisAllocation (← decodeShares)
  | 2 => return .distributeRewards (← readU64) (← decodeRing) (← decodeShares)
  | 3 => return .delegate (← readArray 20) (← readU32) (← readU128)
  | 4 => return .mintInflation (← readU64) (← readU128) (← readU128) (← readU128)
  | 5 => return .admitAuthority (← readU32) (← readU64) (← readBytes) (← readBytes)
  | 6 => return .exitAuthority (← readU32)
  | 7 => return .ejectAuthority (← readU32) (← readArray 32)
  | 8 => return .admitValidator (← readU32) (← readU64) (← readBytes) (← readBytes)
  | 9 => return .exitValidator (← readU32)
  | 10 => return .ejectValidator (← readU32) (← readArray 32)
  | 11 =>
    return .commitL2StateRoot (← readU64) (← readArray 32) (← readBytes) (← readBytes) (← readArray 32)
  | 12 => return .setL2VerifyingKey (← readArray 32) (← readArray 32) (← readArray 32)
  | 13 =>
    return .l1Lock (← readArray 20) (← readArray 20) (← readU128) (← readOption (readArray 32))
  | 14 =>
    return .l2BurnProven (← readU64) (← readArray 20) (← readU128) (← readBytes)
      (← readOption (readArray 32)) (← readArray 32)
  | 15 => return .l2ForceInclude (← readBytes) (← readU64) (← readArray 20) (← readU64)
  | 16 => return .slashSequencer (← decodeSlashReason) (← readArray 32)
  | 17 => return .markForceIncludeHonored (← readArray 32)
  | 18 => return .ejectSequencer (← readArray 32) (← readArray 20)
  | 19 => return .depositSequencerBond (← readArray 20) (← readU128)
  | 20 => return .depositSafetyBond (← readArray 20) (← readU128)
  | 21 => return .depositAuthorityStake (← readArray 20) (← readU32) (← readU128)
  | 22 => return .depositValidatorStake (← readArray 20) (← readU32) (← readU128)
  | 23 => return .withdrawAuthorityStake (← readArray 20) (← readU32) (← readU128)
  | 24 => return .withdrawValidatorStake (← readArray 20) (← readU32) (← readU128)
  | 25 => return .disburseTreasury (← readArray 20) (← readU128) (← readArray 32)
  | 26 => return .claimInsurance (← readArray 20) (← readU128) (← readArray 32)
  | 27 => return .postL2DA (← readU64) (← readBytes)
  | 28 =>
    return .distributeSlashedFunds (← readArray 32) (← decodeShares) (← readU128) (← readU128)
  | 29 =>
    return .addBridgeAsset (← readU64) (← readBytes) (← readU8) (← readBytes) (← readBytes)
  | 30 => return .pauseBridgeAsset (← readArray 32)
  | 31 => return .removeBridgeAsset (← readArray 32)
  | _ => fail "UnexpectedVariant"

/-- The lengths of the vectors of an intent. -/
@[simp] def intentLengths : Intent → List Nat
  | .genesisAllocation allocations => [allocations.length]
  | .distributeRewards _ _ recipients => [recipients.length]
  | .admitAuthority _ _ mldsa bls => [mldsa.length, bls.length]
  | .admitValidator _ _ mldsa bls => [mldsa.length, bls.length]
  | .commitL2StateRoot _ _ proof inputs _ => [proof.length, inputs.length]
  | .l2BurnProven _ _ _ path _ _ => [path.length]
  | .l2ForceInclude tx _ _ _ => [tx.length]
  | .postL2DA _ blob => [blob.length]
  | .distributeSlashedFunds _ counterparties _ _ => [counterparties.length]
  | .addBridgeAsset _ contract _ name symbol => [contract.length, name.length, symbol.length]
  | _ => []

/-- No vector of the intent is longer than a `u64` can say. -/
def Fits (intent : Intent) : Prop := ∀ n ∈ intentLengths intent, n < 2 ^ 64

instance (intent : Intent) : Decidable (Fits intent) := inferInstanceAs (Decidable (∀ n ∈ _, n < 2 ^ 64))

instance canonical_share :
    Canonical decodeShare (fun share => array 20 share.1 ++ u128 share.2) fun _ => True where
  iff := by
    intro bs share rest
    rw [decodeShare, Canonical.bind_iff, true_and]
    constructor
    · rintro ⟨a, -, cs, rfl, h⟩
      obtain ⟨b, -, ds, rfl, hb⟩ := Canonical.bind_iff.mp h
      cases hb
      exact List.append_assoc _ _ _
    · rintro rfl
      exact ⟨share.1, trivial, _, (List.append_assoc _ _ _).symm, Canonical.run trivial⟩

instance canonical_shares :
    Canonical decodeShares encodeShares fun shares => shares.length < 2 ^ 64 := canonical_seq

instance canonical_ring : Canonical decodeRing encodeRing fun _ => True where
  iff := by
    intro bs ring rest
    rw [decodeRing, Canonical.bind_iff, true_and]
    constructor
    · rintro ⟨n, -, cs, rfl, h⟩
      split at h <;> cases h <;> rfl
    · rintro rfl
      cases ring <;> exact ⟨_, by decide, rest, rfl, rfl⟩

instance canonical_slashReason : Canonical decodeSlashReason encodeSlashReason fun _ => True where
  iff := by
    intro bs reason rest
    rw [decodeSlashReason, Canonical.bind_iff, true_and]
    constructor
    · rintro ⟨n, -, cs, rfl, h⟩
      split at h <;> cases h <;> rfl
    · rintro rfl
      cases reason <;> exact ⟨_, by decide, rest, rfl, rfl⟩

/-- **Round trip.**  One case per variant: its index, and its fields one after the other. -/
theorem decodeIntent_eq_ok_iff {bs rest : List UInt8} {intent : Intent} :
    decodeIntent bs = (.ok intent, rest) ↔ Fits intent ∧ encodeIntent intent ++ rest = bs := by
  rw [decodeIntent]
  constructor
  · rw [Canonical.bind_iff]
    rintro ⟨n, -, cs, rfl, h⟩
    -- one branch per index, and every field behind the one before
    split at h <;> simp only [Canonical.bind_iff, pure_run, fail_run, reduceCtorEq, Prod.mk.injEq,
      Except.ok.injEq, false_and] at h
    all_goals
      revert h
      simp only [forall_exists_index, and_imp]
      intros
      subst_vars
      simp [encodeIntent, variant, Fits, *, -Nat.reducePow]
  · rintro ⟨hfits, rfl⟩
    cases intent <;>
      simp only [encodeIntent, variant, List.flatten_cons, List.flatten_nil, List.append_assoc,
        List.nil_append] <;>
      refine Canonical.bind_iff.mpr ⟨_, by decide, _, rfl, ?_⟩ <;>
      repeat' first
        | exact trivial
        | exact hfits _ (by simp)
        | refine Canonical.bind_iff.mpr ⟨_, ?_, _, rfl, ?_⟩
        | rfl

/-- **Unique parsing.** -/
theorem encodeIntent_append_inj {intent intent' : Intent} (h : Fits intent) (h' : Fits intent')
    {rest rest' : List UInt8} (heq : encodeIntent intent ++ rest = encodeIntent intent' ++ rest') :
    intent = intent' ∧ rest = rest' := by
  have hread := decodeIntent_eq_ok_iff.mpr ⟨h, heq⟩
  rw [decodeIntent_eq_ok_iff.mpr ⟨h', rfl⟩] at hread
  cases hread
  exact ⟨rfl, rfl⟩

theorem encodeIntent_inj {intent intent' : Intent} (h : Fits intent) (h' : Fits intent')
    (heq : encodeIntent intent = encodeIntent intent') : intent = intent' :=
  (encodeIntent_append_inj h h' (congrArg (· ++ []) heq)).1

end SuwappuDag.Node
