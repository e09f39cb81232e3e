/-
  THE RESERVE-COVERAGE GUEST and its host (`zkvm/reserve-coverage-verifier/src/main.rs`,
  `zkvm/reserve-coverage-host/src/lib.rs`).

  The guest proves "some hidden amounts add up to this total, and this is a commitment to them".  It
  reads a salt and a blob, both chosen by the prover, and publishes the total and the commitment.

  1. **Guest** — `guest` fails where an assertion of the source does; a proof exists only for a run
     that does not.
  2. **Host** — `buildStdin` writes what an honest prover supplies, `computeReference` computes the
     outputs outside of the circuit, `parsePublicValues` reads them from the proof.
  3. **Exact (`guest_exact`)** — on an honest witness the guest succeeds iff there is an amount and the
     true sum fits in 128 bits, and what it publishes is what the reference computes.
  4. **Binding** — on ANY witness: the salt is 32 bytes long, so the hashed string can be cut behind
     it, and the blob determines the amounts.
-/
import SuwappuDag.L2.Confidential

namespace SuwappuDag.Zkvm

open Words Layout

/-- Both crates have this tag. -/
def domainTag : List UInt8 := asciiBytes "SUWAPPU-RESERVE-COMMIT-V1"

/-- The guest's own copy of `sha3_256_domain`. -/
def sha3Domain (sha3 : List UInt8 → Bytes32) (tag data : List UInt8) : Bytes32 :=
  sha3 (beBytes 4 tag.length ++ tag ++ data)

/-- The two vectors the guest reads. -/
structure Stdin where
  salt : List UInt8
  amountsBlob : List UInt8
deriving DecidableEq

/-! ## The guest -/

/-- `u32::from_be_bytes(amounts_blob[0..4])`. -/
def itemCount (blob : List UInt8) : Nat := ofBeBytes (blob.take 4)

def amountAt (blob : List UInt8) (i : Nat) : BitVec 128 :=
  BitVec.ofNat 128 (ofBeBytes (readAt blob (4 + i * 16) 16))

/-- The summing loop from item `i` on, with `n` items to go. -/
def sumFrom (blob : List UInt8) : Nat → Nat → BitVec 128 → Except String (BitVec 128)
  | 0, _, total => .ok total
  | n + 1, i, total =>
    match checkedAdd total (amountAt blob i) with
    | none => .error "reserve composition sum overflowed u128"
    | some total => sumFrom blob n (i + 1) total

/-- The string that is committed to. -/
def Stdin.preimage (w : Stdin) : List UInt8 := w.salt ++ w.amountsBlob

/-- `main`: the public values, or the assertion that fails. -/
def guest (sha3 : List UInt8 → Bytes32) (w : Stdin) : Except String (List UInt8) :=
  if w.salt.length ≠ 32 then .error "salt must be 32 bytes"
  else if w.amountsBlob.length < 4 then .error "amounts blob missing item_count header"
  else if w.amountsBlob.length ≠ 4 + itemCount w.amountsBlob * 16 then
    .error "amounts blob length doesn't match item_count"
  else if itemCount w.amountsBlob = 0 then .error "at least one reserve line item is required"
  else
    match sumFrom w.amountsBlob (itemCount w.amountsBlob) 0 0 with
    | .error e => .error e
    | .ok total =>
      .ok (beBytes 16 total.toNat ++ beBytes 32 (sha3Domain sha3 domainTag w.preimage).toNat)

/-- The amounts a blob spells. -/
def amounts (blob : List UInt8) : List (BitVec 128) :=
  (List.range (itemCount blob)).map (amountAt blob)

/-! ## The host -/

def amountsBlob (amounts : List (BitVec 128)) : List UInt8 :=
  beBytes 4 amounts.length ++ amounts.flatMap fun a => beBytes 16 a.toNat

def buildStdin (salt : Bytes32) (amounts : List (BitVec 128)) : Stdin :=
  ⟨beBytes 32 salt.toNat, amountsBlob amounts⟩

/-- `try_fold` with `checked_add`. -/
def checkedSum : List (BitVec 128) → BitVec 128 → Option (BitVec 128)
  | [], acc => some acc
  | a :: amounts, acc => (checkedAdd acc a).bind (checkedSum amounts)

/-- The outputs computed outside of the circuit; an overflow panics. -/
def computeReference (sha3 : List UInt8 → Bytes32) (salt : Bytes32) (amounts : List (BitVec 128)) :
    Except String (BitVec 128 × Bytes32) :=
  match checkedSum amounts 0 with
  | none => .error "reserve composition sum overflowed u128"
  | some total => .ok (total,
      sha3 (beBytes 4 domainTag.length ++ domainTag ++ (beBytes 32 salt.toNat ++ amountsBlob amounts)))

def parsePublicValues (publicValues : List UInt8) : Except String (BitVec 128 × Bytes32) :=
  if publicValues.length ≠ 48 then .error "unexpected public values length"
  else .ok (BitVec.ofNat 128 (ofBeBytes (readAt publicValues 0 16)),
    BitVec.ofNat 256 (ofBeBytes (readAt publicValues 16 32)))

/-! ## Sums -/

/-- The exact sum. -/
def exactSum (amounts : List (BitVec 128)) : Nat := (amounts.map BitVec.toNat).sum

theorem checkedSum_eq_some_iff {total : BitVec 128} : ∀ {amounts : List (BitVec 128)}
    {acc : BitVec 128}, checkedSum amounts acc = some total ↔
      total.toNat = acc.toNat + exactSum amounts := by
  intro amounts
  induction amounts with
  | nil =>
    intro acc
    simp only [checkedSum, Option.some.injEq, exactSum, List.map_nil, List.sum_nil, Nat.add_zero,
      BitVec.toNat_inj.symm]
    exact eq_comm
  | cons a amounts ih =>
    intro acc
    simp only [checkedSum, Option.bind_eq_some_iff, checkedAdd_eq_some_iff, ih, exactSum,
      List.map_cons, List.sum_cons]
    constructor
    · rintro ⟨next, hnext, htotal⟩
      omega
    · intro htotal
      obtain ⟨next, hnext⟩ := exists_toNat_eq (w := 128) (n := acc.toNat + a.toNat)
        (by have := total.isLt; omega)
      exact ⟨next, hnext, by omega⟩

/-- The guest's loop sums up what is left of the blob. -/
theorem sumFrom_eq_ok_iff {blob : List UInt8} {total : BitVec 128} : ∀ {n i : Nat} {acc : BitVec 128},
    sumFrom blob n i acc = .ok total ↔
      checkedSum ((List.range' i n).map (amountAt blob)) acc = some total := by
  intro n
  induction n with
  | zero => intro i acc; simp [sumFrom, checkedSum]
  | succ n ih =>
    intro i acc
    rw [sumFrom, List.range'_succ, List.map_cons, checkedSum]
    cases checkedAdd acc (amountAt blob i) with
    | none => simp
    | some next => exact ih

/-! ## What a run of the guest says -/

theorem parsePublicValues_outputs (total : BitVec 128) (commitment : Bytes32) :
    parsePublicValues (beBytes 16 total.toNat ++ beBytes 32 commitment.toNat) =
      .ok (total, commitment) := by
  have hfst : readAt (beBytes 16 total.toNat ++ beBytes 32 commitment.toNat) 0 16 =
      beBytes 16 total.toNat := List.take_left' (length_beBytes _ _)
  have hsnd : readAt (beBytes 16 total.toNat ++ beBytes 32 commitment.toNat) 16 32 =
      beBytes 32 commitment.toNat := by
    have hread := readAt_append (beBytes 16 total.toNat) (beBytes 32 commitment.toNat) 0 32
    rw [length_beBytes] at hread
    rw [hread]
    exact List.take_of_length_le (length_beBytes _ _).le
  have htotal := total.isLt
  have hcommitment := commitment.isLt
  rw [parsePublicValues, if_neg (by simp), hfst, hsnd, ofBeBytes_beBytes, ofBeBytes_beBytes,
    Nat.mod_eq_of_lt (by omega), Nat.mod_eq_of_lt (by omega), BitVec.ofNat_toNat, BitVec.ofNat_toNat,
    BitVec.setWidth_eq, BitVec.setWidth_eq]

/-- **Inversion of the guest.** -/
theorem guest_eq_ok_iff {sha3 : List UInt8 → Bytes32} {w : Stdin} {pv : List UInt8} :
    guest sha3 w = .ok pv ↔ w.salt.length = 32 ∧ 4 ≤ w.amountsBlob.length ∧
      w.amountsBlob.length = 4 + itemCount w.amountsBlob * 16 ∧ itemCount w.amountsBlob ≠ 0 ∧
      ∃ total : BitVec 128, total.toNat = exactSum (amounts w.amountsBlob) ∧
        pv = beBytes 16 total.toNat ++ beBytes 32 (sha3Domain sha3 domainTag w.preimage).toNat := by
  have hsum : ∀ {total : BitVec 128}, sumFrom w.amountsBlob (itemCount w.amountsBlob) 0 0 = .ok total ↔
      total.toNat = exactSum (amounts w.amountsBlob) := by
    intro total
    rw [sumFrom_eq_ok_iff, ← List.range_eq_range', checkedSum_eq_some_iff]
    show total.toNat = 0 + _ ↔ _
    rw [Nat.zero_add]
    rfl
  unfold guest
  split
  · next h => simp [h]
  next hsalt =>
  split
  · next h => simp [not_le.mpr h]
  next hheader =>
  split
  · next h => simp [h]
  next hlength =>
  split
  · next h => simp [h]
  next hitem =>
  cases hloop : sumFrom w.amountsBlob (itemCount w.amountsBlob) 0 0 with
  | error e =>
    simp only [reduceCtorEq, false_iff]
    rintro ⟨-, -, -, -, total, htotal, -⟩
    rw [hsum.mpr htotal] at hloop
    cases hloop
  | ok total =>
    have htotal := hsum.mp hloop
    simp only [Except.ok.injEq]
    constructor
    · intro hout
      exact ⟨not_ne_iff.mp hsalt, not_lt.mp hheader, not_ne_iff.mp hlength, hitem, total, htotal,
        hout.symm⟩
    · rintro ⟨-, -, -, -, total', htotal', hout⟩
      rw [hout, BitVec.eq_of_toNat_eq (htotal.trans htotal'.symm)]

/-! ## Honest witnesses -/

section Honest

variable {xs : List (BitVec 128)}

theorem itemCount_amountsBlob (hlen : xs.length < 2 ^ 32) : itemCount (amountsBlob xs) = xs.length := by
  rw [itemCount, amountsBlob, List.take_left' (length_beBytes _ _), ofBeBytes_beBytes,
    Nat.mod_eq_of_lt (by omega)]

theorem length_amountsBlob (xs : List (BitVec 128)) :
    (amountsBlob xs).length = 4 + xs.length * 16 := by
  have hsum : ∀ ys : List (BitVec 128),
      (ys.flatMap fun a => beBytes 16 a.toNat).length = ys.length * 16 := by
    intro ys
    induction ys with
    | nil => rfl
    | cons y ys ih =>
      rw [List.flatMap_cons, List.length_append, length_beBytes, ih, List.length_cons]
      omega
  rw [amountsBlob, List.length_append, length_beBytes, hsum]

theorem amountAt_amountsBlob {i : Nat} {x : BitVec 128} (hx : xs[i]? = some x) :
    amountAt (amountsBlob xs) i = x := by
  have hentry : readAt (xs.flatMap fun a => beBytes 16 a.toNat) (i * 16) 16 = beBytes 16 x.toNat :=
    @readAt_flatMap (BitVec 128) (fun a => beBytes 16 a.toNat) 16 (fun a => length_beBytes 16 _) _ _ _ hx
  have hread := readAt_append (beBytes 4 xs.length) (xs.flatMap fun a => beBytes 16 a.toNat)
    (i * 16) 16
  rw [length_beBytes, hentry] at hread
  have hlt := x.isLt
  rw [amountAt, amountsBlob, hread, ofBeBytes_beBytes, Nat.mod_eq_of_lt (by omega),
    BitVec.ofNat_toNat, BitVec.setWidth_eq]

/-- The blob spells the amounts it was made of. -/
theorem amounts_amountsBlob (hlen : xs.length < 2 ^ 32) : amounts (amountsBlob xs) = xs := by
  rw [amounts, itemCount_amountsBlob hlen]
  refine List.ext_getElem? fun i => ?_
  rw [List.getElem?_map]
  by_cases hi : i < xs.length
  · rw [List.getElem?_range hi, Option.map_some, List.getElem?_eq_getElem hi,
      amountAt_amountsBlob (List.getElem?_eq_getElem hi)]
  · rw [List.getElem?_eq_none (by simpa using hi), List.getElem?_eq_none (not_lt.mp hi)]
    rfl

end Honest

/-! ## The two halves -/

/-- **The guest computes the reference and binds its witness.**  On an honest witness of fewer than
    2^32 amounts it succeeds iff there is one and the exact sum fits in 128 bits, and then its public
    values parse to the reference.  On any two witnesses it succeeds on and whose strings SHA3-256
    tells apart, equal commitments are of equal salts, amounts and totals. -/
theorem guest_exact (sha3 : List UInt8 → Bytes32) :
    (∀ (salt : Bytes32) (xs : List (BitVec 128)), xs.length < 2 ^ 32 →
      ((∃ pv, guest sha3 (buildStdin salt xs) = .ok pv) ↔ xs ≠ [] ∧ exactSum xs < 2 ^ 128) ∧
      ∀ pv, guest sha3 (buildStdin salt xs) = .ok pv →
        ∃ out, parsePublicValues pv = .ok out ∧ computeReference sha3 salt xs = .ok out) ∧
    ∀ (w w' : Stdin) (pv pv' : List UInt8), guest sha3 w = .ok pv → guest sha3 w' = .ok pv' →
      (sha3Domain sha3 domainTag w.preimage = sha3Domain sha3 domainTag w'.preimage →
        w.preimage = w'.preimage) →
      ∃ out out', parsePublicValues pv = .ok out ∧ parsePublicValues pv' = .ok out' ∧
        (out.2 = out'.2 → w.salt = w'.salt ∧ amounts w.amountsBlob = amounts w'.amountsBlob ∧
          out.1 = out'.1) := by
  constructor
  · intro salt xs hlen
    have hcount := itemCount_amountsBlob hlen
    have hamounts := amounts_amountsBlob hlen
    have hsuccess : ∀ {pv}, guest sha3 (buildStdin salt xs) = .ok pv ↔ xs ≠ [] ∧
        ∃ total : BitVec 128, total.toNat = exactSum xs ∧ pv = beBytes 16 total.toNat ++
          beBytes 32 (sha3Domain sha3 domainTag (buildStdin salt xs).preimage).toNat := by
      intro pv
      rw [guest_eq_ok_iff]
      simp only [buildStdin, length_beBytes, length_amountsBlob, hcount, hamounts, true_and,
        Nat.le_add_right, ne_eq, List.length_eq_zero_iff]
    constructor
    · constructor
      · rintro ⟨pv, hpv⟩
        obtain ⟨hne, total, htotal, -⟩ := hsuccess.mp hpv
        exact ⟨hne, htotal ▸ total.isLt⟩
      · rintro ⟨hne, hfits⟩
        obtain ⟨total, htotal⟩ := exists_toNat_eq hfits
        exact ⟨_, hsuccess.mpr ⟨hne, total, htotal, rfl⟩⟩
    · intro pv hpv
      obtain ⟨-, total, htotal, hout⟩ := hsuccess.mp hpv
      have hsum : checkedSum xs 0 = some total := by
        rw [checkedSum_eq_some_iff, htotal]
        exact (Nat.zero_add _).symm
      rw [hout]
      refine ⟨_, parsePublicValues_outputs _ _, ?_⟩
      rw [computeReference, hsum]
      rfl
  · intro w w' pv pv' hpv hpv' happart
    obtain ⟨hsalt, _, _, _, total, htotal, hout⟩ := guest_eq_ok_iff.mp hpv
    obtain ⟨hsalt', _, _, _, total', htotal', hout'⟩ := guest_eq_ok_iff.mp hpv'
    rw [hout, hout']
    refine ⟨_, _, parsePublicValues_outputs total (sha3Domain sha3 domainTag w.preimage),
      parsePublicValues_outputs total' (sha3Domain sha3 domainTag w'.preimage), ?_⟩
    intro heq
    have hstring : w.salt ++ w.amountsBlob = w'.salt ++ w'.amountsBlob := happart heq
    -- the salts have one length, so the strings are cut at one place
    obtain ⟨hs, hblob⟩ := List.append_inj hstring (hsalt.trans hsalt'.symm)
    refine ⟨hs, by rw [hblob], BitVec.eq_of_toNat_eq ?_⟩
    rw [htotal, htotal', hblob]

/-- Two amounts, and the same total in one. -/
theorem guest_exact_twoAmounts :
    (∃ pv, guest Blake3.hash (buildStdin 5 [3, 4]) = .ok pv ∧
      ∃ out, parsePublicValues pv = .ok out ∧ computeReference Blake3.hash 5 [3, 4] = .ok out) ∧
    ∃ pv pv', guest Blake3.hash (buildStdin 5 [3, 4]) = .ok pv ∧
      guest Blake3.hash (buildStdin 5 [7]) = .ok pv' ∧
      ∃ out out', parsePublicValues pv = .ok out ∧ parsePublicValues pv' = .ok out' ∧ out.2 ≠ out'.2 := by
  obtain ⟨hhonest, hbinding⟩ := guest_exact Blake3.hash
  obtain ⟨hsuccess, hreference⟩ := hhonest 5 [3, 4] (by decide)
  obtain ⟨pv, hpv⟩ := hsuccess.mpr (by decide)
  obtain ⟨pv', hpv'⟩ := (hhonest 5 [7] (by decide)).1.mpr (by decide)
  have hapart : sha3Domain Blake3.hash domainTag (buildStdin 5 [3, 4]).preimage ≠
      sha3Domain Blake3.hash domainTag (buildStdin 5 [7]).preimage := by decide +kernel
  obtain ⟨out, out', hout, hout', hbinds⟩ :=
    hbinding _ _ pv pv' hpv hpv' fun h => absurd h hapart
  refine ⟨⟨pv, hpv, hreference pv hpv⟩, pv, pv', hpv, hpv', out, out', hout, hout', fun heq => ?_⟩
  have hamounts := (hbinds heq).2.1
  rw [buildStdin, buildStdin, amounts_amountsBlob (by decide), amounts_amountsBlob (by decide)]
    at hamounts
  exact absurd hamounts (by decide)

end SuwappuDag.Zkvm
