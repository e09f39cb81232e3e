/-
  FIXED-WIDTH WORDS — the order, the byte layout and the checked arithmetic of machine integers.

  A `[u8; k]` array is carried as a `BitVec (8 * k)`, most significant byte first, so that the
  array's lexicographic order IS the numeric order of the word; `u32`/`u64` are `UInt32`/`UInt64`.

  1. **Order** — Mathlib has no `LinearOrder` on these types; the instances below put one on the
     core `≤`, `<` and `compare`, so that `min?`, sorting and the tree maps all agree.
  2. **Bytes** — `beBytes k n` is the `k`-byte big-endian form of `n` (`to_be_bytes`).  The one fact
     an encoding needs is that it is injective below `256 ^ k` and has a length that is known.
  3. **Sums** — words add up modulo `2 ^ w`; a sum that stays below it is the sum of the numbers.
-/
import Mathlib

namespace SuwappuDag.Words

/-! ## The linear orders -/

instance linearOrderBitVec {w : Nat} : LinearOrder (BitVec w) where
  le_refl := BitVec.le_refl
  le_trans _ _ _ := BitVec.le_trans
  le_antisymm _ _ := BitVec.le_antisymm
  le_total := BitVec.le_total
  lt_iff_le_not_ge a b := by
    show a.toNat < b.toNat ↔ a.toNat ≤ b.toNat ∧ ¬ b.toNat ≤ a.toNat
    omega
  toDecidableLE := inferInstance
  toDecidableLT := inferInstance
  toDecidableEq := inferInstance
  compare_eq_compareOfLessAndEq _ _ := rfl

instance linearOrderUInt32 : LinearOrder UInt32 where
  le_refl := UInt32.le_refl
  le_trans _ _ _ := UInt32.le_trans
  le_antisymm _ _ := UInt32.le_antisymm
  le_total := UInt32.le_total
  lt_iff_le_not_ge a b := by
    rw [UInt32.lt_iff_toNat_lt, UInt32.le_iff_toNat_le, UInt32.le_iff_toNat_le]
    omega
  toDecidableLE := inferInstance
  toDecidableLT := inferInstance
  toDecidableEq := inferInstance
  compare_eq_compareOfLessAndEq _ _ := rfl

instance linearOrderUInt64 : LinearOrder UInt64 where
  le_refl := UInt64.le_refl
  le_trans _ _ _ := UInt64.le_trans
  le_antisymm _ _ := UInt64.le_antisymm
  le_total := UInt64.le_total
  lt_iff_le_not_ge a b := by
    rw [UInt64.lt_iff_toNat_lt, UInt64.le_iff_toNat_le, UInt64.le_iff_toNat_le]
    omega
  toDecidableLE := inferInstance
  toDecidableLT := inferInstance
  toDecidableEq := inferInstance
  compare_eq_compareOfLessAndEq _ _ := rfl

/-- Keys made of two words are compared lexicographically, and equal when they compare equal. -/
instance lawfulEqOrdLex {α β : Type*} [Ord α] [Ord β] [Std.LawfulEqOrd α] [Std.LawfulEqOrd β] :
    Std.LawfulEqOrd (α ×ₗ β) where
  compare_self {a} := by
    show compareLex _ _ a a = .eq
    simp [compareLex, compareOn]
  eq_of_compare {a b} h := by
    have h : (compare (ofLex a).1 (ofLex b).1).then (compare (ofLex a).2 (ofLex b).2) = .eq := h
    rw [Ordering.then_eq_eq] at h
    exact Prod.ext (Std.LawfulEqCmp.eq_of_compare h.1) (Std.LawfulEqCmp.eq_of_compare h.2)

/-! ## Big-endian bytes -/

/-- A 32-byte array, most significant byte first: its array order is the order of the word. -/
abbrev Bytes32 := BitVec 256

/-! The tree maps ask for a lawful order on their keys.  One constant for each key type made of words
keeps the proof of it out of the types of the maps. -/

instance transOrdBytes32 : Std.TransOrd (BitVec 256) := inferInstance

instance transOrdBytes20 : Std.TransOrd (BitVec 160) := inferInstance

instance lawfulEqOrdBytes32 : Std.LawfulEqOrd (BitVec 256) := inferInstance

instance lawfulBEqBytes32 : LawfulBEq (BitVec 256) := inferInstance

instance transOrdBytes32UInt64 : Std.TransOrd (Bytes32 ×ₗ UInt64) := inferInstance

instance transOrdUInt32Bytes20 : Std.TransOrd (UInt32 ×ₗ BitVec 160) := inferInstance

instance transOrdPriority : Std.TransOrd (UInt64ᵒᵈ ×ₗ UInt64 ×ₗ Bytes32) := inferInstance

/-- The bytes of an ASCII literal. -/
def asciiBytes (s : String) : List UInt8 := s.toList.map fun c => UInt8.ofNat c.toNat

/-- The low `k` bytes of `n`, most significant first. -/
def beBytes : Nat → Nat → List UInt8
  | 0, _ => []
  | k + 1, n => beBytes k (n / 256) ++ [UInt8.ofNat n]

@[simp] theorem length_beBytes (k n : Nat) : (beBytes k n).length = k := by
  induction k generalizing n with
  | zero => rfl
  | succ k ih => simp [beBytes, ih]

/-- Two numbers that fit in `k` bytes have the same bytes only when they are equal. -/
theorem beBytes_inj {k : Nat} : ∀ {m n : Nat}, m < 256 ^ k → n < 256 ^ k →
    beBytes k m = beBytes k n → m = n := by
  induction k with
  | zero => intro m n hm hn _; simp at hm hn; omega
  | succ k ih =>
    intro m n hm hn h
    obtain ⟨hhi, hlo⟩ := List.append_inj' h rfl
    have hq : m / 256 = n / 256 :=
      ih (by rw [pow_succ] at hm; omega) (by rw [pow_succ] at hn; omega) hhi
    have hr : m % 256 = n % 256 := by
      have := congrArg UInt8.toNat (List.singleton_inj.mp hlo)
      simpa using this
    omega

/-- The number a big-endian byte string spells (`from_be_bytes`). -/
def ofBeBytes (bs : List UInt8) : Nat := bs.foldl (fun n b => 256 * n + b.toNat) 0

theorem ofBeBytes_append_singleton (bs : List UInt8) (b : UInt8) :
    ofBeBytes (bs ++ [b]) = 256 * ofBeBytes bs + b.toNat := by
  simp [ofBeBytes]

theorem ofBeBytes_lt (bs : List UInt8) : ofBeBytes bs < 256 ^ bs.length := by
  induction bs using List.reverseRecOn with
  | nil => decide
  | append_singleton bs b ih =>
    have hb := b.toNat_lt
    rw [ofBeBytes_append_singleton, List.length_append, List.length_singleton, pow_succ]
    omega

/-- Reading back what was written gives the low `k` bytes. -/
theorem beBytes_ofBeBytes (bs : List UInt8) : beBytes bs.length (ofBeBytes bs) = bs := by
  induction bs using List.reverseRecOn with
  | nil => rfl
  | append_singleton bs b ih =>
    have hb := b.toNat_lt
    rw [ofBeBytes_append_singleton, List.length_append, List.length_singleton, beBytes,
      show (256 * ofBeBytes bs + b.toNat) / 256 = ofBeBytes bs by omega, ih]
    simp

theorem ofBeBytes_beBytes (k n : Nat) : ofBeBytes (beBytes k n) = n % 256 ^ k := by
  induction k generalizing n with
  | zero => simp [beBytes, ofBeBytes, Nat.mod_one]
  | succ k ih =>
    have hbyte : (UInt8.ofNat n).toNat = n % 256 := by simp
    rw [beBytes, ofBeBytes_append_singleton, ih, hbyte, pow_succ, Nat.mul_comm (256 ^ k) 256,
      Nat.mod_mul]
    omega

/-! ## Checked arithmetic -/

/-- A number that fits is the value of a word. -/
theorem exists_toNat_eq {w n : Nat} (h : n < 2 ^ w) : ∃ x : BitVec w, x.toNat = n :=
  ⟨BitVec.ofNatLT n h, rfl⟩

variable {w : Nat}

/-- `checked_add`: the sum, or nothing when it does not fit. -/
def checkedAdd (a b : BitVec w) : Option (BitVec w) :=
  if a.toNat + b.toNat < 2 ^ w then some (a + b) else none

variable {a b c : BitVec w}

theorem checkedAdd_eq_some_iff : checkedAdd a b = some c ↔ c.toNat = a.toNat + b.toNat := by
  unfold checkedAdd
  constructor
  · intro h
    split at h
    · next hlt =>
      cases h
      rw [BitVec.toNat_add, Nat.mod_eq_of_lt hlt]
    · cases h
  · intro h
    have hlt : a.toNat + b.toNat < 2 ^ w := h ▸ c.isLt
    rw [if_pos hlt, Option.some.injEq]
    apply BitVec.eq_of_toNat_eq
    rw [BitVec.toNat_add, Nat.mod_eq_of_lt hlt, h]

theorem checkedAdd_eq_none_iff {a b : BitVec w} :
    checkedAdd a b = none ↔ 2 ^ w ≤ a.toNat + b.toNat := by
  unfold checkedAdd
  split <;> simp <;> omega

/-- `checked_sub`: the difference, or nothing when it would be negative. -/
def checkedSub (a b : BitVec w) : Option (BitVec w) :=
  if b ≤ a then some (a - b) else none

theorem checkedSub_eq_some_iff : checkedSub a b = some c ↔ c.toNat + b.toNat = a.toNat := by
  unfold checkedSub
  constructor
  · intro h
    split at h
    · next hle =>
      cases h
      rw [BitVec.toNat_sub_of_le hle]
      exact Nat.sub_add_cancel hle
    · cases h
  · intro h
    have hle : b ≤ a := BitVec.le_def.mpr (by omega)
    rw [if_pos hle, Option.some.injEq]
    apply BitVec.eq_of_toNat_eq
    rw [BitVec.toNat_sub_of_le hle]
    omega

theorem checkedSub_eq_none_iff {a b : BitVec w} : checkedSub a b = none ↔ a.toNat < b.toNat := by
  unfold checkedSub
  split
  · next hle =>
    have := BitVec.le_def.mp hle
    simp only [reduceCtorEq, false_iff]
    omega
  · next hle =>
    rw [BitVec.le_def] at hle
    simp only [true_iff]
    omega

/-- `checked_mul`: the product, or nothing when it does not fit. -/
def checkedMul (a b : BitVec w) : Option (BitVec w) :=
  if a.toNat * b.toNat < 2 ^ w then some (a * b) else none

theorem checkedMul_eq_some_iff : checkedMul a b = some c ↔ c.toNat = a.toNat * b.toNat := by
  unfold checkedMul
  constructor
  · intro h
    split at h
    · next hlt =>
      cases h
      rw [BitVec.toNat_mul, Nat.mod_eq_of_lt hlt]
    · cases h
  · intro h
    have hlt : a.toNat * b.toNat < 2 ^ w := h ▸ c.isLt
    rw [if_pos hlt, Option.some.injEq]
    apply BitVec.eq_of_toNat_eq
    rw [BitVec.toNat_mul, Nat.mod_eq_of_lt hlt, h]

/-- `saturating_sub`: the difference, or 0 when it would be negative. -/
def saturatingSub (a b : BitVec w) : BitVec w := if b ≤ a then a - b else 0

@[simp] theorem toNat_saturatingSub (a b : BitVec w) :
    (saturatingSub a b).toNat = a.toNat - b.toNat := by
  unfold saturatingSub
  split
  · next hle => exact BitVec.toNat_sub_of_le hle
  · next hle =>
    rw [BitVec.le_def] at hle
    simp only [BitVec.ofNat_eq_ofNat, BitVec.toNat_ofNat, Nat.zero_mod]
    omega

/-! ## Sums -/

/-- A sum of words that stays below the modulus is the sum of the numbers. -/
theorem toNat_listSum {xs : List (BitVec w)} (hlt : (xs.map BitVec.toNat).sum < 2 ^ w) :
    xs.sum.toNat = (xs.map BitVec.toNat).sum := by
  induction xs with
  | nil => simp
  | cons x xs ih =>
    rw [List.map_cons, List.sum_cons] at hlt
    rw [List.sum_cons, BitVec.toNat_add, ih (by omega), List.map_cons, List.sum_cons,
      Nat.mod_eq_of_lt hlt]

theorem toNat_finsetSum {α : Type} [DecidableEq α] {A : Finset α} {f : α → BitVec w}
    (hlt : ∑ x ∈ A, (f x).toNat < 2 ^ w) : (∑ x ∈ A, f x).toNat = ∑ x ∈ A, (f x).toNat := by
  induction A using Finset.induction_on with
  | empty => simp
  | insert x A hx ih =>
    rw [Finset.sum_insert hx] at hlt
    rw [Finset.sum_insert hx, Finset.sum_insert hx, BitVec.toNat_add, ih (by omega),
      Nat.mod_eq_of_lt hlt]

end SuwappuDag.Words
