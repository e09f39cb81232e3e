/-
  BYTE LAYOUTS — when the bytes of a record determine the record.

  A digest binds a record only as far as the bytes that are hashed do, and these are its fields one
  after the other, with no separator.

  1. **Fields** — two strings that begin with a number of known width, or with a length and that many
     bytes, agree on this field and on what follows it: the `_append_inj` lemmas.  A record is read by
     using one of them for each field, from the left.
  2. **`Delimited D enc`** — the same for an encoding as a whole, on the values in `D`.  It is what an
     element of a list needs, so that the list can be cut apart.
  3. **Lists** — behind a count (`counted_append_inj`), or up to the end of the string, when no
     element is encoded as nothing (`flatMap_inj`).
  4. **Buffers** — fields copied to fixed offsets that do not overlap (`Placed`) can be read back
     there, whatever the order of the copies (`readAt_copyAll`); and the entries of a table of one
     width are read back at their multiples of it (`readAt_flatMap`).
-/
import SuwappuDag.Lib.Words

namespace SuwappuDag.Layout

open Words

/-! ## Fields -/

section Fields

variable {s t : List UInt8}

theorem beBytes_append_inj {k m n : Nat} (hm : m < 256 ^ k) (hn : n < 256 ^ k)
    (h : beBytes k m ++ s = beBytes k n ++ t) : m = n ∧ s = t := by
  obtain ⟨hbytes, hrest⟩ := List.append_inj h (by simp)
  exact ⟨beBytes_inj hm hn hbytes, hrest⟩

theorem u32_append_inj {a b : UInt32} (h : beBytes 4 a.toNat ++ s = beBytes 4 b.toNat ++ t) :
    a = b ∧ s = t := by
  obtain ⟨hab, hrest⟩ := beBytes_append_inj a.toNat_lt b.toNat_lt h
  exact ⟨UInt32.toNat_inj.mp hab, hrest⟩

theorem u64_append_inj {a b : UInt64} (h : beBytes 8 a.toNat ++ s = beBytes 8 b.toNat ++ t) :
    a = b ∧ s = t := by
  obtain ⟨hab, hrest⟩ := beBytes_append_inj a.toNat_lt b.toNat_lt h
  exact ⟨UInt64.toNat_inj.mp hab, hrest⟩

theorem word_append_inj {k w : Nat} (hw : w = 8 * k) {a b : BitVec w}
    (h : beBytes k a.toNat ++ s = beBytes k b.toNat ++ t) : a = b ∧ s = t := by
  have hwidth : 2 ^ w = 256 ^ k := by rw [hw, pow_mul]; norm_num
  obtain ⟨hab, hrest⟩ := beBytes_append_inj (hwidth ▸ a.isLt) (hwidth ▸ b.isLt) h
  exact ⟨BitVec.eq_of_toNat_eq hab, hrest⟩

/-- A length that fits in four bytes, and that many bytes. -/
theorem lengthPrefixed_append_inj {bs cs : List UInt8} (hb : bs.length < 2 ^ 32)
    (hc : cs.length < 2 ^ 32)
    (h : beBytes 4 bs.length ++ (bs ++ s) = beBytes 4 cs.length ++ (cs ++ t)) : bs = cs ∧ s = t := by
  obtain ⟨hlen, h⟩ := beBytes_append_inj hb hc h
  exact List.append_inj h hlen

end Fields

/-! ## Encodings that end where they say -/

section Encodings

variable {α : Type} {D : α → Prop} {enc : α → List UInt8} {s t : List UInt8}

/-- Whatever follows, two encodings of values in `D` agree only where the values do. -/
def Delimited (D : α → Prop) (enc : α → List UInt8) : Prop :=
  ∀ ⦃a b : α⦄ ⦃s t : List UInt8⦄, D a → D b → enc a ++ s = enc b ++ t → a = b ∧ s = t

theorem Delimited.flatMap_append_inj (he : Delimited D enc) : ∀ {xs ys : List α},
    (∀ x ∈ xs, D x) → (∀ y ∈ ys, D y) → xs.length = ys.length →
    xs.flatMap enc ++ s = ys.flatMap enc ++ t → xs = ys ∧ s = t := by
  intro xs
  induction xs with
  | nil =>
    intro ys _ _ hlen h
    rw [List.eq_nil_of_length_eq_zero hlen.symm] at h ⊢
    exact ⟨rfl, h⟩
  | cons x xs ih =>
    intro ys hxs hys hlen h
    cases ys with
    | nil => simp at hlen
    | cons y ys =>
      obtain ⟨hx, hxs'⟩ := List.forall_mem_cons.mp hxs
      obtain ⟨hy, hys'⟩ := List.forall_mem_cons.mp hys
      simp only [List.flatMap_cons, List.append_assoc] at h
      obtain ⟨rfl, htail⟩ := he hx hy h
      obtain ⟨rfl, hrest⟩ := ih hxs' hys' (Nat.succ_injective hlen) htail
      exact ⟨rfl, hrest⟩

/-- A count that fits in four bytes, and that many elements. -/
theorem Delimited.counted_append_inj (he : Delimited D enc) {xs ys : List α}
    (hxs : ∀ x ∈ xs, D x) (hys : ∀ y ∈ ys, D y) (hx : xs.length < 2 ^ 32) (hy : ys.length < 2 ^ 32)
    (h : beBytes 4 xs.length ++ (xs.flatMap enc ++ s) = beBytes 4 ys.length ++ (ys.flatMap enc ++ t)) :
    xs = ys ∧ s = t := by
  obtain ⟨hlen, h⟩ := beBytes_append_inj hx hy h
  exact he.flatMap_append_inj hxs hys hlen h

/-- Without a count, up to the end of the string. -/
theorem Delimited.flatMap_inj (he : Delimited D enc) (hne : ∀ x, enc x ≠ []) : ∀ {xs ys : List α},
    (∀ x ∈ xs, D x) → (∀ y ∈ ys, D y) → xs.flatMap enc = ys.flatMap enc → xs = ys := by
  have hempty : ∀ {xs : List α}, xs.flatMap enc = [] → xs = [] := by
    intro xs h
    cases xs with
    | nil => rfl
    | cons x xs =>
      rw [List.flatMap_cons, List.append_eq_nil_iff] at h
      exact absurd h.1 (hne x)
  intro xs
  induction xs with
  | nil => exact fun _ _ h => (hempty h.symm).symm
  | cons x xs ih =>
    intro ys hxs hys h
    cases ys with
    | nil => exact hempty h
    | cons y ys =>
      obtain ⟨hx, hxs'⟩ := List.forall_mem_cons.mp hxs
      obtain ⟨hy, hys'⟩ := List.forall_mem_cons.mp hys
      simp only [List.flatMap_cons] at h
      obtain ⟨rfl, htail⟩ := he hx hy h
      rw [ih hxs' hys' htail]

end Encodings

/-! ## Fields at fixed offsets -/

section Buffers

/-- `buf[offset..offset + bytes.len()].copy_from_slice(&bytes)`. -/
def copyAt (buf : List UInt8) (offset : Nat) (bytes : List UInt8) : List UInt8 :=
  buf.take offset ++ bytes ++ buf.drop (offset + bytes.length)

/-- `&buf[offset..offset + width]`. -/
def readAt (buf : List UInt8) (offset width : Nat) : List UInt8 := (buf.drop offset).take width

/-- Copy a table of fields, each to its offset. -/
def copyAll (buf : List UInt8) (fields : List (Nat × List UInt8)) : List UInt8 :=
  fields.foldl (fun buf f => copyAt buf f.1 f.2) buf

variable {buf bytes : List UInt8} {offset : Nat}

theorem length_copyAt (h : offset + bytes.length ≤ buf.length) :
    (copyAt buf offset bytes).length = buf.length := by
  simp only [copyAt, List.length_append, List.length_take, List.length_drop]
  omega

theorem readAt_copyAt (h : offset + bytes.length ≤ buf.length) :
    readAt (copyAt buf offset bytes) offset bytes.length = bytes := by
  have htake : (buf.take offset).length = offset := by rw [List.length_take]; omega
  rw [readAt, copyAt, List.append_assoc, List.drop_append_of_le_length htake.ge,
    List.drop_eq_nil_of_le htake.le, List.nil_append, List.take_left]

/-- What does not overlap is left alone. -/
theorem readAt_copyAt_of_disjoint (h : offset + bytes.length ≤ buf.length) {o k : Nat}
    (hd : o + k ≤ offset ∨ offset + bytes.length ≤ o) :
    readAt (copyAt buf offset bytes) o k = readAt buf o k := by
  refine List.ext_getElem? fun i => ?_
  simp only [readAt, List.getElem?_take, List.getElem?_drop]
  split
  · have htake : (buf.take offset).length = offset := by rw [List.length_take]; omega
    rw [copyAt, List.append_assoc, List.getElem?_append, htake]
    split
    · rw [List.getElem?_take, if_pos (by assumption)]
    · rw [List.getElem?_append_right (by omega), List.getElem?_drop]
      congr 1
      omega
  · rfl

/-- The fields lie within the buffer and apart from each other. -/
def Placed (size : Nat) (fields : List (Nat × List UInt8)) : Prop :=
  (∀ f ∈ fields, f.1 + f.2.length ≤ size) ∧
    fields.Pairwise fun f g => f.1 + f.2.length ≤ g.1 ∨ g.1 + g.2.length ≤ f.1

/-- The copies of other fields leave a range alone. -/
theorem readAt_copyAll_of_disjoint {o k : Nat} : ∀ {fields : List (Nat × List UInt8)}
    {buf : List UInt8}, (∀ f ∈ fields, f.1 + f.2.length ≤ buf.length) →
    (∀ f ∈ fields, o + k ≤ f.1 ∨ f.1 + f.2.length ≤ o) →
    readAt (copyAll buf fields) o k = readAt buf o k := by
  intro fields
  induction fields with
  | nil => exact fun _ _ => rfl
  | cons f fields ih =>
    intro buf hin hd
    obtain ⟨hf, hin⟩ := List.forall_mem_cons.mp hin
    obtain ⟨hfd, hd⟩ := List.forall_mem_cons.mp hd
    calc readAt (copyAll (copyAt buf f.1 f.2) fields) o k
        = readAt (copyAt buf f.1 f.2) o k := ih (by rwa [length_copyAt hf]) hd
      _ = readAt buf o k := readAt_copyAt_of_disjoint hf hfd

/-- **Every field is read back at its offset.** -/
theorem readAt_copyAll : ∀ {fields : List (Nat × List UInt8)} {buf : List UInt8},
    Placed buf.length fields → ∀ f ∈ fields, readAt (copyAll buf fields) f.1 f.2.length = f.2 := by
  intro fields
  induction fields with
  | nil => exact fun _ => List.forall_mem_nil _
  | cons g fields ih =>
    rintro buf ⟨hin, hapart⟩ f hf
    obtain ⟨hg, hin⟩ := List.forall_mem_cons.mp hin
    obtain ⟨hfirst, hapart⟩ := List.pairwise_cons.mp hapart
    have hlen := length_copyAt hg
    rcases List.mem_cons.mp hf with rfl | hf
    · calc readAt (copyAll (copyAt buf f.1 f.2) fields) f.1 f.2.length
          = readAt (copyAt buf f.1 f.2) f.1 f.2.length :=
            readAt_copyAll_of_disjoint (by rwa [hlen]) hfirst
        _ = f.2 := readAt_copyAt hg
    · exact ih ⟨by rwa [hlen], hapart⟩ f hf

/-- What is read behind a header. -/
theorem readAt_append (head rest : List UInt8) (o k : Nat) :
    readAt (head ++ rest) (head.length + o) k = readAt rest o k := by
  rw [readAt, List.drop_append, List.drop_eq_nil_of_le (Nat.le_add_right _ _), List.nil_append,
    Nat.add_sub_cancel_left]
  rfl

/-- An entry of a table of entries of one width. -/
theorem readAt_flatMap {α : Type} {enc : α → List UInt8} {k : Nat} (hk : ∀ a, (enc a).length = k) :
    ∀ {xs : List α} {i : Nat} {x : α}, xs[i]? = some x →
      readAt (xs.flatMap enc) (i * k) k = enc x := by
  intro xs
  induction xs with
  | nil => intro i x hx; cases hx
  | cons y xs ih =>
    intro i x hx
    rw [List.flatMap_cons]
    cases i with
    | zero =>
      cases hx
      rw [readAt, Nat.zero_mul, List.drop_zero, ← hk y, List.take_left]
    | succ i =>
      rw [Nat.succ_mul, Nat.add_comm, ← hk y, readAt_append, hk y]
      exact ih hx

end Buffers

end SuwappuDag.Layout
