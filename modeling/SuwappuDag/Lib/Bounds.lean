/-
  READERS THAT STAY IN RANGE.

  A slice past the end of the bytes is the one error a decoder must not make (`outOfRange`).

  1. **`InRange n r`** — with at least `n` bytes left, `r` makes no such slice.
  2. **`Exact k r`** — moreover it takes exactly `k` bytes when it succeeds, so that bounds ADD UP along
     a sequence of fields, and multiply along a run of entries.
  3. **`Lawful`** — what a codec of tables owes: the round trip, and to be in range.
  4. **Crux** — a test of the length in front (`need`, `exactly`, the size check of a `Format`) supplies
     the bytes that the fields behind it take; a decoder that tests first is in range on EVERY input.
-/
import SuwappuDag.Lib.Codec
import SuwappuDag.Lib.Frame

namespace SuwappuDag.Codec

open Words Command
open Std (ExtTreeMap)

/-- With `n` bytes left, the reader does not slice past the end. -/
def InRange {α : Type} (n : Nat) (r : Reader α) : Prop :=
  ∀ bs : List UInt8, n ≤ bs.length → Errs (· ≠ outOfRange) r bs

/-- The reader takes exactly `k` bytes. -/
structure Exact {α : Type} (k : Nat) (r : Reader α) : Prop where
  inRange : InRange k r
  rest : ∀ {bs bs' : List UInt8} {a : α}, k ≤ bs.length → r bs = (.ok a, bs') →
    bs'.length + k = bs.length

section Rules

variable {α β : Type} {r : Reader α} {f : α → Reader β} {k n : Nat} {why : String}

theorem InRange.mono (h : InRange k r) (hk : k ≤ n) : InRange n r :=
  fun bs hbs => h bs (hk.trans hbs)

theorem inRange_pure (n : Nat) (a : α) : InRange n (pure a) := fun _ _ => errs_pure a

theorem InRange.bind (hr : InRange n r) (hf : ∀ a, InRange 0 (f a)) : InRange n (r >>= f) :=
  fun bs hbs => (hr bs hbs).bind fun a bs' _ => hf a bs' (Nat.zero_le _)

theorem Exact.bind_inRange (hr : Exact k r) (hf : ∀ a, InRange n (f a)) :
    InRange (k + n) (r >>= f) := by
  intro bs hbs
  refine (hr.inRange bs (by omega)).bind fun a bs' hrun => hf a bs' ?_
  have := hr.rest (by omega) hrun
  omega

theorem Exact.bind {k' : Nat} (hr : Exact k r) (hf : ∀ a, Exact k' (f a)) :
    Exact (k + k') (r >>= f) where
  inRange := hr.bind_inRange fun a => (hf a).inRange
  rest {bs bs'} b hbs hrun := by
    obtain ⟨a, bs₁, hr₁, hf₁⟩ := bind_eq_ok_iff.mp hrun
    have hfirst := hr.rest (by omega) hr₁
    have hsecond := (hf a).rest (by omega) hf₁
    omega

theorem exact_pure (a : α) : Exact 0 (pure a) where
  inRange := inRange_pure 0 a
  rest _ hrun := by
    cases hrun
    rfl

theorem exact_fetch {g : List UInt8 → Except String α} (h : ∀ bs, g bs ≠ .error outOfRange) :
    Exact 0 (fetch g) where
  inRange bs _ := errs_fetch fun e he heq => h bs (heq ▸ he)
  rest _ hrun := by
    obtain ⟨-, rfl⟩ := fetch_eq_ok_iff.mp hrun
    rfl

theorem exact_reject {p : Prop} [Decidable p] (h : why ≠ outOfRange) : Exact 0 (reject p why) where
  inRange _ _ := errs_failIf h
  rest _ hrun := by
    obtain ⟨-, rfl⟩ := failIf_eq_ok_iff.mp hrun
    rfl

theorem exact_take (k : Nat) : Exact k (take k) where
  inRange bs hbs e he := by
    rw [take, if_neg (not_lt.mpr hbs)] at he
    cases he
  rest {bs bs'} a hbs hrun := by
    rw [(take_eq_ok hrun).2, List.length_drop]
    omega

theorem exact_word (k : Nat) : Exact k (word k) := (exact_take k).bind fun _ => exact_pure _

theorem exact_u8 : Exact 1 u8 := (exact_word 1).bind fun _ => exact_pure _

theorem exact_u32 : Exact 4 u32 := (exact_word 4).bind fun _ => exact_pure _

theorem exact_u64 : Exact 8 u64 := (exact_word 8).bind fun _ => exact_pure _

theorem exact_array (w : Nat) : Exact (w / 8) (array w) := (exact_word _).bind fun _ => exact_pure _

/-- A test that `k` bytes are there supplies them to what follows. -/
theorem inRange_need_bind {f : Unit → Reader β} (hwhy : why ≠ outOfRange) (h : InRange k (f ())) :
    InRange n (need k why >>= f) := by
  intro bs _
  refine errs_fetch_bind (fun e he => ?_) fun _ hpass => h bs ?_
  · split at he
    · cases he
      exact hwhy
    · cases he
  · split at hpass
    · cases hpass
    · next hlt => exact not_lt.mp hlt

end Rules

/-! ## Entries -/

section Entries

variable {κ ν : Type} [Ord κ] [Std.TransOrd κ] {get : Reader (κ × ν)} {dup : Option String}

/-- Without a reason for repeated keys there is no such error. -/
theorem getD_ne_outOfRange (hdup : ∀ why ∈ dup, why ≠ outOfRange) : dup.getD "" ≠ outOfRange := by
  cases dup with
  | none => decide
  | some why => exact hdup why rfl

theorem entries_exact {w : Nat} (hget : Exact w get) (hdup : ∀ why ∈ dup, why ≠ outOfRange)
    (n : Nat) (m : ExtTreeMap κ ν) : Exact (n * w) (entries get dup n m) := by
  induction n generalizing m with
  | zero =>
    rw [Nat.zero_mul]
    exact exact_pure m
  | succ n ih =>
    have h : Exact (w + (0 + n * w)) (entries get dup (n + 1) m) :=
      hget.bind fun e => (exact_reject (getD_ne_outOfRange hdup)).bind fun _ => ih _
    rwa [Nat.zero_add, Nat.add_comm, ← Nat.succ_mul] at h

/-- Entries of variable width are in range one by one. -/
theorem entries_inRange (hget : InRange 0 get) (hdup : ∀ why ∈ dup, why ≠ outOfRange) (n : Nat)
    (m : ExtTreeMap κ ν) : InRange 0 (entries get dup n m) := by
  induction n generalizing m with
  | zero => exact inRange_pure 0 m
  | succ n ih =>
    exact hget.bind fun e => (exact_reject (getD_ne_outOfRange hdup)).inRange.bind fun _ => ih _

/-- A number of entries, the entries, and nothing else. -/
theorem counted_inRange {trailing : String} (hget : InRange 0 get)
    (hdup : ∀ why ∈ dup, why ≠ outOfRange) (htrailing : trailing ≠ outOfRange) :
    InRange 4 (counted get dup trailing) :=
  (exact_word 4).inRange.bind fun count => (entries_inRange hget hdup count ∅).bind fun map bs _ =>
    errs_read_bind <| (exact_reject htrailing).inRange.bind (fun _ => inRange_pure 0 map) bs
      (Nat.zero_le _)

/-- The reasons a format's decoder gives of its own. -/
def Format.reasons (f : Format κ ν) : List String :=
  f.headerMissing :: f.sizeMismatch :: (f.duplicate.toList ++ (f.version.map Prod.snd).toList)

/-- The size check supplies the bytes of every entry. -/
theorem Format.decode_inRange {f : Format κ ν} (hget : Exact f.width f.get)
    (hreasons : outOfRange ∉ f.reasons) (bs : List UInt8) : f.decode bs ≠ .error outOfRange := by
  simp only [reasons, List.mem_cons, List.mem_append, Option.mem_toList, not_or] at hreasons
  obtain ⟨hheader, hsize, hdup, hversion⟩ := hreasons
  have hcheck : Exact (if f.version.isSome then 4 else 0) f.checkVersion := by
    unfold checkVersion
    cases hv : f.version with
    | none => exact exact_pure ()
    | some v =>
      rw [hv] at hversion
      exact exact_u32.bind fun _ => exact_reject fun heq => hversion (congrArg some heq)
  unfold decode
  split
  · exact nofun
  split
  · exact fun h => hheader (Except.error.inj h).symm
  · next hlen =>
    -- what is left behind the header is what the count promises
    have hbody : Errs (· ≠ outOfRange) (f.body bs.length) bs := by
      unfold headerBytes at hlen
      refine (hcheck.inRange bs (by omega)).bind fun _ bs₁ hrun₁ => ?_
      have h₁ := hcheck.rest (by omega) hrun₁
      refine ((exact_word 4).inRange bs₁ (by omega)).bind fun count bs₂ hrun₂ => ?_
      have h₂ := (exact_word 4).rest (by omega) hrun₂
      refine errs_failIf_bind (Ne.symm hsize) fun hcount => ?_
      have hcount := not_not.mp hcount
      unfold headerBytes at hcount
      refine (entries_exact hget (fun why hwhy heq => ?_) count ∅).inRange bs₂ (by omega)
      exact hdup (heq ▸ hwhy)
    exact fun h => hbody outOfRange h rfl

end Entries

/-! ## Codecs -/

/-- What a codec of tables owes: a table that fits is read back, and on no input does the decoder slice
    past the end. -/
structure Lawful {μ : Type} (encode : μ → List UInt8) (decode : List UInt8 → Except String μ)
    (Fits : μ → Prop) : Prop where
  decode_encode : ∀ m, Fits m → decode (encode m) = .ok m
  inRange : ∀ bytes, decode bytes ≠ .error outOfRange

end SuwappuDag.Codec
