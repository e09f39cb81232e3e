/-
  BYTE CODECS — length-checked records and the maps stored as a header and a run of entries.

  1. **Reader** — a `Command` over the bytes that are left, failing with a reason.  `take k` is the
     slice `bytes[cursor..cursor + k]` together with `cursor += k`.  A slice past the end is a PANIC of
     the source; here it fails for a reason of its own, `outOfRange`, so that a decoder that never
     gives this reason never reads out of range.
  2. **`Reads r bs a`** — `r` takes exactly `bs` off the front and returns `a`, whatever follows.
     Round trips compose: a reader built with `>>=` reads the concatenation of what its parts read.
     `Canonical r put P` is the converse as well: `r` accepts what `put` writes, and NOTHING else.
  3. **`Format`** — a map written as `version? ‖ count ‖ entries`, every entry of one width.  The
     count is truncated to 32 bits when it is written, and the decoder insists that the length
     agrees with it; so a decodable encoding NEVER has 2^32 entries or more, and decoding gives back
     the map that was written.
  4. **`counted`** — the same for entries of VARIABLE width: no length can be checked in advance, and
     what is left behind the last entry must be nothing.
-/
import SuwappuDag.Lib.Words
import SuwappuDag.Lib.Command

namespace SuwappuDag.Codec

open Words Command
open Std (ExtTreeMap)

/-- A decoder of the bytes that are left; its errors are reasons. -/
abbrev Reader (α : Type) := Command String (List UInt8) α

/-- What a slice past the end of the bytes ends in. -/
def outOfRange : String := "range end index out of range for slice"

/-- The next `k` bytes. -/
def take (k : Nat) : Reader (List UInt8) := fun bs =>
  if bs.length < k then (.error outOfRange, bs) else (.ok (bs.take k), bs.drop k)

/-- Insist that `k` more bytes are there. -/
def need (k : Nat) (why : String) : Reader Unit := fetch fun bs =>
  if bs.length < k then .error why else .ok ()

/-- Fail for the given reason when `p` holds. -/
def reject (p : Prop) [Decidable p] (why : String) : Reader Unit := failIf p why

/-- A `k`-byte big-endian number. -/
def word (k : Nat) : Reader Nat := do return ofBeBytes (← take k)

def u8 : Reader UInt8 := do return UInt8.ofNat (← word 1)
def u32 : Reader UInt32 := do return UInt32.ofNat (← word 4)
def u64 : Reader UInt64 := do return UInt64.ofNat (← word 8)

/-- A byte array of `w / 8` bytes. -/
def array (w : Nat) : Reader (BitVec w) := do return BitVec.ofNat w (← word (w / 8))

/-! ## What a reader reads -/

section Reads

variable {α β : Type}

/-- `r` takes exactly `bs` off the front of its input and returns `a`. -/
def Reads (r : Reader α) (bs : List UInt8) (a : α) : Prop := ∀ rest, r (bs ++ rest) = (.ok a, rest)

theorem reads_pure (a : α) : Reads (pure a) [] a := fun rest => rfl

theorem Reads.bind {r : Reader α} {k : α → Reader β} {bs cs : List UInt8} {a : α} {b : β}
    (hr : Reads r bs a) (hk : Reads (k a) cs b) : Reads (r >>= k) (bs ++ cs) b := by
  intro rest
  rw [List.append_assoc, bind_run_ok (hr (cs ++ rest)), hk rest]

variable {bs : List UInt8}

/-- A last step that only computes reads nothing more. -/
theorem Reads.map {r : Reader α} {a : α} (hr : Reads r bs a) (f : α → β) :
    Reads (do return f (← r)) bs (f a) := by
  intro rest
  rw [bind_run_ok (hr rest)]
  rfl

theorem reads_take (bs : List UInt8) : Reads (take bs.length) bs bs := by
  intro rest
  simp [take]

theorem take_eq_ok {k : Nat} {bs bs' xs : List UInt8} (h : take k bs = (.ok xs, bs')) :
    xs = bs.take k ∧ bs' = bs.drop k := by
  unfold take at h
  split at h
  · cases h
  · cases h
    exact ⟨rfl, rfl⟩

theorem need_run {k : Nat} {why : String} (h : k ≤ bs.length) : need k why bs = (.ok (), bs) := by
  rw [need, fetch_run, if_neg (not_lt.mpr h)]

theorem reject_run {p : Prop} [Decidable p] {why : String} (h : ¬ p) :
    reject p why bs = (.ok (), bs) := failIf_eq_ok_iff.mpr ⟨h, rfl⟩

variable {k n : Nat}

theorem reads_word (h : n < 256 ^ k) : Reads (word k) (beBytes k n) n := by
  have hread := (reads_take (beBytes k n)).map ofBeBytes
  rwa [length_beBytes, ofBeBytes_beBytes, Nat.mod_eq_of_lt h] at hread

theorem word_eq_ok {bs bs' : List UInt8} (h : word k bs = (.ok n, bs')) :
    n = ofBeBytes (bs.take k) ∧ bs' = bs.drop k := by
  obtain ⟨xs, cs, htake, h⟩ := bind_eq_ok_iff.mp h
  obtain ⟨rfl, rfl⟩ := take_eq_ok htake
  cases h
  exact ⟨rfl, rfl⟩

theorem reads_u8 (x : UInt8) : Reads u8 (beBytes 1 x.toNat) x := by
  have h := (reads_word (k := 1) (n := x.toNat) (by have := x.toNat_lt; omega)).map UInt8.ofNat
  rwa [UInt8.ofNat_toNat] at h

theorem reads_u32 (x : UInt32) : Reads u32 (beBytes 4 x.toNat) x := by
  have h := (reads_word (k := 4) (n := x.toNat) (by have := x.toNat_lt; omega)).map UInt32.ofNat
  rwa [UInt32.ofNat_toNat] at h

theorem reads_u64 (x : UInt64) : Reads u64 (beBytes 8 x.toNat) x := by
  have h := (reads_word (k := 8) (n := x.toNat) (by have := x.toNat_lt; omega)).map UInt64.ofNat
  rwa [UInt64.ofNat_toNat] at h

theorem reads_array {k : Nat} (x : BitVec (8 * k)) :
    Reads (array (8 * k)) (beBytes k x.toNat) x := by
  have hlt : x.toNat < 256 ^ k := by
    have := x.isLt
    rwa [pow_mul] at this
  have h := (reads_word hlt).map (BitVec.ofNat (8 * k))
  rw [BitVec.ofNat_toNat, BitVec.setWidth_eq] at h
  rwa [array, Nat.mul_div_cancel_left k (by decide)]

end Reads

/-! ## What a reader lets through -/

section Gives

variable {α β : Type} {P : α → Prop} {Q : β → Prop} {r : Reader α} {k : α → Reader β}

/-- Whatever `r` returns satisfies `P`. -/
def Gives (P : α → Prop) (r : Reader α) : Prop := ∀ bs a bs', r bs = (.ok a, bs') → P a

theorem gives_pure {a : α} (h : P a) : Gives P (pure a) := by
  intro bs a' bs' hrun
  cases hrun
  exact h

theorem Gives.bind (hr : Gives P r) (hk : ∀ a, P a → Gives Q (k a)) : Gives Q (r >>= k) := by
  intro bs b bs' hrun
  obtain ⟨a, cs, ha, hb⟩ := bind_eq_ok_iff.mp hrun
  exact hk a (hr bs a cs ha) cs b bs' hb

theorem gives_bind (hk : ∀ a, Gives Q (k a)) : Gives Q (r >>= k) :=
  Gives.bind (P := fun _ => True) (fun _ _ _ _ => trivial) fun a _ => hk a

theorem Gives.mono {P' : α → Prop} (hr : Gives P r) (h : ∀ a, P a → P' a) : Gives P' r :=
  fun bs a bs' hrun => h a (hr bs a bs' hrun)

/-- The decoder keeps only the answer. -/
theorem Gives.fst (hr : Gives P r) {bs : List UInt8} {a : α} (h : (r bs).1 = .ok a) : P a :=
  hr bs a (r bs).2 (Prod.ext h rfl)

theorem gives_reject (p : Prop) [Decidable p] (why : String) :
    Gives (fun _ => ¬ p) (reject p why) := fun _ _ _ hrun => (failIf_eq_ok_iff.mp hrun).1

theorem gives_take (k : Nat) : Gives (·.length ≤ k) (take k) := by
  intro bs xs bs' hrun
  rw [(take_eq_ok hrun).1]
  exact List.length_take_le k bs

theorem gives_word (k : Nat) : Gives (· < 256 ^ k) (word k) :=
  (gives_take k).bind fun xs hxs => gives_pure <|
    (ofBeBytes_lt xs).trans_le (Nat.pow_le_pow_right (by decide) hxs)

end Gives

/-! ## Readers that accept what was written and nothing else -/

section Canonical

variable {α β : Type} {r : Reader α} {put : α → List UInt8} {P : α → Prop} {k : α → Reader β}
  {bs rest : List UInt8} {a : α} {b : β}

/-- `r` takes exactly what `put` writes of the values in `P`: it accepts nothing else. -/
class Canonical (r : Reader α) (put : outParam (α → List UInt8)) (P : outParam (α → Prop)) : Prop where
  iff : ∀ {bs a rest}, r bs = (.ok a, rest) ↔ P a ∧ put a ++ rest = bs

/-- A step behind a canonical one starts behind what was written. -/
theorem Canonical.bind_iff [h : Canonical r put P] : (r >>= k) bs = (.ok b, rest) ↔
    ∃ a, P a ∧ ∃ cs, put a ++ cs = bs ∧ k a cs = (.ok b, rest) := by
  rw [bind_eq_ok_iff]
  constructor
  · rintro ⟨a, cs, ha, hb⟩
    exact ⟨a, (h.iff.mp ha).1, cs, (h.iff.mp ha).2, hb⟩
  · rintro ⟨a, ha, cs, rfl, hb⟩
    exact ⟨a, cs, h.iff.mpr ⟨ha, rfl⟩, hb⟩

theorem Canonical.run [h : Canonical r put P] (ha : P a) : (r >>= k) (put a ++ rest) = k a rest :=
  bind_run_ok (h.iff.mpr ⟨ha, rfl⟩)

/-- The same under another view of the values. -/
theorem Canonical.map (h : Canonical r put P) {f : α → β} {g : β → α} (hfg : ∀ b, f (g b) = b)
    (hgf : ∀ a, P a → g (f a) = a) (hP : ∀ b, P (g b)) :
    Canonical (do return f (← r)) (fun b => put (g b)) fun _ => True where
  iff := by
    intro bs b rest
    rw [h.bind_iff, true_and]
    constructor
    · rintro ⟨a, ha, cs, rfl, hb⟩
      cases hb
      rw [hgf a ha]
    · rintro rfl
      exact ⟨g b, hP b, rest, rfl, by rw [hfg, pure_run]⟩

end Canonical

/-! ## Maps read entry by entry -/

section Entries

variable {κ ν : Type} [Ord κ] [Std.TransOrd κ]

/-- Read `n` entries into the map.  With a reason in `dup` a key that is already there is refused,
    without one it is overwritten. -/
def entries (get : Reader (κ × ν)) (dup : Option String) :
    Nat → ExtTreeMap κ ν → Reader (ExtTreeMap κ ν)
  | 0, m => pure m
  | n + 1, m => do
    let e ← get
    reject (dup.isSome ∧ e.1 ∈ m) (dup.getD "")
    entries get dup n (m.insert e.1 e.2)

/-- The entries of a list put into a map, one after the other. -/
def insertAll (l : List (κ × ν)) (m : ExtTreeMap κ ν) : ExtTreeMap κ ν :=
  l.foldl (fun m e => m.insert e.1 e.2) m

variable [Std.LawfulEqOrd κ]

variable {dup : Option String} {get : Reader (κ × ν)} {m : ExtTreeMap κ ν}

theorem entries_reads {put : κ × ν → List UInt8} {l : List (κ × ν)}
    (hread : ∀ e ∈ l, Reads get (put e) e) (hkeys : (l.map Prod.fst).Nodup)
    (hfresh : ∀ e ∈ l, e.1 ∉ m) :
    Reads (entries get dup l.length m) (l.flatMap put) (insertAll l m) := by
  induction l generalizing m with
  | nil => exact reads_pure m
  | cons e l ih =>
    rw [List.map_cons, List.nodup_cons] at hkeys
    have hrest : Reads (entries get dup l.length (m.insert e.1 e.2)) (l.flatMap put)
        (insertAll l (m.insert e.1 e.2)) := by
      refine ih (fun e' he' => hread e' (List.mem_cons_of_mem e he')) hkeys.2 ?_
      intro e' he' hmem
      rw [ExtTreeMap.mem_insert, Std.compare_eq_iff_eq] at hmem
      rcases hmem with heq | hmem
      · exact hkeys.1 (heq ▸ List.mem_map_of_mem he')
      · exact hfresh e' (List.mem_cons_of_mem e he') hmem
    have hpass : Reads (reject (dup.isSome ∧ e.1 ∈ m) (dup.getD "")) [] () := by
      intro rest
      exact failIf_eq_ok_iff.mpr ⟨fun h => hfresh e List.mem_cons_self h.2, rfl⟩
    exact (hread e List.mem_cons_self).bind (hpass.bind hrest)

omit [Std.LawfulEqOrd κ] in
/-- What every entry that is read satisfies, the whole map satisfies. -/
theorem entries_gives {P : ν → Prop} (hget : Gives (fun e => P e.2) get) (n : Nat)
    (hm : ∀ (k : κ) v, m[k]? = some v → P v) :
    Gives (fun m' => ∀ (k : κ) v, m'[k]? = some v → P v) (entries get dup n m) := by
  induction n generalizing m with
  | zero => exact gives_pure hm
  | succ n ih =>
    refine hget.bind fun e he => gives_bind fun _ => ih ?_
    intro k v hk
    rw [ExtTreeMap.getElem?_insert] at hk
    split at hk
    · cases hk
      exact he
    · exact hm k v hk

omit [Std.LawfulEqOrd κ] in
/-- A map read from `n` entries has at most `n` keys more. -/
theorem entries_size_le (n : Nat) : Gives (·.size ≤ m.size + n) (entries get dup n m) := by
  induction n generalizing m with
  | zero => exact gives_pure (Nat.le_refl _)
  | succ n ih =>
    refine gives_bind fun e => gives_bind fun _ => ih.mono fun m' hrest => ?_
    have hstep : (m.insert e.1 e.2).size ≤ m.size + 1 := ExtTreeMap.size_insert_le
    omega

theorem getElem?_insertAll {l : List (κ × ν)} [DecidableEq κ] (hkeys : (l.map Prod.fst).Nodup)
    (k : κ) : (insertAll l m)[k]? = ((l.find? fun e => e.1 = k).map Prod.snd).or m[k]? := by
  induction l generalizing m with
  | nil => simp [insertAll]
  | cons e l ih =>
    rw [List.map_cons, List.nodup_cons] at hkeys
    show (insertAll l (m.insert e.1 e.2))[k]? = _
    rw [ih hkeys.2, ExtTreeMap.getElem?_insert]
    by_cases hk : e.1 = k
    · subst hk
      have hnone : l.find? (fun e' => e'.1 = e.1) = none := by
        rw [List.find?_eq_none]
        intro e' he'
        have : e'.1 ≠ e.1 := fun h => hkeys.1 (h ▸ List.mem_map_of_mem he')
        simpa using this
      simp [hnone]
    · simp [hk]

theorem nodup_keys_toList (m : ExtTreeMap κ ν) : (m.toList.map Prod.fst).Nodup := by
  rw [List.nodup_iff_pairwise_ne, List.pairwise_map]
  exact m.distinct_keys_toList.imp fun h heq => h (by rw [heq]; exact Std.ReflCmp.compare_self)

/-- A map is rebuilt from its own list of entries. -/
theorem insertAll_toList (m : ExtTreeMap κ ν) : insertAll m.toList ∅ = m := by
  classical
  apply ExtTreeMap.ext_getElem?
  intro k
  rw [getElem?_insertAll (nodup_keys_toList m)]
  cases hk : m[k]? with
  | none =>
    have hnone : m.toList.find? (fun e => e.1 = k) = none := by
      rw [List.find?_eq_none]
      rintro ⟨k', v⟩ hmem heq
      rw [ExtTreeMap.mem_toList_iff_getElem?_eq_some] at hmem
      have : k' = k := by simpa using heq
      rw [this, hk] at hmem
      cases hmem
    simp [hnone]
  | some v =>
    have hmem : (k, v) ∈ m.toList := ExtTreeMap.mem_toList_iff_getElem?_eq_some.mpr hk
    cases hf : m.toList.find? (fun e => e.1 = k) with
    | none =>
      have := List.find?_eq_none.mp hf (k, v) hmem
      simp at this
    | some e =>
      have hek : e.1 = k := by simpa using List.find?_some hf
      have heM := ExtTreeMap.mem_toList_iff_getElem?_eq_some.mp (List.mem_of_find?_eq_some hf)
      rw [hek, hk] at heM
      simpa using heM.symm

omit [Std.LawfulEqOrd κ] in
/-- What holds of a table holds of it with one more entry of the kind. -/
theorem forall_toList_insert {P : ν → Prop} [Std.LawfulEqOrd κ]
    (hm : ∀ (k : κ) v, m[k]? = some v → P v) {k : κ} {v : ν} (hv : P v) :
    ∀ e ∈ (m.insert k v).toList, P e.2 := by
  rintro ⟨k', v'⟩ he
  rw [ExtTreeMap.mem_toList_iff_getElem?_eq_some, ExtTreeMap.getElem?_insert] at he
  split at he
  · cases he
    exact hv
  · exact hm k' v' he

/-! ## Maps of variable-width entries -/

/-- A number of entries, the entries, and nothing else. -/
def counted (get : Reader (κ × ν)) (dup : Option String) (trailing : String) :
    Reader (ExtTreeMap κ ν) := do
  let count ← word 4
  let map ← entries get dup count ∅
  let rest ← read id
  reject (rest ≠ []) trailing
  return map

section Counted

variable {get : Reader (κ × ν)} {dup : Option String} {trailing : String}
  {put : κ × ν → List UInt8} {l : List (κ × ν)}

/-- Entries are read back up to their number, which is TRUNCATED to 32 bits; what is left over must
    be nothing. -/
theorem counted_run (hread : ∀ e ∈ l, Reads get (put e) e) (hkeys : (l.map Prod.fst).Nodup) :
    let count := l.length % 256 ^ 4
    (counted get dup trailing (beBytes 4 l.length ++ l.flatMap put)).1 =
      if (l.drop count).flatMap put ≠ [] then .error trailing
      else .ok (insertAll (l.take count) ∅) := by
  intro count
  have hsplit : l.flatMap put = (l.take count).flatMap put ++ (l.drop count).flatMap put := by
    rw [← List.flatMap_append, List.take_append_drop]
  have hcount : Reads (word 4) (beBytes 4 l.length) count := by
    have h := (reads_take (beBytes 4 l.length)).map ofBeBytes
    rwa [length_beBytes, ofBeBytes_beBytes] at h
  have hentries : Reads (entries get dup count ∅) ((l.take count).flatMap put)
      (insertAll (l.take count) ∅) := by
    have hkeys' : ((l.take count).map Prod.fst).Nodup := by
      rw [List.map_take]
      exact hkeys.sublist (List.take_sublist _ _)
    have hlen : (l.take count).length = count := by
      rw [List.length_take, min_eq_left (Nat.mod_le _ _)]
    have h : Reads (entries get dup (l.take count).length ∅) _ _ :=
      entries_reads (fun e he => hread e (List.mem_of_mem_take he)) hkeys'
        fun e _ => ExtTreeMap.not_mem_empty
    rwa [hlen] at h
  unfold counted
  rw [hsplit, bind_run_ok (hcount _), bind_run_ok (hentries _), read_bind_run, id]
  by_cases hrest : (l.drop count).flatMap put ≠ []
  · rw [if_pos hrest, reject, bind_run_error]
    rw [failIf, if_pos hrest]
    rfl
  · rw [if_neg hrest, bind_run_ok (reject_run hrest)]
    rfl

/-- ROUND TRIP: fewer than 2^32 entries with distinct keys are read back. -/
theorem counted_of_lt (hread : ∀ e ∈ l, Reads get (put e) e) (hkeys : (l.map Prod.fst).Nodup)
    (hlt : l.length < 2 ^ 32) :
    (counted get dup trailing (beBytes 4 l.length ++ l.flatMap put)).1 = .ok (insertAll l ∅) := by
  have hmod : l.length % 256 ^ 4 = l.length := Nat.mod_eq_of_lt (by omega)
  rw [counted_run hread hkeys, hmod, List.drop_length, List.take_length, if_neg (fun h => h rfl)]

/-- Entries beyond a truncated count are trailing bytes. -/
theorem counted_of_ge (hne : ∀ e, put e ≠ []) (hread : ∀ e ∈ l, Reads get (put e) e)
    (hkeys : (l.map Prod.fst).Nodup) (hge : 2 ^ 32 ≤ l.length) :
    (counted get dup trailing (beBytes 4 l.length ++ l.flatMap put)).1 = .error trailing := by
  have hmod : l.length % 256 ^ 4 < l.length := by
    have := Nat.mod_lt l.length (show 0 < 256 ^ 4 by decide)
    omega
  rw [counted_run hread hkeys, if_pos]
  intro hnil
  rw [List.flatMap_eq_nil_iff] at hnil
  obtain ⟨e, he⟩ := List.exists_mem_of_length_pos
    (show 0 < (l.drop (l.length % 256 ^ 4)).length by
      rw [List.length_drop]
      omega)
  exact hne e (hnil e he)

/-- Entries that are read back at all are read back as they were. -/
theorem counted_eq_ok (hne : ∀ e, put e ≠ []) (hread : ∀ e ∈ l, Reads get (put e) e)
    (hkeys : (l.map Prod.fst).Nodup) {m : ExtTreeMap κ ν}
    (h : (counted get dup trailing (beBytes 4 l.length ++ l.flatMap put)).1 = .ok m) :
    m = insertAll l ∅ := by
  by_cases hlt : l.length < 2 ^ 32
  · rw [counted_of_lt hread hkeys hlt] at h
    exact (Except.ok.inj h).symm
  · rw [counted_of_ge hne hread hkeys (not_lt.mp hlt)] at h
    cases h

end Counted

end Entries

/-! ## Maps of fixed-width entries -/

/-- How a map is laid out: `version? ‖ count ‖ entries`, and the reasons its decoder gives. -/
structure Format (κ ν : Type) where
  /-- The version word, with the reason given when it is another one. -/
  version : Option (UInt32 × String)
  /-- Bytes of one entry. -/
  width : Nat
  put : κ × ν → List UInt8
  get : Reader (κ × ν)
  headerMissing : String
  sizeMismatch : String
  /-- The reason given for a repeated key; without one the later entry wins. -/
  duplicate : Option String

namespace Format

variable {κ ν : Type}

/-- Bytes before the first entry. -/
def headerBytes (f : Format κ ν) : Nat := (if f.version.isSome then 4 else 0) + 4

/-- The version word of an encoding. -/
def versionBytes (f : Format κ ν) : List UInt8 :=
  match f.version with
  | some (v, _) => beBytes 4 v.toNat
  | none => []

def encode (f : Format κ ν) (l : List (κ × ν)) : List UInt8 :=
  f.versionBytes ++ (beBytes 4 l.length ++ l.flatMap f.put)

def checkVersion (f : Format κ ν) : Reader Unit :=
  match f.version with
  | some (v, why) => do reject ((← u32) ≠ v) why
  | none => pure ()

/-- Every entry is read back from the bytes it is written to, and these have the right number. -/
structure Faithful (f : Format κ ν) : Prop where
  reads : ∀ e, Reads f.get (f.put e) e
  length_put : ∀ e, (f.put e).length = f.width

/-- Faithful on the entries that `P` lets through; the decoder may refuse others. -/
structure FaithfulOn (f : Format κ ν) (P : κ × ν → Prop) : Prop where
  reads : ∀ e, P e → Reads f.get (f.put e) e
  length_put : ∀ e, (f.put e).length = f.width

theorem Faithful.on {f : Format κ ν} (hf : f.Faithful) : f.FaithfulOn fun _ => True :=
  ⟨fun e _ => hf.reads e, hf.length_put⟩

variable {f : Format κ ν}

theorem length_versionBytes (f : Format κ ν) : f.versionBytes.length + 4 = f.headerBytes := by
  unfold versionBytes headerBytes
  split
  · next v why h => simp [h]
  · next h => simp [h]

theorem checkVersion_reads (f : Format κ ν) : Reads f.checkVersion f.versionBytes () := by
  unfold checkVersion versionBytes
  split
  · next v why h =>
    have hpass : Reads (reject (v ≠ v) why) [] () := by
      intro rest
      exact failIf_eq_ok_iff.mpr ⟨fun hne => hne rfl, rfl⟩
    have := (reads_u32 v).bind (k := fun w => reject (w ≠ v) why) hpass
    rwa [List.append_nil] at this
  · next h => exact reads_pure ()

theorem FaithfulOn.length_flatMap {P : κ × ν → Prop} (hf : f.FaithfulOn P) (l : List (κ × ν)) :
    (l.flatMap f.put).length = l.length * f.width := by
  induction l with
  | nil => simp
  | cons e l ih =>
    rw [List.flatMap_cons, List.length_append, hf.length_put, ih, List.length_cons, Nat.succ_mul,
      Nat.add_comm]

theorem FaithfulOn.length_encode {P : κ × ν → Prop} (hf : f.FaithfulOn P) (l : List (κ × ν)) :
    (f.encode l).length = f.headerBytes + l.length * f.width := by
  have hv := length_versionBytes f
  simp only [encode, List.length_append, length_beBytes, hf.length_flatMap]
  omega

variable [Ord κ] [Std.TransOrd κ]

/-- The decoder behind the header check, for an input of `len` bytes in all. -/
def body (f : Format κ ν) (len : Nat) : Reader (ExtTreeMap κ ν) := do
  f.checkVersion
  let count ← word 4
  reject (len ≠ f.headerBytes + count * f.width) f.sizeMismatch
  entries f.get f.duplicate count ∅

/-- Decode a whole record; no bytes at all are the empty map. -/
def decode (f : Format κ ν) (bs : List UInt8) : Except String (ExtTreeMap κ ν) :=
  if bs = [] then .ok ∅
  else if bs.length < f.headerBytes then .error f.headerMissing
  else (f.body bs.length bs).1

/-- The decoder on an encoding: past the version and the TRUNCATED count. -/
theorem decode_encode (f : Format κ ν) (l : List (κ × ν)) :
    f.decode (f.encode l) =
      ((reject ((f.encode l).length ≠ f.headerBytes + l.length % 256 ^ 4 * f.width)
        f.sizeMismatch >>= fun _ => entries f.get f.duplicate (l.length % 256 ^ 4) ∅)
          (l.flatMap f.put)).1 := by
  have hv := length_versionBytes f
  have hlen : f.headerBytes ≤ (f.encode l).length := by
    simp only [encode, List.length_append, length_beBytes]
    omega
  have hne : f.encode l ≠ [] := by
    intro h
    rw [h] at hlen
    simp [← hv] at hlen
  have hcount : Reads (word 4) (beBytes 4 l.length) (l.length % 256 ^ 4) := by
    have h := (reads_take (beBytes 4 l.length)).map ofBeBytes
    rwa [length_beBytes, ofBeBytes_beBytes] at h
  rw [decode, if_neg hne, if_neg (by omega)]
  unfold body
  rw [encode, bind_run_ok (checkVersion_reads f _), bind_run_ok (hcount _)]

variable [Std.LawfulEqOrd κ]

section RoundTrip

variable {P : κ × ν → Prop} {l : List (κ × ν)}

/-- ROUND TRIP: fewer than 2^32 entries with distinct keys are read back. -/
theorem FaithfulOn.decode_encode_of_lt (hf : f.FaithfulOn P) (hP : ∀ e ∈ l, P e)
    (hkeys : (l.map Prod.fst).Nodup) (hlt : l.length < 2 ^ 32) :
    f.decode (f.encode l) = .ok (insertAll l ∅) := by
  have hmod : l.length % 256 ^ 4 = l.length := Nat.mod_eq_of_lt (by omega)
  rw [decode_encode, hmod, hf.length_encode]
  have hread : Reads (entries f.get f.duplicate l.length ∅) (l.flatMap f.put) (insertAll l ∅) :=
    entries_reads (fun e he => hf.reads e (hP e he)) hkeys fun e _ => ExtTreeMap.not_mem_empty
  have hread := hread []
  rw [List.append_nil] at hread
  rw [reject, failIf_bind_run_neg (fun h => h rfl), hread]

variable {m : ExtTreeMap κ ν}

/-- An encoding that decodes at all has a count that was not truncated. -/
theorem FaithfulOn.length_lt_of_decode (hf : f.FaithfulOn P) (hwidth : 0 < f.width)
    (h : f.decode (f.encode l) = .ok m) : l.length < 2 ^ 32 := by
  by_contra hge
  have hmod : l.length % 256 ^ 4 < l.length := by
    have := Nat.mod_lt l.length (show 0 < 256 ^ 4 by decide)
    omega
  have hsize : f.headerBytes + l.length * f.width ≠
      f.headerBytes + l.length % 256 ^ 4 * f.width := by
    have := Nat.mul_lt_mul_of_pos_right hmod hwidth
    omega
  rw [decode_encode, hf.length_encode, reject, failIf, if_pos hsize] at h
  cases h

/-- An encoding that decodes at all decodes to the list it was made from. -/
theorem FaithfulOn.decode_encode_eq_ok (hf : f.FaithfulOn P) (hP : ∀ e ∈ l, P e)
    (hwidth : 0 < f.width) (hkeys : (l.map Prod.fst).Nodup) (h : f.decode (f.encode l) = .ok m) :
    m = insertAll l ∅ := by
  rw [hf.decode_encode_of_lt hP hkeys (hf.length_lt_of_decode hwidth h)] at h
  exact (Except.ok.inj h).symm

/-- ROUND TRIP of a stored map. -/
theorem FaithfulOn.decode_encode_toList_of_lt (hf : f.FaithfulOn P) (hP : ∀ e ∈ m.toList, P e)
    (hlt : m.size < 2 ^ 32) : f.decode (f.encode m.toList) = .ok m := by
  rw [hf.decode_encode_of_lt hP (nodup_keys_toList m) (by rwa [ExtTreeMap.length_toList]),
    insertAll_toList]

theorem Faithful.decode_encode_toList_of_lt (hf : f.Faithful) (hlt : m.size < 2 ^ 32) :
    f.decode (f.encode m.toList) = .ok m :=
  hf.on.decode_encode_toList_of_lt (fun _ _ => trivial) hlt

theorem Faithful.decode_encode_eq_ok (hf : f.Faithful) (hwidth : 0 < f.width)
    (hkeys : (l.map Prod.fst).Nodup) (h : f.decode (f.encode l) = .ok m) : m = insertAll l ∅ :=
  hf.on.decode_encode_eq_ok (fun _ _ => trivial) hwidth hkeys h

/-- A stored map that can be read back at all is read back as it was. -/
theorem Faithful.decode_encode_toList (hf : f.Faithful) (hwidth : 0 < f.width)
    {m m' : ExtTreeMap κ ν} (h : f.decode (f.encode m.toList) = .ok m') : m' = m := by
  rw [hf.decode_encode_eq_ok hwidth (nodup_keys_toList m) h, insertAll_toList]

end RoundTrip

end Format

end SuwappuDag.Codec
