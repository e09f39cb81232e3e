/-
  SUMS OVER A MAP — the total of a valuation with a default, and how one update moves it.

  A map `m` and a default give a valuation of ALL keys, `a ↦ m[a]?.getD d`.  Over a finite key type
  the sum of a weight of that valuation is the natural measure: an insertion or an erasure is an
  update of the valuation at one key, so the sum moves by new minus old, aliasing or not.
  `sum_getD_eq_sum_toList` says that with a weightless default it is the sum over the entries.
  Where the keys are not finite the entries themselves are counted: an update is a permutation of
  the list of entries with one entry more or less (`toList_perm_cons_erase`, `toList_insert_perm`),
  erasing a key filters the ordered list (`toList_erase`),
  and two lists of entries are compared entry by entry through their keys (`sum_le_sum_of_key`).
-/
import SuwappuDag.Lib.Codec

namespace SuwappuDag.MapSum

open Std (ExtTreeMap)

section Keys

variable {κ ν : Type} [DecidableEq κ] [Ord κ] [Std.TransOrd κ] [Std.LawfulEqOrd κ]

/-- The keys of a map, as a set. -/
def keySet (m : ExtTreeMap κ ν) : Finset κ := m.keys.toFinset

@[simp] theorem mem_keySet {m : ExtTreeMap κ ν} {k : κ} : k ∈ keySet m ↔ k ∈ m := by
  rw [keySet, List.mem_toFinset, ExtTreeMap.mem_keys]

omit [Std.LawfulEqOrd κ] in
theorem card_keySet (m : ExtTreeMap κ ν) : (keySet m).card = m.size := by
  rw [keySet, List.toFinset_card_of_nodup m.nodup_keys, ExtTreeMap.length_keys]

omit [DecidableEq κ] [Std.LawfulEqOrd κ] in
theorem size_insert_of_notMem {m : ExtTreeMap κ ν} {k : κ} (hk : k ∉ m) (v : ν) :
    (m.insert k v).size = m.size + 1 := by
  rw [ExtTreeMap.size_insert, if_neg (fun hin => hk (ExtTreeMap.mem_iff_contains.mpr hin))]

theorem size_erase_of_mem {m : ExtTreeMap κ ν} {k : κ} (hk : k ∈ m) :
    (m.erase k).size + 1 = m.size := by
  have hpos : 0 < m.size := by
    rw [← card_keySet]
    exact Finset.card_pos.mpr ⟨k, mem_keySet.mpr hk⟩
  rw [ExtTreeMap.size_erase, if_pos (ExtTreeMap.mem_iff_contains.mp hk)]
  omega

omit [DecidableEq κ] [Std.LawfulEqOrd κ] in
theorem notMem_iff {m : ExtTreeMap κ ν} {k : κ} : k ∉ m ↔ m[k]? = none := by
  rw [ExtTreeMap.mem_iff_isSome_getElem?, Option.not_isSome_iff_eq_none]

theorem size_eq_zero_iff {m : ExtTreeMap κ ν} : m.size = 0 ↔ ∀ k, k ∉ m := by
  rw [← card_keySet, Finset.card_eq_zero, Finset.eq_empty_iff_forall_notMem]
  exact forall_congr' fun k => not_congr mem_keySet

end Keys

section Update

variable {κ ν : Type} [Fintype κ] [DecidableEq κ]

/-- Updating a valuation at one key moves its sum by new minus old. -/
theorem sum_update (w : ν → ℤ) (f : κ → ν) (k : κ) (v : ν) :
    ∑ a, w (Function.update f k v a) = ∑ a, w (f a) + w v - w (f k) := by
  have hsplit : ∀ g : κ → ν, ∑ a, w (g a) = w (g k) + ∑ a ∈ Finset.univ.erase k, w (g a) :=
    fun g => (Finset.add_sum_erase _ (fun a => w (g a)) (Finset.mem_univ k)).symm
  have hrest : ∑ a ∈ Finset.univ.erase k, w (Function.update f k v a)
      = ∑ a ∈ Finset.univ.erase k, w (f a) := by
    apply Finset.sum_congr rfl
    intro a ha
    rw [Function.update_of_ne (Finset.ne_of_mem_erase ha)]
  rw [hsplit, hsplit f, hrest, Function.update_self]
  ring

end Update

section Valuation

variable {κ ν : Type} [DecidableEq κ] [Ord κ] [Std.TransOrd κ] [Std.LawfulEqOrd κ]

theorem getD_insert (m : ExtTreeMap κ ν) (f : κ → ν) (k : κ) (v : ν) :
    (fun a => (m.insert k v)[a]?.getD (f a)) = Function.update (fun a => m[a]?.getD (f a)) k v := by
  funext a
  rw [ExtTreeMap.getElem?_insert, Function.update_apply]
  by_cases hk : k = a
  · subst hk
    simp
  · simp [hk, Ne.symm hk]

theorem getD_erase (m : ExtTreeMap κ ν) (d : ν) (k : κ) :
    (fun a => (m.erase k)[a]?.getD d) = Function.update (fun a => m[a]?.getD d) k d := by
  funext a
  rw [ExtTreeMap.getElem?_erase, Function.update_apply]
  by_cases hk : k = a
  · subst hk
    simp
  · simp [hk, Ne.symm hk]

/-- With a default of weight 0 only the entries of the map count. -/
theorem sum_getD_eq_sum_toList [Fintype κ] (w : ν → ℕ) {d : ν} (hd : w d = 0)
    (m : ExtTreeMap κ ν) : ∑ a : κ, w (m[a]?.getD d) = (m.toList.map fun e => w e.2).sum := by
  have hnodup := Codec.nodup_keys_toList m
  have hentries : ∀ e ∈ m.toList, w e.2 = w (m[e.1]?.getD d) := by
    rintro ⟨k, v⟩ he
    rw [ExtTreeMap.mem_toList_iff_getElem?_eq_some.mp he, Option.getD_some]
  calc ∑ a : κ, w (m[a]?.getD d)
      = ∑ a ∈ (m.toList.map Prod.fst).toFinset, w (m[a]?.getD d) := by
        symm
        apply Finset.sum_subset (Finset.subset_univ _)
        intro a _ ha
        have hnone : m[a]? = none := by
          cases h : m[a]? with
          | none => rfl
          | some v =>
            have hmem := ExtTreeMap.mem_toList_iff_getElem?_eq_some.mpr h
            exact absurd (List.mem_toFinset.mpr (List.mem_map_of_mem hmem)) ha
        rw [hnone, Option.getD_none, hd]
    _ = ((m.toList.map Prod.fst).map fun a => w (m[a]?.getD d)).sum :=
        List.sum_toFinset _ hnodup
    _ = (m.toList.map fun e => w e.2).sum := by
        rw [List.map_map]
        exact congrArg List.sum (List.map_congr_left fun e he => (hentries e he).symm)

end Valuation

/-! ## The entries after an update -/

section Entries

variable {κ ν : Type} [DecidableEq κ] [Ord κ] [Std.TransOrd κ] [Std.LawfulEqOrd κ]

omit [DecidableEq κ] in
/-- Erasing what is not there changes nothing. -/
theorem erase_eq_self {m : ExtTreeMap κ ν} {k : κ} (h : m[k]? = none) : m.erase k = m := by
  apply ExtTreeMap.ext_getElem?
  intro a
  rw [ExtTreeMap.getElem?_erase]
  split
  · next hk =>
    obtain rfl := Std.compare_eq_iff_eq.mp hk
    exact h.symm
  · rfl

omit [DecidableEq κ] in
theorem nodup_toList (m : ExtTreeMap κ ν) : m.toList.Nodup :=
  List.Nodup.of_map _ (Codec.nodup_keys_toList m)

/-- Erasing a key filters the ordered list of entries. -/
theorem toList_erase (m : ExtTreeMap κ ν) (k : κ) :
    (m.erase k).toList = m.toList.filter fun e => e.1 ≠ k := by
  have hmem : ∀ e, e ∈ (m.erase k).toList ↔ e ∈ m.toList.filter fun e => e.1 ≠ k := by
    rintro ⟨a, v⟩
    rw [List.mem_filter, ExtTreeMap.mem_toList_iff_getElem?_eq_some,
      ExtTreeMap.mem_toList_iff_getElem?_eq_some, ExtTreeMap.getElem?_erase]
    by_cases hk : k = a
    · simp [hk]
    · simp [hk, Ne.symm hk]
  have hperm := (List.perm_ext_iff_of_nodup (nodup_toList _)
    ((nodup_toList m).filter _)).mpr hmem
  refine hperm.eq_of_pairwise ?_ ExtTreeMap.ordered_keys_toList (ExtTreeMap.ordered_keys_toList.filter _)
  intro x y _ _ hxy hyx
  rw [Std.OrientedCmp.gt_of_lt hyx] at hxy
  cases hxy

omit [DecidableEq κ] in
theorem mem_iff_exists_toList {m : ExtTreeMap κ ν} {k : κ} : k ∈ m ↔ ∃ e ∈ m.toList, e.1 = k := by
  rw [← ExtTreeMap.mem_keys, ← ExtTreeMap.map_fst_toList_eq_keys, List.mem_map]

/-- The first entry goes, the others stay. -/
theorem toList_erase_head {m : ExtTreeMap κ ν} {e : κ × ν} {rest : List (κ × ν)}
    (h : m.toList = e :: rest) : (m.erase e.1).toList = rest := by
  have hnodup := Codec.nodup_keys_toList m
  rw [h, List.map_cons, List.nodup_cons] at hnodup
  rw [toList_erase, h, List.filter_cons_of_neg (by simp), List.filter_eq_self]
  intro f hf
  have : f.1 ≠ e.1 := fun heq => hnodup.1 (List.mem_map.mpr ⟨f, hf, heq⟩)
  simpa using this

/-- The last entry goes, the others stay. -/
theorem toList_erase_last {m : ExtTreeMap κ ν} {e : κ × ν} {init : List (κ × ν)}
    (h : m.toList = init ++ [e]) : (m.erase e.1).toList = init := by
  have hnodup := Codec.nodup_keys_toList m
  rw [h, List.map_append, List.nodup_append] at hnodup
  rw [toList_erase, h, List.filter_append, List.filter_cons_of_neg (by simp), List.filter_nil,
    List.append_nil, List.filter_eq_self]
  intro f hf
  have : f.1 ≠ e.1 := hnodup.2.2 f.1 (List.mem_map_of_mem hf) e.1 List.mem_cons_self
  simpa using this

/-- Taking an entry out leaves the others. -/
theorem toList_perm_cons_erase {m : ExtTreeMap κ ν} {k : κ} {v : ν} (h : m[k]? = some v) :
    m.toList.Perm ((k, v) :: (m.erase k).toList) := by
  have hout : (k, v) ∉ (m.erase k).toList := by
    rw [ExtTreeMap.mem_toList_iff_getElem?_eq_some, ExtTreeMap.getElem?_erase_self]
    exact fun h => by cases h
  refine (List.perm_ext_iff_of_nodup (nodup_toList m)
    (List.nodup_cons.mpr ⟨hout, nodup_toList _⟩)).mpr ?_
  rintro ⟨a, b⟩
  rw [List.mem_cons, ExtTreeMap.mem_toList_iff_getElem?_eq_some,
    ExtTreeMap.mem_toList_iff_getElem?_eq_some, ExtTreeMap.getElem?_erase]
  by_cases hk : k = a
  · subst hk
    simp [h, eq_comm]
  · simp [hk, Ne.symm hk]

/-- Putting an entry in replaces the one at its key, if any. -/
theorem toList_insert_perm (m : ExtTreeMap κ ν) (k : κ) (v : ν) :
    (m.insert k v).toList.Perm ((k, v) :: (m.erase k).toList) := by
  have herase : (m.insert k v).erase k = m.erase k := by
    apply ExtTreeMap.ext_getElem?
    intro a
    rw [ExtTreeMap.getElem?_erase, ExtTreeMap.getElem?_erase, ExtTreeMap.getElem?_insert]
    by_cases hk : k = a
    · simp [hk]
    · simp [hk]
  have := toList_perm_cons_erase (m := m.insert k v) ExtTreeMap.getElem?_insert_self
  rwa [herase] at this

/-- The weight of all entries together. -/
def weigh (w : κ × ν → ℕ) (m : ExtTreeMap κ ν) : ℕ := (m.toList.map w).sum

theorem weigh_erase (w : κ × ν → ℕ) (m : ExtTreeMap κ ν) (k : κ) :
    weigh w (m.erase k) + (m[k]?.map fun v => w (k, v)).getD 0 = weigh w m := by
  cases h : m[k]? with
  | none => rw [erase_eq_self h, Option.map_none, Option.getD_none, Nat.add_zero]
  | some v =>
    have hperm : weigh w m = w (k, v) + weigh w (m.erase k) :=
      ((toList_perm_cons_erase h).map w).sum_eq
    rw [hperm, Option.map_some, Option.getD_some, Nat.add_comm]

/-- An update moves the weight by the difference of the two entries. -/
theorem weigh_insert (w : κ × ν → ℕ) (m : ExtTreeMap κ ν) (k : κ) (v : ν) :
    weigh w (m.insert k v) + (m[k]?.map fun v => w (k, v)).getD 0 = weigh w m + w (k, v) := by
  have hnew : weigh w (m.insert k v) = w (k, v) + weigh w (m.erase k) :=
    ((toList_insert_perm m k v).map w).sum_eq
  have hold := weigh_erase w m k
  omega

omit [DecidableEq κ] [Std.LawfulEqOrd κ] in
theorem weigh_empty (w : κ × ν → ℕ) : weigh w (∅ : ExtTreeMap κ ν) = 0 := rfl

/-- An update moves the sum by the difference of the two values. -/
theorem sum_toList_insert (w : ν → ℕ) (m : ExtTreeMap κ ν) (k : κ) (v : ν) :
    ((m.insert k v).toList.map fun e => w e.2).sum + (m[k]?.map w).getD 0 =
      (m.toList.map fun e => w e.2).sum + w v :=
  weigh_insert (fun e => w e.2) m k v

omit [DecidableEq κ] in
/-- No entry weighs more than all of them. -/
theorem le_sum_toList (w : ν → ℕ) {m : ExtTreeMap κ ν} {k : κ} {v : ν} (h : m[k]? = some v) :
    w v ≤ (m.toList.map fun e => w e.2).sum :=
  List.single_le_sum (fun _ _ => Nat.zero_le _) _
    (List.mem_map.mpr ⟨(k, v), ExtTreeMap.mem_toList_iff_getElem?_eq_some.mpr h, rfl⟩)

/-- Erasing at most takes an entry out, so that a reading of the entries loses at most one value. -/
theorem map_toList_erase_subperm {α : Type} (f : κ × ν → α) (m : ExtTreeMap κ ν) (k : κ) :
    ((m.erase k).toList.map f).Subperm (m.toList.map f) := by
  cases h : m[k]? with
  | none =>
    rw [erase_eq_self h]
  | some v =>
    have hperm := (toList_perm_cons_erase h).map f
    rw [List.map_cons] at hperm
    exact (List.sublist_cons_self _ _).subperm.trans hperm.symm.subperm

end Entries

section Matching

variable {α β κ : Type}

/-- **Matched by a key**: if the keys of `xs` are distinct and every `x` that weighs something has a
    partner of its key in `ys` that weighs as much, then `ys` weighs as much as `xs`. -/
theorem sum_le_sum_of_key (key : α → κ) (key' : β → κ) (f : α → ℕ) (g : β → ℕ) :
    ∀ {xs : List α} {ys : List β}, (xs.map key).Nodup →
      (∀ x ∈ xs, 0 < f x → ∃ y ∈ ys, key' y = key x ∧ f x ≤ g y) →
      (xs.map f).sum ≤ (ys.map g).sum := by
  intro xs
  induction xs with
  | nil => exact fun _ _ => Nat.zero_le _
  | cons x xs ih =>
    intro ys hnodup hmatch
    rw [List.map_cons, List.nodup_cons] at hnodup
    rw [List.map_cons, List.sum_cons]
    rcases Nat.eq_zero_or_pos (f x) with hzero | hpos
    · have := ih hnodup.2 fun z hz => hmatch z (List.mem_cons_of_mem _ hz)
      omega
    -- take the partner of `x` out of `ys`; the others keep theirs, as their keys differ
    obtain ⟨y, hy, hkey, hle⟩ := hmatch x List.mem_cons_self hpos
    obtain ⟨left, right, rfl⟩ := List.append_of_mem hy
    have hrest : (xs.map f).sum ≤ ((left ++ right).map g).sum := by
      refine ih hnodup.2 fun z hz hzpos => ?_
      obtain ⟨w, hw, hwkey, hwle⟩ := hmatch z (List.mem_cons_of_mem _ hz) hzpos
      have hne : w ≠ y := by
        rintro rfl
        exact hnodup.1 (List.mem_map.mpr ⟨z, hz, by rw [← hwkey, hkey]⟩)
      rw [List.mem_append, List.mem_cons] at hw
      refine ⟨w, ?_, hwkey, hwle⟩
      rw [List.mem_append]
      exact hw.imp id fun h => h.resolve_left hne
    simp only [List.map_append, List.map_cons, List.sum_append, List.sum_cons] at hrest ⊢
    omega

end Matching

end SuwappuDag.MapSum
