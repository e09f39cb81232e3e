/-
  BUCKETS — a list grouped by a key in one pass, and the buckets with two members.

  1. **Program** — `buckets`: every item is pushed into the bucket of its key; what a push does is left
     open (append, or append if new).  `twoSmallest`: the first two entries of a sorted bucket.
  2. **Specification** — the bucket of `k` is the push over the items of key `k`, in their order
     (`getD_buckets`), and a bucket with two different members yields a pair (`twoSmallest_isSome`).
  3. **Waiting lists** — buckets that are filled one push at a time and taken away whole
     (`mem_getD_push`, `mem_getD_erase`).
-/
import Mathlib

namespace SuwappuDag.Buckets

open Std (ExtTreeMap)

section Grouping

variable {α β κ : Type} [Ord κ] [Std.TransOrd κ] [Std.LawfulEqOrd κ]

/-- Group the values of `xs` by key. -/
def buckets (push : List β → β → List β) (key : α → κ) (val : α → β) (xs : List α) :
    ExtTreeMap κ (List β) :=
  xs.foldl (fun m a => m.insert (key a) (push (m[key a]?.getD []) (val a))) ∅

variable [DecidableEq κ] (push : List β → β → List β) (key : α → κ) (val : α → β)

/-- **One bucket is one pass** over the items of its key. -/
theorem getD_buckets (xs : List α) (k : κ) :
    (buckets push key val xs)[k]?.getD [] =
      ((xs.filter fun a => key a = k).map val).foldl push [] := by
  have hfold : ∀ (xs : List α) (m : ExtTreeMap κ (List β)),
      (xs.foldl (fun m a => m.insert (key a) (push (m[key a]?.getD []) (val a))) m)[k]?.getD [] =
        ((xs.filter fun a => key a = k).map val).foldl push (m[k]?.getD []) := by
    intro xs
    induction xs with
    | nil => exact fun _ => rfl
    | cons a xs ih =>
      intro m
      rw [List.foldl_cons, ih, ExtTreeMap.getElem?_insert]
      by_cases hk : key a = k
      · subst hk
        simp
      · simp [hk]
  rw [buckets, hfold, ExtTreeMap.getElem?_empty, Option.getD_none]

end Grouping

section Entries

variable {β κ : Type} [Ord κ] [Std.TransOrd κ] [Std.LawfulEqOrd κ] {m : ExtTreeMap κ (List β)}
  {j k : κ} {a b : β}

/-- A bucket is taken away. -/
theorem mem_getD_erase : a ∈ (m.erase k)[j]?.getD [] ↔ j ≠ k ∧ a ∈ m[j]?.getD [] := by
  rw [ExtTreeMap.getElem?_erase]
  by_cases hjk : j = k
  · subst hjk
    simp
  · have hne : ¬ compare k j = .eq := fun heq => hjk (Std.LawfulEqOrd.eq_of_compare heq).symm
    simp [hne, hjk]

/-- A value is pushed into its bucket. -/
theorem mem_getD_push :
    a ∈ (m.insert k (m[k]?.getD [] ++ [b]))[j]?.getD [] ↔ j = k ∧ a = b ∨ a ∈ m[j]?.getD [] := by
  rw [ExtTreeMap.getElem?_insert]
  by_cases hjk : j = k
  · subst hjk
    simp [or_comm]
  · have hne : ¬ compare k j = .eq := fun heq => hjk (Std.LawfulEqOrd.eq_of_compare heq).symm
    simp [hne, hjk]

end Entries

section Pairs

variable {β : Type} [LinearOrder β]

/-- The two smallest entries, if there are two. -/
def twoSmallest (l : List β) : Option (β × β) :=
  match l.insertionSort (· ≤ ·) with
  | a :: b :: _ => some (a, b)
  | _ => none

theorem twoSmallest_eq_some {l : List β} {a b : β} (h : twoSmallest l = some (a, b)) :
    a ∈ l ∧ b ∈ l ∧ (l.Nodup → a ≠ b) := by
  unfold twoSmallest at h
  have hperm := l.perm_insertionSort (· ≤ ·)
  split at h
  · next x y rest hsort =>
    cases h
    rw [hsort] at hperm
    refine ⟨hperm.subset List.mem_cons_self,
      hperm.subset (List.mem_cons_of_mem _ List.mem_cons_self), fun hl hab => ?_⟩
    have hnodup := hperm.nodup_iff.mpr hl
    rw [List.nodup_cons, hab] at hnodup
    exact hnodup.1 List.mem_cons_self
  · cases h

theorem twoSmallest_isSome {l : List β} {x y : β} (hx : x ∈ l) (hy : y ∈ l) (hne : x ≠ y) :
    ∃ p, twoSmallest l = some p := by
  unfold twoSmallest
  have hperm := l.perm_insertionSort (· ≤ ·)
  have hx := hperm.mem_iff.mpr hx
  have hy := hperm.mem_iff.mpr hy
  split
  · exact ⟨_, rfl⟩
  · next hshort =>
    -- neither no entry nor a single one
    exfalso
    match hsort : l.insertionSort (· ≤ ·) with
    | [] =>
      rw [hsort] at hx
      cases hx
    | [z] =>
      rw [hsort, List.mem_singleton] at hx hy
      exact hne (hx.trans hy.symm)
    | a :: b :: rest => exact hshort a b rest hsort

end Pairs

end SuwappuDag.Buckets
