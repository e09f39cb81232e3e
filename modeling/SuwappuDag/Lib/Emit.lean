/-
  EMITTING HISTORIES WITHOUT REPETITION.

  A ledger is written leader by leader: each leader `t` brings its history `H t`, sorted by `key`
  and ending in `t` itself, and only what is not in the ledger yet is appended.

  1. **Program** — `appendNew acc xs` and its fold `emit H acc leaders`.
  2. **Growth** — the accumulator is always a prefix of the result.
  3. **Left-out leaders (`emit_prefix_iff`)** — let `L` be the leaders of a second ledger, chosen
     from the leaders `L'` of the first by `p`.  The smaller ledger is a prefix of the larger one IFF
     every left-out leader `t` below a chosen one is HARMLESS: among what has not been emitted
     before `t`, its history is just the part of the next chosen leader's history up to `t`.
     The induction runs over `L'`; its invariant is that both ledgers give the same result once the
     next chosen history is appended.
  4. **Resuming (`appendNew_prefix_emit`)** — a writer that stopped anywhere may go on at the first
     leader it does not have, as far into that leader's history as it likes.
-/
import Mathlib

namespace SuwappuDag.Emit

variable {α : Type*} [DecidableEq α]

/-- Push each value that is not in the list yet. -/
def appendNew (acc xs : List α) : List α :=
  xs.foldl (fun acc x => if x ∈ acc then acc else acc ++ [x]) acc

/-- Append the histories of the leaders, one after the other. -/
def emit (H : α → List α) (acc leaders : List α) : List α :=
  leaders.foldl (fun acc t => appendNew acc (H t)) acc

@[simp] theorem appendNew_nil (acc : List α) : appendNew acc [] = acc := rfl

theorem appendNew_cons (acc : List α) (x : α) (xs : List α) :
    appendNew acc (x :: xs) = appendNew (if x ∈ acc then acc else acc ++ [x]) xs := rfl

@[simp] theorem emit_nil (H : α → List α) (acc : List α) : emit H acc [] = acc := rfl

@[simp] theorem emit_cons (H : α → List α) (acc : List α) (t : α) (ts : List α) :
    emit H acc (t :: ts) = emit H (appendNew acc (H t)) ts := rfl

theorem emit_append (H : α → List α) (acc ts us : List α) :
    emit H acc (ts ++ us) = emit H (emit H acc ts) us := List.foldl_append

/-! ## What is appended -/

/-- A list without repetition contributes exactly its new members, in its own order. -/
theorem appendNew_eq {xs : List α} : ∀ {acc : List α}, xs.Nodup →
    appendNew acc xs = acc ++ xs.filter fun x => x ∉ acc := by
  induction xs with
  | nil => intro acc _; simp
  | cons x xs ih =>
    intro acc hnd
    obtain ⟨hx, hxs⟩ := List.nodup_cons.mp hnd
    rw [appendNew_cons, ih hxs]
    by_cases hmem : x ∈ acc
    · rw [if_pos hmem, List.filter_cons_of_neg (by simpa using hmem)]
    · rw [if_neg hmem, List.filter_cons_of_pos (by simpa using hmem), List.append_assoc,
        List.singleton_append]
      congr 2
      refine List.filter_congr fun y hy => ?_
      have hne : y ≠ x := fun h => hx (h ▸ hy)
      simp [hne]

theorem mem_appendNew {acc xs : List α} {x : α} : x ∈ appendNew acc xs ↔ x ∈ acc ∨ x ∈ xs := by
  induction xs generalizing acc with
  | nil => simp
  | cons y ys ih =>
    rw [appendNew_cons, ih]
    by_cases hy : y ∈ acc
    · rw [if_pos hy, List.mem_cons]
      constructor
      · rintro (h | h)
        · exact .inl h
        · exact .inr (.inr h)
      · rintro (h | rfl | h)
        · exact .inl h
        · exact .inl hy
        · exact .inr h
    · rw [if_neg hy]; simp [or_assoc]

theorem prefix_appendNew (acc xs : List α) : acc <+: appendNew acc xs := by
  induction xs generalizing acc with
  | nil => exact List.prefix_rfl
  | cons y ys ih =>
    rw [appendNew_cons]
    split
    · exact ih _
    · exact (List.prefix_append _ _).trans (ih _)

theorem appendNew_nodup {acc xs : List α} (h : acc.Nodup) : (appendNew acc xs).Nodup := by
  induction xs generalizing acc with
  | nil => exact h
  | cons y ys ih =>
    rw [appendNew_cons]
    split
    · exact ih h
    · next hy =>
      refine ih (List.nodup_append.mpr ⟨h, List.nodup_singleton _, ?_⟩)
      rintro a ha b hb rfl
      exact hy (List.mem_singleton.mp hb ▸ ha)

theorem prefix_emit (H : α → List α) (acc ts : List α) : acc <+: emit H acc ts := by
  induction ts generalizing acc with
  | nil => exact List.prefix_rfl
  | cons t ts ih => exact (prefix_appendNew acc (H t)).trans (ih _)

theorem mem_emit {H : α → List α} {acc ts : List α} {x : α} :
    x ∈ emit H acc ts ↔ x ∈ acc ∨ ∃ t ∈ ts, x ∈ H t := by
  induction ts generalizing acc with
  | nil => simp
  | cons t ts ih => rw [emit_cons, ih, mem_appendNew]; simp [or_assoc]

theorem emit_congr {H H' : α → List α} {ts : List α} (h : ∀ t ∈ ts, H t = H' t) :
    ∀ acc, emit H acc ts = emit H' acc ts := by
  induction ts with
  | nil => intro acc; rfl
  | cons t ts ih =>
    intro acc
    rw [emit_cons, emit_cons, h t List.mem_cons_self]
    exact ih (fun u hu => h u (List.mem_cons_of_mem _ hu)) _

/-! ## Sorted histories -/

section Sorted

variable {κ : Type*} [LinearOrder κ] {key : α → κ}

omit [DecidableEq α] in
theorem nodup_of_sorted {xs : List α} (h : xs.Pairwise fun x y => key x < key y) : xs.Nodup :=
  h.imp fun hlt he => by subst he; exact lt_irrefl _ hlt

omit [DecidableEq α] in
/-- A sorted list whose members are those of the sorted `ys` up to `b` is an initial part of `ys`. -/
theorem prefix_of_mem_iff_le {b : κ} : ∀ {xs ys : List α},
    (xs.Pairwise fun x y => key x < key y) → (ys.Pairwise fun x y => key x < key y) →
    (∀ z, z ∈ xs ↔ z ∈ ys ∧ key z ≤ b) → xs <+: ys := by
  intro xs ys
  induction ys generalizing xs with
  | nil =>
    intro _ _ hmem
    have : xs = [] := List.eq_nil_iff_forall_not_mem.mpr fun z hz => by simpa using (hmem z).mp hz
    rw [this]
  | cons y ys ih =>
    intro hxs hys hmem
    obtain ⟨hy, hys'⟩ := List.pairwise_cons.mp hys
    cases xs with
    | nil => exact List.nil_prefix
    | cons x xs =>
      obtain ⟨hx, hxs⟩ := List.pairwise_cons.mp hxs
      -- both heads are the least member
      have hyb : key y ≤ b := by
        obtain ⟨hxin, hxb⟩ := (hmem x).mp List.mem_cons_self
        rcases List.mem_cons.mp hxin with rfl | h
        · exact hxb
        · exact (hy x h).le.trans hxb
      have hxy : x = y := by
        rcases List.mem_cons.mp ((hmem x).mp List.mem_cons_self).1 with h | h
        · exact h
        · rcases List.mem_cons.mp ((hmem y).mpr ⟨List.mem_cons_self, hyb⟩) with h' | h'
          · exact h'.symm
          · exact absurd (hx y h') (lt_asymm (hy x h))
      subst hxy
      refine List.cons_prefix_cons.mpr ⟨rfl, ih hxs hys' fun z => ?_⟩
      constructor
      · intro hz
        obtain ⟨hin, hb⟩ := (hmem z).mp (List.mem_cons_of_mem _ hz)
        rcases List.mem_cons.mp hin with rfl | h
        · exact absurd (hx z hz) (lt_irrefl _)
        · exact ⟨h, hb⟩
      · rintro ⟨hin, hb⟩
        rcases List.mem_cons.mp ((hmem z).mpr ⟨List.mem_cons_of_mem _ hin, hb⟩) with rfl | h
        · exact absurd (hy z hin) (lt_irrefl _)
        · exact h

omit [DecidableEq α] in
/-- A sorted list is determined by its members. -/
theorem eq_of_mem_iff {xs ys : List α} (hxs : xs.Pairwise fun x y => key x < key y)
    (hys : ys.Pairwise fun x y => key x < key y) (hmem : ∀ z, z ∈ xs ↔ z ∈ ys) : xs = ys := by
  have hperm : xs.Perm ys :=
    (List.perm_ext_iff_of_nodup (nodup_of_sorted hxs) (nodup_of_sorted hys)).mpr hmem
  refine hperm.eq_of_pairwise ?_ hxs hys
  intro x y _ _ hxy hyx
  exact absurd hxy (lt_asymm hyx)

/-- What the histories of increasing leaders look like. -/
structure Histories (key : α → κ) (H : α → List α) (ts : List α) : Prop where
  sorted : ∀ t ∈ ts, (H t).Pairwise fun x y => key x < key y
  self : ∀ t ∈ ts, t ∈ H t
  below : ∀ t ∈ ts, ∀ x ∈ H t, key x ≤ key t
  increasing : ts.Pairwise fun t u => key t < key u

omit [DecidableEq α] in
theorem Histories.tail {H : α → List α} {t : α} {ts : List α} (h : Histories key H (t :: ts)) :
    Histories key H ts where
  sorted u hu := h.sorted u (List.mem_cons_of_mem _ hu)
  self u hu := h.self u (List.mem_cons_of_mem _ hu)
  below u hu := h.below u (List.mem_cons_of_mem _ hu)
  increasing := (List.pairwise_cons.mp h.increasing).2

/-- Beyond `acc`, the history of `t` is the part of the history of `s` up to `t`. -/
def Harmless (key : α → κ) (H : α → List α) (acc : List α) (t s : α) : Prop :=
  ∀ x, x ∉ acc → (x ∈ H t ↔ x ∈ H s ∧ key x ≤ key t)

variable {H : α → List α} {acc : List α} {s t : α}

/-- A harmless history may be written first: the next one then adds the rest of itself. -/
theorem appendNew_of_harmless (ht : (H t).Pairwise fun x y => key x < key y)
    (hs : (H s).Pairwise fun x y => key x < key y) (hharm : Harmless key H acc t s) :
    appendNew (appendNew acc (H t)) (H s) = appendNew acc (H s) := by
  have hpre : (H t).filter (fun x => x ∉ acc) <+: (H s).filter fun x => x ∉ acc := by
    refine prefix_of_mem_iff_le (b := key t) (ht.filter _) (hs.filter _) fun z => ?_
    simp only [List.mem_filter, decide_eq_true_eq]
    constructor
    · rintro ⟨hz, hn⟩; exact ⟨⟨((hharm z hn).mp hz).1, hn⟩, ((hharm z hn).mp hz).2⟩
    · rintro ⟨⟨hz, hn⟩, hle⟩; exact ⟨(hharm z hn).mpr ⟨hz, hle⟩, hn⟩
  obtain ⟨rest, hrest⟩ := hpre
  rw [appendNew_eq (nodup_of_sorted hs), appendNew_eq (nodup_of_sorted hs),
    appendNew_eq (nodup_of_sorted ht), ← hrest, List.append_assoc]
  congr 2
  -- what `H s` still adds is what is left of its new part
  have hnd : ((H t).filter (fun x => x ∉ acc) ++ rest).Nodup := by
    rw [hrest]; exact (nodup_of_sorted hs).filter _
  have hsplit : (H s).filter (fun x => x ∉ acc ++ (H t).filter fun x => x ∉ acc)
      = ((H s).filter fun x => x ∉ acc).filter fun x => x ∉ (H t).filter fun x => x ∉ acc := by
    rw [List.filter_filter]
    refine List.filter_congr fun x _ => ?_
    simp only [List.mem_append, not_or, Bool.decide_and, Bool.and_comm]
  rw [hsplit, ← hrest, List.filter_append, List.filter_eq_nil_iff.mpr (by simp), List.nil_append,
    List.filter_eq_self]
  intro x hx
  have hdisj := (List.nodup_append.mp hnd).2.2
  rw [decide_eq_true_eq]
  exact fun hmem => hdisj x hmem x hx rfl

/-- Conversely, if the ledger that writes `H s` after `acc` is to be a prefix of one that writes
    `H t` there, with `t` below `s`, then `H t` was harmless. -/
theorem harmless_of_prefixes {whole : List α} (ht : (H t).Pairwise fun x y => key x < key y)
    (hs : (H s).Pairwise fun x y => key x < key y) (hself : s ∈ H s) (htself : t ∈ H t)
    (hbelow : ∀ x ∈ H t, key x ≤ key t) (hlt : key t < key s) (hs_new : s ∉ acc) (ht_new : t ∉ acc)
    (hps : appendNew acc (H s) <+: whole) (hpt : appendNew acc (H t) <+: whole) :
    Harmless key H acc t s := by
  rw [appendNew_eq (nodup_of_sorted hs)] at hps
  rw [appendNew_eq (nodup_of_sorted ht)] at hpt
  have hnew : ∀ {u x : α}, x ∉ acc → (x ∈ (H u).filter (fun x => x ∉ acc) ↔ x ∈ H u) := by
    intro u x hx; simp [hx]
  rcases List.prefix_or_prefix_of_prefix hpt hps with hpre | hpre
  · have hpre := (List.prefix_append_right_inj acc).mp hpre
    obtain ⟨rest, hrest⟩ := hpre
    intro x hx
    rw [← hnew (u := t) hx, ← hnew (u := s) hx, ← hrest, List.mem_append]
    constructor
    · intro h; exact ⟨.inl h, hbelow x ((hnew hx).mp h)⟩
    · rintro ⟨h | h, hle⟩
      · exact h
      · -- `x` comes after `t` in a sorted list
        have hsorted := hs.filter fun x => x ∉ acc
        rw [← hrest] at hsorted
        have := (List.pairwise_append.mp hsorted).2.2 t ((hnew ht_new).mpr htself) x h
        exact absurd this (not_lt.mpr hle)
  · have hpre := (List.prefix_append_right_inj acc).mp hpre
    have hmem : s ∈ H t := (hnew hs_new).mp (hpre.subset ((hnew hs_new).mpr hself))
    exact absurd (hbelow s hmem) (not_le.mpr hlt)

/-! ## Resuming a ledger -/

theorem emit_nodup {H : α → List α} {ts acc : List α} (h : acc.Nodup) : (emit H acc ts).Nodup := by
  induction ts generalizing acc with
  | nil => exact h
  | cons t ts ih => exact ih (appendNew_nodup h)

omit [DecidableEq α] in
/-- The history of a leader ends in the leader. -/
theorem Histories.eq_concat {ts : List α} (hH : Histories key H ts) (ht : t ∈ ts) :
    ∃ zs, H t = zs ++ [t] := by
  obtain ⟨zs, ws, hsplit⟩ := List.append_of_mem (hH.self t ht)
  have hsorted := hH.sorted t ht
  rw [hsplit] at hsorted
  have hlater := (List.pairwise_cons.mp (List.pairwise_append.mp hsorted).2.1).1
  have hnil : ws = [] := by
    rw [List.eq_nil_iff_forall_not_mem]
    intro w hw
    have hle := hH.below t ht w (by rw [hsplit]; simp [hw])
    exact absurd (hlater w hw) (not_lt.mpr hle)
  exact ⟨zs, by rw [hsplit, hnil]⟩

omit [DecidableEq α] in
theorem Histories.of_append {ts us : List α} (hH : Histories key H (ts ++ us)) :
    Histories key H ts where
  sorted t ht := hH.sorted t (List.mem_append_left _ ht)
  self t ht := hH.self t (List.mem_append_left _ ht)
  below t ht := hH.below t (List.mem_append_left _ ht)
  increasing := (List.pairwise_append.mp hH.increasing).1

/-- A later leader is not in the histories of the earlier ones. -/
theorem Histories.not_mem_emit {ts us : List α} (hH : Histories key H (ts ++ t :: us)) :
    t ∉ emit H [] ts := by
  rw [mem_emit]
  rintro (h | ⟨u, hu, hmem⟩)
  · cases h
  · have hlt := (List.pairwise_append.mp hH.increasing).2.2 u hu t List.mem_cons_self
    exact absurd hlt (not_lt.mpr (hH.below u (List.mem_append_left _ hu) t hmem))

/-- A part of the ledger that holds some first leaders holds their histories. -/
theorem emit_prefix_of_leaders_mem {ts : List α} {whole : List α} (hH : Histories key H ts)
    (hacc : acc <+: whole) (hts : emit H [] ts <+: whole) (hmem : ∀ u ∈ ts, u ∈ acc) :
    emit H [] ts <+: acc := by
  rcases List.eq_nil_or_concat' ts with rfl | ⟨ts, u, rfl⟩
  · exact List.nil_prefix
  have hu : u ∈ ts ++ [u] := List.mem_append_right _ (List.mem_singleton_self u)
  obtain ⟨zs, hzs⟩ := hH.eq_concat hu
  have hend : emit H [] (ts ++ [u]) =
      (emit H [] ts ++ zs.filter fun x => x ∉ emit H [] ts) ++ [u] := by
    rw [emit_append, emit_cons, emit_nil, appendNew_eq (nodup_of_sorted (hH.sorted u hu)), hzs,
      List.filter_append, List.filter_cons_of_pos (by simpa using hH.not_mem_emit), List.filter_nil,
      List.append_assoc]
  have hnd : (emit H [] (ts ++ [u])).Nodup := emit_nodup List.nodup_nil
  rcases List.prefix_or_prefix_of_prefix hts hacc with h | h
  · exact h
  rw [hend] at h hnd ⊢
  rcases List.prefix_concat_iff.mp h with h | h
  · rw [h]
  · -- `u` would be in the ledger twice
    exact absurd rfl ((List.nodup_append.mp hnd).2.2 u (h.subset (hmem u hu)) u
      (List.mem_singleton_self u))

/-- **Resuming.**  A part of the ledger that holds all leaders before `t`, but not `t`, stays a part
    of the ledger when any beginning of the history of `t` is appended. -/
theorem appendNew_prefix_emit {ts us p : List α} (hH : Histories key H (ts ++ t :: us))
    (hacc : acc <+: emit H [] (ts ++ t :: us)) (hmem : ∀ u ∈ ts, u ∈ acc) (ht : t ∉ acc)
    (hp : p <+: H t) : appendNew acc p <+: emit H [] (ts ++ t :: us) := by
  have htmem : t ∈ ts ++ t :: us := List.mem_append_right _ List.mem_cons_self
  have hnd := nodup_of_sorted (hH.sorted t htmem)
  have hwhole : appendNew (emit H [] ts) (H t) <+: emit H [] (ts ++ t :: us) := by
    rw [emit_append, emit_cons]
    exact prefix_emit _ _ _
  -- `acc` lies between the ledger before `t` and the one with the history of `t`
  obtain ⟨q, rfl⟩ := emit_prefix_of_leaders_mem hH.of_append hacc
    ((prefix_appendNew _ _).trans hwhole) hmem
  have hupper : emit H [] ts ++ q <+: appendNew (emit H [] ts) (H t) := by
    rcases List.prefix_or_prefix_of_prefix hacc hwhole with h | h
    · exact h
    · exact absurd (h.subset (mem_appendNew.mpr (.inr (hH.self t htmem)))) ht
  refine List.IsPrefix.trans ?_ hwhole
  rw [appendNew_eq hnd, List.prefix_append_right_inj] at hupper
  rw [appendNew_eq hnd, appendNew_eq (hnd.sublist hp.sublist), List.append_assoc,
    List.prefix_append_right_inj]
  have hsplit : (p.filter fun x => x ∉ emit H [] ts ++ q) =
      (p.filter fun x => x ∉ emit H [] ts).filter fun x => x ∉ q := by
    rw [List.filter_filter]
    refine List.filter_congr fun x _ => ?_
    simp only [List.mem_append, not_or, Bool.decide_and, Bool.and_comm]
  rw [hsplit]
  have hg : (p.filter fun x => x ∉ emit H [] ts) <+: (H t).filter fun x => x ∉ emit H [] ts :=
    hp.filter _
  rcases List.prefix_or_prefix_of_prefix hg hupper with h | ⟨g, hg'⟩
  · -- all of `p` is there already
    rw [List.filter_eq_nil_iff.mpr fun x hx => by simpa using h.subset hx, List.append_nil]
    exact hupper
  · have hndg : (q ++ g).Nodup := by
      rw [hg']
      exact (hnd.sublist hp.sublist).filter _
    rw [← hg', List.filter_append, List.filter_eq_nil_iff.mpr (by simp), List.nil_append,
      List.filter_eq_self.mpr ?_, hg']
    · exact hg
    · intro x hx
      rw [decide_eq_true_eq]
      exact fun hmem => (List.nodup_append.mp hndg).2.2 x hmem x hx rfl

/-! ## Leaving leaders out -/

/-- Every leader of `ts` that `p` leaves out below a chosen one is harmless to the next chosen one,
    given what was emitted before it. -/
def GapsHarmless (key : α → κ) (H : α → List α) (p : α → Bool) (acc ts : List α) : Prop :=
  ∀ pre t post, ts = pre ++ t :: post → p t = false →
    ∀ s, (post.filter p).head? = some s → Harmless key H (emit H acc pre) t s

theorem gapsHarmless_cons_chosen {p : α → Bool} {ts : List α} (hp : p t = true) :
    GapsHarmless key H p acc (t :: ts) ↔ GapsHarmless key H p (appendNew acc (H t)) ts := by
  constructor
  · intro h pre u post hts
    exact h (t :: pre) u post (by rw [hts]; rfl)
  · intro h pre u post hts hu
    cases pre with
    | nil => cases hts; rw [hp] at hu; cases hu
    | cons v pre => cases hts; exact h pre u post rfl hu

theorem gapsHarmless_cons_left {p : α → Bool} {ts : List α} (hp : p t = false) :
    GapsHarmless key H p acc (t :: ts) ↔
      (∀ s, (ts.filter p).head? = some s → Harmless key H acc t s) ∧
      GapsHarmless key H p (appendNew acc (H t)) ts := by
  constructor
  · intro h
    exact ⟨h [] t ts rfl hp, fun pre u post hts => h (t :: pre) u post (by rw [hts]; rfl)⟩
  · rintro ⟨h1, h2⟩ pre u post hts hu
    cases pre with
    | nil => cases hts; exact h1
    | cons v pre => cases hts; exact h2 pre u post rfl hu

/-- The induction over the leaders: `P` is the smaller ledger so far, `P'` the larger, and the next
    chosen history makes them equal. -/
theorem emit_prefix_iff_aux {p : α → Bool} : ∀ (ts P P' : List α), Histories key H ts →
    (∀ x ∈ P', ∀ u ∈ ts, key x < key u) →
    (∀ s, (ts.filter p).head? = some s → appendNew P' (H s) = appendNew P (H s)) →
    (ts.filter p = [] → P <+: P') →
    (emit H P (ts.filter p) <+: emit H P' ts ↔ GapsHarmless key H p P' ts) := by
  intro ts
  induction ts with
  | nil =>
    intro P P' _ _ _ hnil
    refine ⟨fun _ pre t post h => by simp at h, fun _ => hnil rfl⟩
  | cons t ts ih =>
    intro P P' hH hkeys hnext hnil
    have hlow : ∀ x ∈ appendNew P' (H t), ∀ u ∈ ts, key x < key u := by
      intro x hx u hu
      rcases mem_appendNew.mp hx with h | h
      · exact hkeys x h u (List.mem_cons_of_mem _ hu)
      · exact lt_of_le_of_lt (hH.below t List.mem_cons_self x h)
          ((List.pairwise_cons.mp hH.increasing).1 u hu)
    have hnew : ∀ u ∈ t :: ts, u ∉ P' := fun u hu hmem => lt_irrefl _ (hkeys u hmem u hu)
    by_cases hp : p t = true
    · -- a chosen leader: both ledgers write its history and coincide afterwards
      have heq : appendNew P' (H t) = appendNew P (H t) :=
        hnext t (by rw [List.filter_cons_of_pos hp]; rfl)
      rw [List.filter_cons_of_pos hp, emit_cons, emit_cons, gapsHarmless_cons_chosen hp, ← heq]
      exact ih _ _ hH.tail hlow (fun _ _ => rfl) fun _ => List.prefix_rfl
    · have hp : p t = false := by simpa using hp
      rw [List.filter_cons_of_neg (by simp [hp]), emit_cons, gapsHarmless_cons_left hp]
      rw [List.filter_cons_of_neg (by simp [hp])] at hnext hnil
      cases hL : ts.filter p with
      | nil =>
        -- nothing is chosen any more: the smaller ledger is finished
        have hP := hnil hL
        have hrest := ih P (appendNew P' (H t)) hH.tail hlow (by rw [hL]; intro s h; cases h)
          fun _ => hP.trans (prefix_appendNew _ _)
        rw [hL] at hrest
        rw [hrest]
        exact ⟨fun h => ⟨fun s hs => (by cases hs), h⟩, And.right⟩
      | cons s L =>
        have hs : s ∈ ts := (List.mem_filter.mp (hL ▸ List.mem_cons_self : s ∈ ts.filter p)).1
        have hts : key t < key s := (List.pairwise_cons.mp hH.increasing).1 s hs
        have heq : appendNew P' (H s) = appendNew P (H s) := hnext s (by rw [hL]; rfl)
        have hstep : Harmless key H P' t s →
            (emit H P (s :: L) <+: emit H (appendNew P' (H t)) ts ↔
              GapsHarmless key H p (appendNew P' (H t)) ts) := by
          intro hharm
          have habsorb := appendNew_of_harmless (hH.sorted t List.mem_cons_self)
            (hH.tail.sorted s hs) hharm
          rw [← hL]
          refine ih P _ hH.tail hlow ?_ ?_
          · intro s' hs'
            rw [hL] at hs'; cases hs'
            rw [habsorb, heq]
          · intro h; rw [hL] at h; cases h
        constructor
        · intro hpre
          have hharm : Harmless key H P' t s := by
            refine harmless_of_prefixes (hH.sorted t List.mem_cons_self) (hH.tail.sorted s hs)
              (hH.tail.self s hs) (hH.self t List.mem_cons_self) (hH.below t List.mem_cons_self) hts
              (hnew s (List.mem_cons_of_mem _ hs)) (hnew t List.mem_cons_self) ?_
              (prefix_emit H _ ts)
            rw [heq]
            exact (prefix_emit H _ L).trans hpre
          refine ⟨fun s' hs' => ?_, (hstep hharm).mp hpre⟩
          cases hs'; exact hharm
        · rintro ⟨h1, h2⟩
          exact (hstep (h1 s rfl)).mpr h2

/-- **Left-out leaders**: the ledger of the chosen leaders is a prefix of the whole ledger iff every
    gap is harmless. -/
theorem emit_prefix_iff {p : α → Bool} {ts : List α} (hH : Histories key H ts) :
    emit H [] (ts.filter p) <+: emit H [] ts ↔ GapsHarmless key H p [] ts :=
  emit_prefix_iff_aux ts [] [] hH (fun x hx => by cases hx) (fun _ _ => rfl) fun _ => List.prefix_rfl

omit [DecidableEq α] in
/-- Cutting an increasing list at a member: before it the smaller ones, after it the larger ones. -/
theorem mem_cut {pre post : List α} (h : (pre ++ t :: post).Pairwise fun x y => key x < key y)
    (u : α) : (u ∈ pre ↔ u ∈ pre ++ t :: post ∧ key u < key t) ∧
      (u ∈ post ↔ u ∈ pre ++ t :: post ∧ key t < key u) := by
  obtain ⟨-, hpost, hcross⟩ := List.pairwise_append.mp h
  have hafter := (List.pairwise_cons.mp hpost).1
  have hbefore : ∀ u ∈ pre, key u < key t := fun u hu => hcross u hu t List.mem_cons_self
  rw [List.mem_append, List.mem_cons]
  refine ⟨⟨fun hu => ⟨.inl hu, hbefore u hu⟩, ?_⟩, ⟨fun hu => ⟨.inr (.inr hu), hafter u hu⟩, ?_⟩⟩
  · rintro ⟨hu | rfl | hu, hlt⟩
    · exact hu
    · exact absurd hlt (lt_irrefl _)
    · exact absurd hlt (lt_asymm (hafter u hu))
  · rintro ⟨hu | rfl | hu, hlt⟩
    · exact absurd hlt (lt_asymm (hbefore u hu))
    · exact absurd hlt (lt_irrefl _)
    · exact hu

omit [DecidableEq α] in
/-- The head of an increasing list is its least member. -/
theorem head?_eq_some_iff {xs : List α} (h : xs.Pairwise fun x y => key x < key y) :
    xs.head? = some s ↔ s ∈ xs ∧ ∀ u ∈ xs, key s ≤ key u := by
  cases xs with
  | nil => simp
  | cons x xs =>
    have hx := (List.pairwise_cons.mp h).1
    simp only [List.head?_cons, Option.some.injEq]
    constructor
    · rintro rfl
      refine ⟨List.mem_cons_self, fun u hu => ?_⟩
      rcases List.mem_cons.mp hu with rfl | hu
      · exact le_rfl
      · exact (hx u hu).le
    · rintro ⟨hs, hmin⟩
      rcases List.mem_cons.mp hs with rfl | hs
      · rfl
      · exact absurd (hx s hs) (not_lt.mpr (hmin x List.mem_cons_self))

/-- The gaps read off the order of the leaders, without positions. -/
theorem gapsHarmless_iff {p : α → Bool} {ts : List α} (hH : Histories key H ts) :
    GapsHarmless key H p [] ts ↔
      ∀ t ∈ ts, p t = false → ∀ s ∈ ts, p s = true → key t < key s →
        (∀ u ∈ ts, p u = true → key t < key u → key s ≤ key u) →
        ∀ x, (∀ u ∈ ts, key u < key t → x ∉ H u) → (x ∈ H t ↔ x ∈ H s ∧ key x ≤ key t) := by
  constructor
  · intro h t ht hpt s hs hps hlt hfirst x hx
    obtain ⟨pre, post, rfl⟩ := List.append_of_mem ht
    have hcut := mem_cut hH.increasing
    refine h pre t post rfl hpt s ?_ x ?_
    · have hpost := (List.pairwise_cons.mp (List.pairwise_append.mp hH.increasing).2.1).2
      refine (head?_eq_some_iff (hpost.filter p)).mpr ⟨?_, fun u hu => ?_⟩
      · exact List.mem_filter.mpr ⟨(hcut s).2.mpr ⟨hs, hlt⟩, hps⟩
      · obtain ⟨hu, hpu⟩ := List.mem_filter.mp hu
        obtain ⟨hu, hlt'⟩ := (hcut u).2.mp hu
        exact hfirst u hu hpu hlt'
    · rw [mem_emit]
      rintro (h | ⟨u, hu, hxu⟩)
      · cases h
      · obtain ⟨hu, hlt'⟩ := (hcut u).1.mp hu
        exact hx u hu hlt' hxu
  · intro h pre t post hts hpt s hs x hx
    subst hts
    have hcut := mem_cut hH.increasing
    have hpost := (List.pairwise_cons.mp (List.pairwise_append.mp hH.increasing).2.1).2
    obtain ⟨hs, hmin⟩ := (head?_eq_some_iff (hpost.filter p)).mp hs
    obtain ⟨hs, hps⟩ := List.mem_filter.mp hs
    obtain ⟨hs, hlt⟩ := (hcut s).2.mp hs
    refine h t (List.mem_append_right _ List.mem_cons_self) hpt s hs hps hlt ?_ x ?_
    · intro u hu hpu hlt'
      exact hmin u (List.mem_filter.mpr ⟨(hcut u).2.mpr ⟨hu, hlt'⟩, hpu⟩)
    · intro u hu hlt' hxu
      exact hx (mem_emit.mpr (.inr ⟨u, (hcut u).1.mpr ⟨hu, hlt'⟩, hxu⟩))

end Sorted

/-! ## In which part an entry is -/

end SuwappuDag.Emit
