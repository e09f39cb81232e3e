/-
  COMMANDS over a state — code that takes `&mut self`, may fail half way, and rolls nothing back.

  1. **Program** — a `Command ε σ α` maps a state to a result AND the state it leaves.  A failing
     command leaves whatever it had already written: sequencing stops at the first error and keeps
     the state reached there, which is what `?` does behind a mutable reference.
  2. **Specification** — three predicates, each with one rule per way of building a command:
     * `AtomicAt c s` — if `c` fails at `s`, the state is still `s`; `TearsIff` pins down where a
       command is NOT atomic;
     * `FailKeeps g c s` — a failure at `s` spares the part `g` of the state (a frame);
     * `Shifts m c d` — a successful run of `c` moves the measure `m` by exactly `d`.
  3. **Crux** — checks come first and writes last.  The rules for checks are EQUIVALENCES, so that a
     guarded command is atomic exactly where the part behind its guards is, and nothing is lost when
     the guards are peeled off one by one.
  4. **Lists** — `mapM` of a check over a list is the check of every entry; in another order it gives
     the results in that order, and a failure is one of an entry.
-/
import Mathlib.Algebra.Order.Ring.Int
import Mathlib.Data.List.Perm.Basic
import Mathlib.Tactic.Ring

namespace SuwappuDag

/-- A command: from a state, a result or an error, and the state left behind in either case. -/
def Command (ε σ α : Type) := σ → Except ε α × σ

namespace Command

variable {ε σ α β γ : Type}

/-- Sequencing stops at the first error and keeps the state of that moment. -/
protected def bind (c : Command ε σ α) (k : α → Command ε σ β) : Command ε σ β := fun s =>
  match c s with
  | (.ok a, t) => k a t
  | (.error e, t) => (.error e, t)

instance : Monad (Command ε σ) where
  pure a := fun s => (.ok a, s)
  bind := Command.bind

protected theorem id_map (c : Command ε σ α) : id <$> c = c := by
  funext s
  show Command.bind c (fun a s => (.ok a, s)) s = c s
  rcases h : c s with ⟨e | a, t⟩ <;> simp only [Command.bind, h]

protected theorem bind_assoc (c : Command ε σ α) (k : α → Command ε σ β)
    (l : β → Command ε σ γ) : c >>= k >>= l = c >>= fun a => k a >>= l := by
  funext s
  show Command.bind (Command.bind c k) l s = Command.bind c (fun a => Command.bind (k a) l) s
  rcases h : c s with ⟨e | a, t⟩ <;> simp only [Command.bind, h]

instance : LawfulMonad (Command ε σ) :=
  LawfulMonad.mk' _ Command.id_map (fun _ _ => rfl) Command.bind_assoc

/-- Fail with `e`. -/
def fail (e : ε) : Command ε σ α := fun s => (.error e, s)

/-- Look a value up. -/
def read (f : σ → α) : Command ε σ α := fun s => (.ok (f s), s)

/-- Look a value up, or fail: a check that writes nothing. -/
def fetch (f : σ → Except ε α) : Command ε σ α := fun s => (f s, s)

/-- Overwrite the state. -/
def write (f : σ → σ) : Command ε σ Unit := fun s => (.ok (), f s)

/-- `if p { return Err(e) }`. -/
def failIf (p : Prop) [Decidable p] (e : ε) : Command ε σ Unit :=
  if p then fail e else pure ()

/-- `if p(self) { return Err(e) }`. -/
def failWhen (p : σ → Prop) [DecidablePred p] (e : ε) : Command ε σ Unit :=
  fetch fun s => if p s then .error e else .ok ()

/-- `o.ok_or(e)`. -/
def okOr (o : Option α) (e : ε) : Except ε α :=
  match o with
  | some a => .ok a
  | none => .error e

/-- `c.map_err(f)`: the same writes, another error. -/
def mapError {ε' : Type} (f : ε → ε') (c : Command ε σ α) : Command ε' σ α := fun s =>
  ((c s).1.mapError f, (c s).2)

/-! ## Running a command -/

section Run

variable {c : Command ε σ α} {k : α → Command ε σ β} {s t : σ}

@[simp] theorem pure_run (a : α) (s : σ) : (pure a : Command ε σ α) s = (.ok a, s) := rfl

@[simp] theorem fail_run (e : ε) (s : σ) : (fail e : Command ε σ α) s = (.error e, s) := rfl

@[simp] theorem read_run (f : σ → α) (s : σ) : (read f : Command ε σ α) s = (.ok (f s), s) := rfl

@[simp] theorem fetch_run (f : σ → Except ε α) (s : σ) :
    (fetch f : Command ε σ α) s = (f s, s) := rfl

@[simp] theorem write_run (f : σ → σ) (s : σ) :
    (write f : Command ε σ Unit) s = (.ok (), f s) := rfl

variable {a : α} {e : ε}

@[simp] theorem okOr_eq_ok_iff {o : Option α} : okOr o e = .ok a ↔ o = some a := by
  cases o <;> simp [okOr]

/-- The result of `x?` followed by the rest. -/
theorem except_bind_eq_ok_iff {x : Except ε α} {f : α → Except ε β} {b : β} :
    (x >>= f) = .ok b ↔ ∃ a, x = .ok a ∧ f a = .ok b := by
  cases x with
  | error e => simp [bind, Except.bind]
  | ok a => simp [bind, Except.bind]

theorem bind_run_ok (h : c s = (.ok a, t)) : (c >>= k) s = k a t := by
  show Command.bind c k s = _
  simp only [Command.bind, h]

theorem bind_run_error (h : c s = (.error e, t)) : (c >>= k) s = (.error e, t) := by
  show Command.bind c k s = _
  simp only [Command.bind, h]

/-- What is made of the result does not touch the state. -/
theorem bind_pure_state (f : α → β) : ((c >>= fun a => pure (f a)) s).2 = (c s).2 := by
  rcases h : c s with ⟨e | a, t⟩
  · rw [bind_run_error h]
  · rw [bind_run_ok h, pure_run]

@[simp] theorem read_bind_run (f : σ → α) (s : σ) : (read f >>= k) s = k (f s) s := rfl

@[simp] theorem write_bind_run (f : σ → σ) (k : Unit → Command ε σ β) (s : σ) :
    (write f >>= k) s = k () (f s) := rfl

variable {f : σ → Except ε α}

theorem fetch_bind_run_ok (h : f s = .ok a) : (fetch f >>= k) s = k a s :=
  bind_run_ok (by simp [h])

variable {p : Prop}

theorem failIf_bind_run_neg [Decidable p] {k : Unit → Command ε σ β} (h : ¬ p) :
    (failIf p e >>= k) s = k () s := by
  rw [failIf, if_neg h]
  rfl

theorem fetch_bind_run_error (h : f s = .error e) : (fetch f >>= k) s = (.error e, s) :=
  bind_run_error (by simp [h])

theorem failIf_bind_run_pos [Decidable p] {k : Unit → Command ε σ β} (h : p) :
    (failIf p e >>= k) s = (.error e, s) := by
  rw [failIf, if_pos h]
  rfl

theorem failWhen_bind_run_neg {p : σ → Prop} [DecidablePred p] {k : Unit → Command ε σ β} (h : ¬ p s)
    : (failWhen p e >>= k) s = k () s :=
  fetch_bind_run_ok (if_neg h)

theorem failWhen_bind_run_pos {p : σ → Prop} [DecidablePred p] {k : Unit → Command ε σ β} (h : p s) :
    (failWhen p e >>= k) s = (.error e, s) :=
  fetch_bind_run_error (if_pos h)

theorem mapError_run_ok {ε' : Type} {f : ε → ε'} (h : c s = (.ok a, t)) :
    mapError f c s = (.ok a, t) := by
  rw [mapError, h]
  rfl

theorem mapError_run_error {ε' : Type} {f : ε → ε'} (h : c s = (.error e, t)) :
    mapError f c s = (.error (f e), t) := by
  rw [mapError, h]
  rfl

/-- INVERSION of a successful sequence: both halves succeeded. -/
theorem bind_eq_ok_iff {b : β} :
    (c >>= k) s = (.ok b, t) ↔ ∃ a u, c s = (.ok a, u) ∧ k a u = (.ok b, t) := by
  constructor
  · intro h
    rcases hc : c s with ⟨r | a, u⟩
    · rw [bind_run_error hc] at h
      cases h
    · exact ⟨a, u, rfl, by rwa [bind_run_ok hc] at h⟩
  · rintro ⟨a, u, hc, hk⟩
    rwa [bind_run_ok hc]

/-- INVERSION of a failing sequence: the first half failed, or it succeeded and the second did. -/
theorem bind_eq_error_iff :
    (c >>= k) s = (.error e, t) ↔
      c s = (.error e, t) ∨ ∃ a u, c s = (.ok a, u) ∧ k a u = (.error e, t) := by
  constructor
  · intro h
    rcases hc : c s with ⟨r | a, u⟩
    · rw [bind_run_error hc] at h
      cases h
      exact Or.inl rfl
    · exact Or.inr ⟨a, u, rfl, by rwa [bind_run_ok hc] at h⟩
  · rintro (hc | ⟨a, u, hc, hk⟩)
    · exact bind_run_error hc
    · rwa [bind_run_ok hc]

/-- The error of a check that comes first. -/
theorem fetch_bind_eq_error_iff :
    (fetch f >>= k) s = (.error e, t) ↔
      (f s = .error e ∧ s = t) ∨ ∃ a, f s = .ok a ∧ k a s = (.error e, t) := by
  cases hf : f s with
  | error e' => simp [fetch_bind_run_error hf]
  | ok a => simp [fetch_bind_run_ok hf]

theorem failIf_bind_eq_error_iff [Decidable p] {e e' : ε} {k : Unit → Command ε σ β} :
    (failIf p e >>= k) s = (.error e', t) ↔
      (p ∧ e = e' ∧ s = t) ∨ (¬ p ∧ k () s = (.error e', t)) := by
  by_cases hp : p
  · simp [failIf_bind_run_pos hp, hp]
  · simp [failIf_bind_run_neg hp, hp]

theorem failIf_eq_ok_iff [Decidable p] {u : Unit} :
    (failIf p e : Command ε σ Unit) s = (.ok u, t) ↔ ¬ p ∧ s = t := by
  by_cases hp : p <;> simp [failIf, hp]

theorem fetch_eq_ok_iff : (fetch f : Command ε σ α) s = (.ok a, t) ↔ f s = .ok a ∧ s = t := by
  simp

end Run

/-! ## Commands that only look -/

/-- The command never changes the state. -/
def ReadOnly (c : Command ε σ α) : Prop := ∀ s, (c s).2 = s

/-- The command never fails. -/
def Infallible (c : Command ε σ α) : Prop := ∀ s, ∃ a t, c s = (.ok a, t)

theorem readOnly_pure (a : α) : ReadOnly (pure a : Command ε σ α) := fun _ => rfl

theorem readOnly_read (f : σ → α) : ReadOnly (read f : Command ε σ α) := fun _ => rfl

theorem readOnly_fetch (f : σ → Except ε α) : ReadOnly (fetch f) := fun _ => rfl

theorem readOnly_failIf (p : Prop) [Decidable p] (e : ε) :
    ReadOnly (failIf p e : Command ε σ Unit) := by
  intro s
  by_cases hp : p <;> simp [failIf, hp]

theorem infallible_write (f : σ → σ) : Infallible (write f : Command ε σ Unit) :=
  fun s => ⟨(), f s, rfl⟩

theorem ReadOnly.state_eq {c : Command ε σ α} (h : ReadOnly c) {s t : σ} {r : Except ε α}
    (hc : c s = (r, t)) : t = s := by
  have hs := h s
  rw [hc] at hs
  exact hs

/-! ## Atomicity -/

/-- A failure of `c` at `s` leaves `s` as it was. -/
def AtomicAt (c : Command ε σ α) (s : σ) : Prop := ∀ e t, c s = (.error e, t) → t = s

section Atomic

variable {c : Command ε σ α} {k : α → Command ε σ β} {s : σ}

theorem ReadOnly.atomicAt (h : ReadOnly c) (s : σ) : AtomicAt c s :=
  fun e t hc => h.state_eq hc

theorem Infallible.atomicAt (h : Infallible c) (s : σ) : AtomicAt c s := by
  intro e t hc
  obtain ⟨a, u, hok⟩ := h s
  rw [hok] at hc
  cases hc

/-- A command behind a read-only one is atomic exactly where it is reached and is atomic itself. -/
theorem ReadOnly.atomicAt_bind_iff (h : ReadOnly c) :
    AtomicAt (c >>= k) s ↔ ∀ a, c s = (.ok a, s) → AtomicAt (k a) s := by
  constructor
  · intro hat a hc e t hk
    exact hat e t (by rwa [bind_run_ok hc])
  · intro hat e t hrun
    rcases bind_eq_error_iff.mp hrun with hc | ⟨a, u, hc, hk⟩
    · exact h.state_eq hc
    · have hu : u = s := h.state_eq hc
      subst hu
      exact hat a hc e t hk

@[simp] theorem atomicAt_read_bind_iff (f : σ → α) :
    AtomicAt (read f >>= k) s ↔ AtomicAt (k (f s)) s := by
  rw [(readOnly_read f).atomicAt_bind_iff]
  simp

@[simp] theorem atomicAt_fetch_bind_iff (f : σ → Except ε α) :
    AtomicAt (fetch f >>= k) s ↔ ∀ a, f s = .ok a → AtomicAt (k a) s := by
  rw [(readOnly_fetch f).atomicAt_bind_iff]
  simp

@[simp] theorem atomicAt_failIf_bind_iff (p : Prop) [Decidable p] (e : ε)
    (k : Unit → Command ε σ β) :
    AtomicAt (failIf p e >>= k) s ↔ (¬ p → AtomicAt (k ()) s) := by
  rw [(readOnly_failIf p e).atomicAt_bind_iff]
  constructor
  · intro h hp
    exact h () (failIf_eq_ok_iff.mpr ⟨hp, rfl⟩)
  · intro h u hu
    exact h (failIf_eq_ok_iff.mp hu).1

@[simp] theorem atomicAt_pure (a : α) : AtomicAt (pure a : Command ε σ α) s :=
  (readOnly_pure a).atomicAt s

@[simp] theorem atomicAt_ite_iff (p : Prop) [Decidable p] (c d : Command ε σ α) :
    AtomicAt (if p then c else d) s ↔ (p → AtomicAt c s) ∧ (¬ p → AtomicAt d s) := by
  by_cases hp : p <;> simp [hp]

@[simp] theorem atomicAt_write (f : σ → σ) : AtomicAt (write f : Command ε σ Unit) s :=
  (infallible_write f).atomicAt s

/-- Nothing that cannot fail spoils the atomicity of what comes before it. -/
theorem AtomicAt.bind_infallible (h : AtomicAt c s) (hk : ∀ a, Infallible (k a)) :
    AtomicAt (c >>= k) s := by
  intro e t hrun
  rcases bind_eq_error_iff.mp hrun with hc | ⟨a, u, hc, hku⟩
  · exact h e t hc
  · obtain ⟨b, v, hok⟩ := hk a u
    rw [hok] at hku
    cases hku

end Atomic

/-! ## Torn failures -/

/-- `P` says exactly when `c` TEARS at `s`: it fails there and leaves a state that `U` tells from
    `s`.  Elsewhere it is atomic. -/
structure TearsIff (U : σ → σ → Prop) (c : Command ε σ α) (s : σ) (P : Prop) : Prop where
  atomic : ¬ P → AtomicAt c s
  torn : P → ∃ e t, c s = (.error e, t) ∧ ¬ U s t

section Torn

variable {U : σ → σ → Prop} {c : Command ε σ α} {k : α → Command ε σ β} {s : σ} {P Q : Prop}

theorem AtomicAt.tearsIff (h : AtomicAt c s) : TearsIff U c s False := ⟨fun _ => h, False.elim⟩

theorem TearsIff.congr (h : TearsIff U c s P) (hPQ : P ↔ Q) : TearsIff U c s Q := propext hPQ ▸ h

/-- Failures go unnoticed by a reflexive `U` exactly outside `P`. -/
theorem TearsIff.forall_iff (h : TearsIff U c s P) (hU : U s s) :
    (∀ e t, c s = (.error e, t) → U s t) ↔ ¬ P := by
  constructor
  · intro hall hP
    obtain ⟨e, t, hrun, hnot⟩ := h.torn hP
    exact hnot (hall e t hrun)
  · intro hP e t hrun
    rw [h.atomic hP e t hrun]
    exact hU

theorem tearsIff_read_bind {f : σ → α} (h : TearsIff U (k (f s)) s P) :
    TearsIff U (read f >>= k) s P where
  atomic hP := (atomicAt_read_bind_iff f).mpr (h.atomic hP)
  torn hP := h.torn hP

theorem tearsIff_fetch_bind {f : σ → Except ε α} {P : α → Prop}
    (h : ∀ a, f s = .ok a → TearsIff U (k a) s (P a)) :
    TearsIff U (fetch f >>= k) s (∃ a, f s = .ok a ∧ P a) where
  atomic hP := (atomicAt_fetch_bind_iff f).mpr fun a ha =>
    (h a ha).atomic fun hPa => hP ⟨a, ha, hPa⟩
  torn := by
    rintro ⟨a, ha, hPa⟩
    rw [fetch_bind_run_ok ha]
    exact (h a ha).torn hPa

theorem tearsIff_failIf_bind {p : Prop} [Decidable p] {e : ε} {k : Unit → Command ε σ β}
    (h : ¬ p → TearsIff U (k ()) s P) : TearsIff U (failIf p e >>= k) s (¬ p ∧ P) where
  atomic hP := (atomicAt_failIf_bind_iff p e k).mpr fun hp =>
    (h hp).atomic fun hPk => hP ⟨hp, hPk⟩
  torn := by
    rintro ⟨hp, hPk⟩
    rw [failIf_bind_run_neg hp]
    exact (h hp).torn hPk

/-- Behind a write, atomicity means not to fail at all. -/
theorem tearsIff_write_bind {f : σ → σ} {k : Unit → Command ε σ β}
    (hok : ¬ P → ∃ b t, k () (f s) = (.ok b, t))
    (htorn : P → ∃ e t, k () (f s) = (.error e, t) ∧ ¬ U s t) :
    TearsIff U (write f >>= k) s P where
  atomic hP := by
    intro e t hrun
    obtain ⟨b, u, hb⟩ := hok hP
    rw [write_bind_run, hb] at hrun
    cases hrun
  torn hP := by
    rw [write_bind_run]
    exact htorn hP

end Torn

/-! ## Frames -/

/-- The part `g` of the state survives a failure of the command at `s`. -/
def FailKeeps (g : σ → γ) (c : Command ε σ α) (s : σ) : Prop :=
  ∀ e t, c s = (.error e, t) → g t = g s

section Frame

variable {g : σ → γ} {c : Command ε σ α} {k : α → Command ε σ β} {s : σ}

theorem AtomicAt.failKeeps (h : AtomicAt c s) : FailKeeps g c s :=
  fun e t hc => by rw [h e t hc]

theorem ReadOnly.failKeeps_bind (hc : ReadOnly c) (hk : ∀ a, FailKeeps g (k a) s) :
    FailKeeps g (c >>= k) s := by
  intro e t hrun
  rcases bind_eq_error_iff.mp hrun with hfail | ⟨a, u, hok, hrest⟩
  · rw [hc.state_eq hfail]
  · rw [hc.state_eq hok] at hrest
    exact hk a e t hrest

/-- Behind a write that spares `g`, the rest decides. -/
theorem failKeeps_write_bind {f : σ → σ} {k : Unit → Command ε σ β} (hf : g (f s) = g s)
    (hk : FailKeeps g (k ()) (f s)) : FailKeeps g (write f >>= k) s := by
  intro e t hrun
  rw [← hf]
  exact hk e t hrun

end Frame

/-! ## Measures -/

/-- A successful run of the command moves the measure `m` by `d`. -/
def Shifts (m : σ → ℤ) (c : Command ε σ α) (d : ℤ) : Prop :=
  ∀ s a t, c s = (.ok a, t) → m t = m s + d

/-! ## A fallible map over a list -/

section MapM

variable {f : α → Except ε β}

variable {bs : List β} {l : List α}

theorem mapM_cons_ok_iff {a : α} :
    (a :: l).mapM f = .ok bs ↔ ∃ b rest, f a = .ok b ∧ l.mapM f = .ok rest ∧ bs = b :: rest := by
  rw [List.mapM_cons, except_bind_eq_ok_iff]
  simp only [except_bind_eq_ok_iff, pure, Except.pure, Except.ok.injEq]
  constructor
  · rintro ⟨b, hb, rest, hrest, rfl⟩
    exact ⟨b, rest, hb, hrest, rfl⟩
  · rintro ⟨b, rest, hb, hrest, rfl⟩
    exact ⟨b, hb, rest, hrest, rfl⟩

/-- Every entry is mapped, and the results are those of the entries. -/
theorem mapM_ok_iff : ∀ {bs : List β},
    l.mapM f = .ok bs ↔ List.Forall₂ (fun a b => f a = .ok b) l bs := by
  induction l with
  | nil =>
    intro bs
    rw [List.mapM_nil, List.forall₂_nil_left_iff]
    exact ⟨fun h => (Except.ok.inj h).symm, fun h => by rw [h]; rfl⟩
  | cons a l ih =>
    intro bs
    rw [mapM_cons_ok_iff, List.forall₂_cons_left_iff]
    simp only [ih]

theorem ok_of_mapM_ok (h : l.mapM f = .ok bs) : ∀ a ∈ l, ∃ b, f a = .ok b := by
  have hrel := mapM_ok_iff.mp h
  clear h
  induction hrel with
  | nil => intro a ha; cases ha
  | cons hab _ ih =>
    intro x hx
    rcases List.mem_cons.mp hx with rfl | hx
    · exact ⟨_, hab⟩
    · exact ih x hx

/-- A failure is the failure of an entry. -/
theorem mapM_error {e : ε} (h : l.mapM f = .error e) : ∃ a ∈ l, f a = .error e := by
  induction l with
  | nil => cases h
  | cons a l ih =>
    rw [List.mapM_cons] at h
    cases ha : f a with
    | error e' =>
      rw [ha] at h
      cases h
      exact ⟨a, List.mem_cons_self, ha⟩
    | ok b =>
      rw [ha] at h
      cases hl : l.mapM f with
      | ok rest =>
        rw [hl] at h
        cases h
      | error e' =>
        rw [hl] at h
        cases h
        obtain ⟨x, hx, hfx⟩ := ih hl
        exact ⟨x, List.mem_cons_of_mem _ hx, hfx⟩

/-- In another order the same results come in another order. -/
theorem mapM_perm {l l' : List α} (hperm : l.Perm l') (h : l.mapM f = .ok bs) :
    ∃ bs', l'.mapM f = .ok bs' ∧ bs.Perm bs' := by
  have hrel := mapM_ok_iff.mp h
  obtain ⟨bs', hrel', hperm'⟩ := List.perm_comp_forall₂ hperm.symm hrel
  exact ⟨bs', mapM_ok_iff.mpr hrel', hperm'.symm⟩

end MapM

end Command

end SuwappuDag
