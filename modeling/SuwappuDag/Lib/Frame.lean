/-
  FRAMES — how the state a command leaves relates to the state it found, in success AND in failure.

  1. **`Leads R c s`** — run at `s`, the command `c` ends in a state that `R` relates to `s`, whether it
     went through or stopped half way.  For a preorder `R` there is one rule per way of building a
     command.
  2. **`Guarded c s Q`** — a command of checks and what comes behind them: either every check passes
     at `s` and `Q` tells how the run ends, or one fails, the state is still `s`, and `Q` is empty.
  3. **`Errs E c s`** — run at `s`, the command fails, if it does, with an error that `E` allows.
  4. **`Ends R E m d c s`** — both of these, and when the command succeeds the measure `m` has moved by
     `d`.  What is shown of a command once in this form need not be taken apart again.
  5. **Crux** — checks touch nothing, so the rules peel them off one by one, and only the writes behind
     them have to be looked at.
-/
import SuwappuDag.Lib.Command
import Mathlib.Order.Defs.Unbundled

namespace SuwappuDag.Command

variable {ε σ α β : Type}

/-- Whether it succeeds or fails, `c` leads from `s` to a state in the relation `R` to `s`. -/
def Leads (R : σ → σ → Prop) (c : Command ε σ α) (s : σ) : Prop := R s (c s).2

section Leads

variable {R : σ → σ → Prop} [IsPreorder σ R] {c : Command ε σ α} {k : α → Command ε σ β} {s : σ}

theorem ReadOnly.leads (h : ReadOnly c) : Leads R c s := by
  show R s (c s).2
  rw [h s]
  exact refl s

theorem leads_pure (a : α) : Leads R (pure a : Command ε σ α) s := (readOnly_pure a).leads

/-- Both halves lead on, the second from where the first one ends. -/
theorem Leads.bind (hc : Leads R c s) (hk : ∀ a t, c s = (.ok a, t) → Leads R (k a) t) :
    Leads R (c >>= k) s := by
  rcases hrun : c s with ⟨e | a, t⟩
  · show R s ((c >>= k) s).2
    rw [bind_run_error hrun]
    rwa [Leads, hrun] at hc
  · show R s ((c >>= k) s).2
    rw [bind_run_ok hrun]
    rw [Leads, hrun] at hc
    exact IsTrans.trans s t _ hc (hk a t hrun)

/-- Behind a command that only looks, the rest decides. -/
theorem ReadOnly.leads_bind (h : ReadOnly c) (hk : ∀ a, c s = (.ok a, s) → Leads R (k a) s) :
    Leads R (c >>= k) s := by
  refine Leads.bind h.leads fun a t hrun => ?_
  have ht : t = s := h.state_eq hrun
  subst ht
  exact hk a hrun

omit [IsPreorder σ R] in
theorem leads_read_bind {f : σ → α} (h : Leads R (k (f s)) s) : Leads R (read f >>= k) s := h

theorem leads_fetch_bind {f : σ → Except ε α} (h : ∀ a, f s = .ok a → Leads R (k a) s) :
    Leads R (fetch f >>= k) s :=
  (readOnly_fetch f).leads_bind fun a hrun => h a (fetch_eq_ok_iff.mp hrun).1

theorem leads_failIf_bind {p : Prop} [Decidable p] {e : ε} {k : Unit → Command ε σ β}
    (h : ¬ p → Leads R (k ()) s) : Leads R (failIf p e >>= k) s :=
  (readOnly_failIf p e).leads_bind fun _ hrun => h (failIf_eq_ok_iff.mp hrun).1

omit [IsPreorder σ R] in
theorem leads_write {f : σ → σ} (h : R s (f s)) : Leads R (write f : Command ε σ Unit) s := h

omit [IsPreorder σ R] in
theorem leads_ite {p : Prop} [Decidable p] {c d : Command ε σ α} (hc : p → Leads R c s)
    (hd : ¬ p → Leads R d s) : Leads R (if p then c else d) s := by
  by_cases hp : p
  · rw [if_pos hp]
    exact hc hp
  · rw [if_neg hp]
    exact hd hp

end Leads

/-! ## Errors -/

/-- If `c` fails at `s`, then with an error in `E`. -/
def Errs (E : ε → Prop) (c : Command ε σ α) (s : σ) : Prop := ∀ e, (c s).1 = .error e → E e

section Errs

variable {E : ε → Prop} {c : Command ε σ α} {k : α → Command ε σ β} {s : σ}

theorem errs_pure (a : α) : Errs E (pure a : Command ε σ α) s := fun _ h => by cases h

theorem errs_write (f : σ → σ) : Errs E (write f : Command ε σ Unit) s := fun _ h => by cases h

theorem errs_fetch {f : σ → Except ε α} (h : ∀ e, f s = .error e → E e) : Errs E (fetch f) s := h

theorem errs_failIf {p : Prop} [Decidable p] {e : ε} (h : E e) :
    Errs E (failIf p e : Command ε σ Unit) s := by
  intro e' he'
  rw [failIf] at he'
  split at he'
  · cases he'
    exact h
  · cases he'

theorem Errs.bind (hc : Errs E c s) (hk : ∀ a t, c s = (.ok a, t) → Errs E (k a) t) :
    Errs E (c >>= k) s := by
  intro e he
  rcases hrun : c s with ⟨e' | a, t⟩
  · rw [bind_run_error hrun] at he
    cases he
    exact hc e (by rw [hrun])
  · rw [bind_run_ok hrun] at he
    exact hk a t hrun e he

theorem errs_read_bind {f : σ → α} (h : Errs E (k (f s)) s) : Errs E (read f >>= k) s := h

theorem errs_fetch_bind {f : σ → Except ε α} (hf : ∀ e, f s = .error e → E e)
    (hk : ∀ a, f s = .ok a → Errs E (k a) s) : Errs E (fetch f >>= k) s := by
  refine (errs_fetch hf).bind fun a t hrun => ?_
  obtain ⟨ha, rfl⟩ := fetch_eq_ok_iff.mp hrun
  exact hk a ha

theorem errs_failIf_bind {p : Prop} [Decidable p] {e : ε} {k : Unit → Command ε σ β} (he : E e)
    (hk : ¬ p → Errs E (k ()) s) : Errs E (failIf p e >>= k) s := by
  refine (errs_failIf he).bind fun _ t hrun => ?_
  obtain ⟨hp, rfl⟩ := failIf_eq_ok_iff.mp hrun
  exact hk hp

theorem errs_ite {p : Prop} [Decidable p] {c d : Command ε σ α} (hc : p → Errs E c s)
    (hd : ¬ p → Errs E d s) : Errs E (if p then c else d) s := by
  by_cases hp : p
  · rw [if_pos hp]
    exact hc hp
  · rw [if_neg hp]
    exact hd hp

end Errs

/-! ## Everything at once -/

/-- The command leads along `R`, fails with errors in `E` only, and when it succeeds the measure `m`
    has moved by `d`. -/
structure Ends (R : σ → σ → Prop) (E : ε → Prop) (m : σ → ℤ) (d : ℤ) (c : Command ε σ α) (s : σ) :
    Prop where
  leads : Leads R c s
  errs : Errs E c s
  shifts : ∀ a t, c s = (.ok a, t) → m t = m s + d

section Ends

variable {R : σ → σ → Prop} [IsPreorder σ R] {E : ε → Prop} {m : σ → ℤ} {d d' : ℤ}
  {c : Command ε σ α} {k : α → Command ε σ β} {s : σ}

theorem ends_pure (a : α) : Ends R E m 0 (pure a : Command ε σ α) s where
  leads := leads_pure a
  errs := errs_pure a
  shifts := by
    intro a t h
    cases h
    exact (add_zero _).symm

omit [IsPreorder σ R] in
theorem ends_write {f : σ → σ} (hR : R s (f s)) (hm : m (f s) = m s + d) :
    Ends R E m d (write f : Command ε σ Unit) s where
  leads := leads_write hR
  errs := errs_write f
  shifts := by
    intro a t h
    cases h
    exact hm

/-- The moves of both halves add up. -/
theorem Ends.bind (hc : Ends R E m d c s) (hk : ∀ a t, c s = (.ok a, t) → Ends R E m d' (k a) t) :
    Ends R E m (d + d') (c >>= k) s where
  leads := hc.leads.bind fun a t hrun => (hk a t hrun).leads
  errs := hc.errs.bind fun a t hrun => (hk a t hrun).errs
  shifts := by
    intro b t hrun
    obtain ⟨a, u, h₁, h₂⟩ := bind_eq_ok_iff.mp hrun
    rw [(hk a u h₁).shifts b t h₂, hc.shifts a u h₁, add_assoc]

/-- Behind a command that moves nothing, the move is that of the rest. -/
theorem Ends.bind_of_zero (hc : Ends R E m 0 c s)
    (hk : ∀ a t, c s = (.ok a, t) → Ends R E m d (k a) t) : Ends R E m d (c >>= k) s := by
  have h := hc.bind hk
  rwa [zero_add] at h

/-- In front of commands that move nothing, the move is that of the first one. -/
theorem Ends.bind_zero (hc : Ends R E m d c s)
    (hk : ∀ a t, c s = (.ok a, t) → Ends R E m 0 (k a) t) : Ends R E m d (c >>= k) s := by
  have h := hc.bind hk
  rwa [add_zero] at h

omit [IsPreorder σ R] in
theorem ends_read_bind {f : σ → α} (h : Ends R E m d (k (f s)) s) : Ends R E m d (read f >>= k) s :=
  ⟨h.leads, h.errs, h.shifts⟩

theorem ends_fetch_bind {f : σ → Except ε α} (hf : ∀ e, f s = .error e → E e)
    (hk : ∀ a, f s = .ok a → Ends R E m d (k a) s) : Ends R E m d (fetch f >>= k) s where
  leads := leads_fetch_bind fun a ha => (hk a ha).leads
  errs := errs_fetch_bind hf fun a ha => (hk a ha).errs
  shifts := by
    intro b t hrun
    obtain ⟨a, u, hfetch, hrest⟩ := bind_eq_ok_iff.mp hrun
    obtain ⟨ha, rfl⟩ := fetch_eq_ok_iff.mp hfetch
    exact (hk a ha).shifts b t hrest

theorem ends_failIf_bind {p : Prop} [Decidable p] {e : ε} {k : Unit → Command ε σ β} (he : E e)
    (hk : ¬ p → Ends R E m d (k ()) s) : Ends R E m d (failIf p e >>= k) s where
  leads := leads_failIf_bind fun hp => (hk hp).leads
  errs := errs_failIf_bind he fun hp => (hk hp).errs
  shifts := by
    intro b t hrun
    obtain ⟨_, u, hcheck, hrest⟩ := bind_eq_ok_iff.mp hrun
    obtain ⟨hp, rfl⟩ := failIf_eq_ok_iff.mp hcheck
    exact (hk hp).shifts b t hrest

omit [IsPreorder σ R] in
theorem ends_ite {p : Prop} [Decidable p] {c c' : Command ε σ α} (hc : p → Ends R E m d c s)
    (hc' : ¬ p → Ends R E m d c' s) : Ends R E m d (if p then c else c') s := by
  by_cases hp : p
  · rw [if_pos hp]
    exact hc hp
  · rw [if_neg hp]
    exact hc' hp

end Ends

/-! ## Checks first -/

/-- Either the checks of `c` pass at `s`, and the run ends as `Q` says, or they do not, no end meets
    `Q`, and nothing has happened. -/
def Guarded (c : Command ε σ α) (s : σ) (Q : Except ε α × σ → Prop) : Prop :=
  Q (c s) ∨ ((∀ r, ¬ Q r) ∧ ∃ e, c s = (.error e, s))

section Guarded

variable {c : Command ε σ α} {k : α → Command ε σ β} {s t : σ} {Q Q' : Except ε β × σ → Prop}

theorem guarded_run (c : Command ε σ α) (s : σ) : Guarded c s (fun r => r = c s) := Or.inl rfl

theorem Guarded.congr {c : Command ε σ β} (h : Guarded c s Q) (hQ : ∀ r, Q r ↔ Q' r) :
    Guarded c s Q' := by
  have : Q = Q' := funext fun r => propext (hQ r)
  rwa [← this]

/-- A run that succeeds passed the checks. -/
theorem Guarded.ok {c : Command ε σ β} (h : Guarded c s Q) {b : β} (hrun : c s = (.ok b, t)) :
    Q (.ok b, t) := by
  rcases h with h | ⟨-, e, he⟩
  · rwa [hrun] at h
  · rw [he] at hrun
    cases hrun

/-- Where the checks pass, the run ends as they say. -/
theorem Guarded.of_exists {c : Command ε σ β} (h : Guarded c s Q) {r : Except ε β × σ} (hr : Q r) :
    Q (c s) := by
  rcases h with h | ⟨hnone, -⟩
  · exact h
  · exact absurd hr (hnone r)

theorem guarded_read_bind {f : σ → α} (h : Guarded (k (f s)) s Q) : Guarded (read f >>= k) s Q := h

theorem guarded_fetch_bind {f : σ → Except ε α} {Q : α → Except ε β × σ → Prop}
    (h : ∀ a, f s = .ok a → Guarded (k a) s (Q a)) :
    Guarded (fetch f >>= k) s (fun r => ∃ a, f s = .ok a ∧ Q a r) := by
  cases hf : f s with
  | error e =>
    refine Or.inr ⟨?_, e, fetch_bind_run_error hf⟩
    rintro r ⟨a, ha, -⟩
    cases ha
  | ok a =>
    rw [Guarded, fetch_bind_run_ok hf]
    rcases h a hf with hq | ⟨hnone, he⟩
    · exact Or.inl ⟨a, rfl, hq⟩
    · refine Or.inr ⟨?_, he⟩
      rintro r ⟨a', ha', hq⟩
      cases ha'
      exact hnone r hq

theorem guarded_failIf_bind {p : Prop} [Decidable p] {e : ε} {k : Unit → Command ε σ β}
    (h : ¬ p → Guarded (k ()) s Q) : Guarded (failIf p e >>= k) s (fun r => ¬ p ∧ Q r) := by
  by_cases hp : p
  · exact Or.inr ⟨fun r hr => hr.1 hp, e, failIf_bind_run_pos hp⟩
  · rw [Guarded, failIf_bind_run_neg hp]
    rcases h hp with hq | ⟨hnone, he⟩
    · exact Or.inl ⟨hp, hq⟩
    · exact Or.inr ⟨fun r hr => hnone r hr.2, he⟩

theorem guarded_failWhen_bind {p : σ → Prop} [DecidablePred p] {e : ε} {k : Unit → Command ε σ β}
    (h : ¬ p s → Guarded (k ()) s Q) : Guarded (failWhen p e >>= k) s (fun r => ¬ p s ∧ Q r) := by
  have hpass : ∀ u : Unit, (if p s then Except.error e else .ok ()) = .ok u ↔ ¬ p s := by
    intro u
    split <;> simp [*]
  refine (guarded_fetch_bind fun u hu => h ((hpass u).mp hu)).congr fun r => ?_
  simp only [hpass, exists_const]

end Guarded

end SuwappuDag.Command
