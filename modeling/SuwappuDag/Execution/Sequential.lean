/-
  THE STAGED HELPERS AGAINST A SEQUENTIAL SPECIFICATION (`substrate.rs`, `transfer_internal`,
  `credit_many_atomic`, `drain_and_credit_atomic`).

  1. **Specification** — `drainInOrder`: on exact numbers, debit the total if it is there, then credit one
     entry after the other, giving up at the first balance of 2¹²⁸ or more.  No staging, and no special
     base for a source among its own recipients.
  2. **Crux** — credits only add, so they fit one by one exactly when their sums fit
     (`creditInOrder_eq_some_iff`), and the sums are what the staged helpers are known to write.
-/
import SuwappuDag.Execution.StateRoot

namespace SuwappuDag.Execution

open Words Command InMemorySubstrate Footprint
open Std (ExtTreeMap)

/-- The balances as exact numbers. -/
def ledger (s : InMemorySubstrate) (a : Address) : ℕ := (s.balance a).toNat

/-- Credit one entry after the other, as long as the balances fit. -/
def creditInOrder (b : Address → ℕ) : List (Address × Balance) → Option (Address → ℕ)
  | [] => some b
  | (dest, amount) :: credits =>
    if b dest + amount.toNat < 2 ^ 128 then
      creditInOrder (Function.update b dest (b dest + amount.toNat)) credits
    else none

/-- The ledger after a debit. -/
def debited (b : Address → ℕ) (source : Address) (total : ℕ) : Address → ℕ :=
  Function.update b source (b source - total)

/-- Debit the total, if it is there, then credit in order. -/
def drainInOrder (b : Address → ℕ) (source : Address) (credits : List (Address × Balance)) :
    Option (Address → ℕ) :=
  if creditSum credits ≤ b source then creditInOrder (debited b source (creditSum credits)) credits
  else none

/-- From `s` the command ends in the balances of the specification, with no zero stored if none was;
    where the specification gives up, it fails and has changed nothing. -/
def Meets (c : Exec Unit) (s : InMemorySubstrate) : Option (Address → ℕ) → Prop
  | some b => ∃ t, c s = (.ok (), t) ∧ ledger t = b ∧ KeepsCanonical s t
  | none => ∃ e, c s = (.error e, s)

variable {s t : InMemorySubstrate} {source dest : Address} {amount : Balance}
  {credits : List (Address × Balance)} {e : ExecutionError}

theorem creditInOrder_eq_some_iff {b b' : Address → ℕ} (hb : ∀ a, b a < 2 ^ 128) :
    creditInOrder b credits = some b' ↔
      (∀ a, b a + creditedTo credits a < 2 ^ 128) ∧ b' = fun a => b a + creditedTo credits a := by
  induction credits generalizing b with
  | nil =>
    rw [creditInOrder, Option.some.injEq]
    exact ⟨fun h => ⟨hb, h ▸ rfl⟩, fun h => h.2.symm⟩
  | cons c credits ih =>
    have hstep : ∀ a, Function.update b c.1 (b c.1 + c.2.toNat) a + creditedTo credits a =
        b a + creditedTo (c :: credits) a := by
      intro a
      rw [creditedTo_cons, Function.update_apply]
      by_cases ha : a = c.1
      · subst ha
        rw [if_pos rfl, if_pos rfl, Nat.add_assoc]
      · rw [if_neg ha, if_neg (Ne.symm ha), Nat.zero_add]
    rw [creditInOrder]
    by_cases hfit : b c.1 + c.2.toNat < 2 ^ 128
    · have hb' : ∀ a, Function.update b c.1 (b c.1 + c.2.toNat) a < 2 ^ 128 := by
        intro a
        rw [Function.update_apply]
        split
        · exact hfit
        · exact hb a
      rw [if_pos hfit, ih hb']
      simp only [hstep]
    · rw [if_neg hfit]
      refine ⟨by simp, fun h => absurd ?_ hfit⟩
      have hsum := h.1 c.1
      rw [creditedTo_cons, if_pos rfl] at hsum
      omega

/-! ## The helpers fail where the specification gives up -/

theorem overflow_of_stageCredits_error {base : Address → Balance}
    {staged : ExtTreeMap Address Balance} (h : stageCredits base credits staged = .error e) :
    ∃ a, 2 ^ 128 ≤ (staged[a]?.getD (base a)).toNat + creditedTo credits a := by
  induction credits generalizing staged with
  | nil => cases h
  | cons c credits ih =>
    simp only [creditedTo_cons]
    rw [stageCredits] at h
    split at h
    · obtain ⟨a, ha⟩ := ih h
      exact ⟨a, by omega⟩
    cases hadd : addOr (.distributionOverflow c.1) (staged[c.1]?.getD (base c.1)) c.2 with
    | error e =>
      have := (addOr_eq_error_iff.mp hadd).1
      exact ⟨c.1, by rw [if_pos rfl]; omega⟩
    | ok new =>
      rw [hadd] at h
      obtain ⟨a, ha⟩ := ih h
      refine ⟨a, ?_⟩
      rw [ExtTreeMap.getElem?_insert] at ha
      by_cases hc : c.1 = a
      · subst hc
        rw [if_pos (compare_eq_iff_eq.mpr rfl), Option.getD_some, addOr_eq_ok_iff.mp hadd] at ha
        rw [if_pos rfl]
        omega
      · rw [if_neg fun heq => hc (compare_eq_iff_eq.mp heq)] at ha
        rwa [if_neg hc, Nat.zero_add]

theorem le_of_totalOr_error {e e' : ExecutionError} {acc : Balance}
    (h : totalOr e credits acc = .error e') : 2 ^ 128 ≤ acc.toNat + creditSum credits := by
  induction credits generalizing acc with
  | nil => cases h
  | cons c credits ih =>
    rw [totalOr] at h
    rw [creditSum_cons]
    cases hadd : addOr e acc c.2 with
    | error e =>
      have := (addOr_eq_error_iff.mp hadd).1
      omega
    | ok acc' =>
      rw [hadd] at h
      have := ih h
      have := addOr_eq_ok_iff.mp hadd
      omega

/-- An atomic command meets the credits in order from `b` if its successes write the sums, and it fails
    only where a sum does not fit. -/
theorem meets_of {c : Exec Unit} {b : Address → ℕ} (hb : ∀ a, b a < 2 ^ 128) (hat : AtomicAt c s)
    (hkeep : Leads KeepsCanonical c s)
    (hok : ∀ t, c s = (.ok (), t) → ∀ a, ledger t a = b a + creditedTo credits a)
    (herr : ∀ e, c s = (.error e, s) → ∃ a, 2 ^ 128 ≤ b a + creditedTo credits a) :
    Meets c s (creditInOrder b credits) := by
  rcases hrun : c s with ⟨e | ⟨⟨⟩⟩, t⟩
  · have hback := hat e t hrun
    subst hback
    obtain ⟨a, ha⟩ := herr e hrun
    have hnone : creditInOrder b credits = none := by
      refine Option.eq_none_iff_forall_ne_some.mpr fun b' hb' => ?_
      exact absurd (((creditInOrder_eq_some_iff hb).mp hb').1 a) (Nat.not_lt.mpr ha)
    rw [hnone]
    exact ⟨e, hrun⟩
  · have hsums := hok t hrun
    rw [Leads, hrun] at hkeep
    have hsome : creditInOrder b credits = some (ledger t) :=
      (creditInOrder_eq_some_iff hb).mpr ⟨fun a => hsums a ▸ (t.balance a).isLt, funext hsums⟩
    rw [hsome]
    exact ⟨t, hrun, rfl, hkeep⟩

theorem creditManyAtomic_meets (credits : List (Address × Balance)) :
    Meets (creditManyAtomic credits) s (creditInOrder (ledger s) credits) := by
  refine meets_of (fun a => (s.balance a).isLt) (creditManyAtomic_atomicAt credits s) ?_
    (fun t => creditManyAtomic_balance) fun e h => ?_
  · exact (creditManyAtomic_ends (permits_keepsCanonical fun _ => True) (E := fun _ => True)
      (fun _ => trivial) fun _ _ => trivial).leads
  · obtain ⟨hstage, -⟩ | ⟨_, -, h⟩ := fetch_bind_eq_error_iff.mp h
    · obtain ⟨a, ha⟩ := overflow_of_stageCredits_error hstage
      rw [ExtTreeMap.getElem?_empty] at ha
      exact ⟨a, ha⟩
    · cases h

/-- The same behind a debit. -/
theorem meets_drain {c : Exec Unit} (hat : AtomicAt c s) (hkeep : Leads KeepsCanonical c s)
    (hshort : ledger s source < creditSum credits → ∃ e, c s = (.error e, s))
    (hok : ∀ t, c s = (.ok (), t) → ∀ a, (ledger t a : ℤ) = ledger s a + creditedTo credits a
      - if source = a then (creditSum credits : ℤ) else 0)
    (herr : creditSum credits ≤ ledger s source → ∀ e, c s = (.error e, s) →
      ∃ a, 2 ^ 128 ≤ debited (ledger s) source (creditSum credits) a + creditedTo credits a) :
    Meets c s (drainInOrder (ledger s) source credits) := by
  unfold drainInOrder
  split
  · next hle =>
    refine meets_of (fun a => ?_) hat hkeep (fun t h a => ?_) (herr hle)
    · have hlt := (s.balance a).isLt
      rw [debited, Function.update_apply]
      split
      · next ha => exact ha ▸ (Nat.sub_le _ _).trans_lt hlt
      · exact hlt
    · have hbal := hok t h a
      rw [debited, Function.update_apply]
      split
      · next ha =>
        subst ha
        rw [if_pos rfl] at hbal
        omega
      · next ha =>
        rw [if_neg (Ne.symm ha)] at hbal
        omega
  · next hlt => exact hshort (not_le.mp hlt)

theorem drainAndCreditAtomic_meets (source : Address) (credits : List (Address × Balance)) :
    Meets (drainAndCreditAtomic source credits) s (drainInOrder (ledger s) source credits) := by
  refine meets_drain (drainAndCreditAtomic_atomicAt source credits s) ?_ (fun hlt => ?_)
    (fun t => drainAndCreditAtomic_balance) fun hle e h => ?_
  · exact (drainAndCreditAtomic_ends (permits_keepsCanonical fun _ => True) (E := fun _ => True)
      (fun _ => trivial) trivial fun _ _ => trivial).leads
  · cases htotal : totalOr (.distributionOverflow source) credits 0 with
    | error e => exact ⟨e, fetch_bind_run_error htotal⟩
    | ok total =>
      have hsum : total.toNat = 0 + creditSum credits := totalOr_eq_ok htotal
      have hshort : s.balance source < total := by
        show ledger s source < _
        omega
      have h0 : total ≠ 0 := fun h0 => BitVec.not_lt_zero (h0 ▸ hshort)
      refine ⟨.insufficientBalance source (s.balance source) total, ?_⟩
      rw [drainAndCreditAtomic, fetch_bind_run_ok (s := s) (a := total) (by exact htotal), if_neg h0,
        read_bind_run, failIf_bind_run_pos hshort]
  · obtain ⟨htotal, -⟩ | ⟨total, htotal, h⟩ := fetch_bind_eq_error_iff.mp h
    · have hover : 2 ^ 128 ≤ 0 + creditSum credits := le_of_totalOr_error htotal
      have := (s.balance source).isLt
      unfold ledger at hle
      omega
    have hsum : total.toNat = 0 + creditSum credits := totalOr_eq_ok htotal
    have hcover : total ≤ s.balance source := by
      show _ ≤ ledger s source
      omega
    split at h
    · cases h
    rw [read_bind_run, failIf_bind_run_neg (not_lt.mpr hcover)] at h
    obtain ⟨hstage, -⟩ | ⟨_, -, h⟩ := fetch_bind_eq_error_iff.mp h
    · obtain ⟨a, ha⟩ := overflow_of_stageCredits_error hstage
      refine ⟨a, ha.trans_eq (congrArg (· + _) ?_)⟩
      rw [ExtTreeMap.getElem?_empty, Option.getD_none, debited, Function.update_apply,
        ← Nat.zero_add (creditSum credits), ← hsum]
      split
      · exact BitVec.toNat_sub_of_le hcover
      · rfl
    · cases h

/-- A transfer is a drain with one credit, also to itself. -/
theorem transferInternal_meets (source dest : Address) (amount : Balance) :
    Meets (transferInternal source dest amount) s
      (drainInOrder (ledger s) source [(dest, amount)]) := by
  have hsum : creditSum [(dest, amount)] = amount.toNat := by simp [creditSum]
  have hcred : ∀ a, creditedTo [(dest, amount)] a = if dest = a then amount.toNat else 0 :=
    creditedTo_cons (dest, amount) []
  refine meets_drain (transferInternal_atomicAt source dest amount s) ?_ (fun hlt => ?_)
    (fun t h a => ?_) fun hle e h => ?_
  · exact (transferInternal_ends (permits_keepsCanonical fun _ => True) (E := fun _ => True)
      (fun _ => trivial) trivial trivial amount).leads
  · rw [hsum] at hlt
    have hshort : s.balance source < amount := hlt
    have h0 : amount ≠ 0 := fun h0 => BitVec.not_lt_zero (h0 ▸ hshort)
    refine ⟨.insufficientBalance source (s.balance source) amount, ?_⟩
    rw [transferInternal, if_neg h0, read_bind_run, failIf_bind_run_pos hshort]
  · rw [ledger, transferInternal_balance h a, moved, hcred, hsum, ledger]
    push_cast
    ring
  · rw [hsum] at hle ⊢
    obtain ⟨hne, hover, -⟩ := transferInternal_covered (show amount ≤ s.balance source from hle) h
    refine ⟨dest, hover.trans_eq ?_⟩
    rw [debited, Function.update_of_ne (Ne.symm hne), hcred, if_pos rfl]
    rfl

/-- **The staged helpers meet their sequential specification**, for every balance map, source and
    credit list. -/
theorem staged_helpers_sequential (s : InMemorySubstrate) (source dest : Address) (amount : Balance)
    (credits : List (Address × Balance)) :
    Meets (drainAndCreditAtomic source credits) s (drainInOrder (ledger s) source credits) ∧
    Meets (creditManyAtomic credits) s (creditInOrder (ledger s) credits) ∧
    Meets (transferInternal source dest amount) s (drainInOrder (ledger s) source [(dest, amount)]) :=
  ⟨drainAndCreditAtomic_meets source credits, creditManyAtomic_meets credits,
    transferInternal_meets source dest amount⟩

end SuwappuDag.Execution
