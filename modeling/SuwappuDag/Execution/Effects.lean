/-
  EXACT EFFECTS of the helpers on the balances, address by address, and on their sum.

  1. **Balances** — a helper that goes through adds to each balance a known integer: a move takes the
     amount from its source and gives it to its destination (`moved`), a distribution credits each
     recipient (`creditedTo`).  Stated over the integers, a move from an account to itself needs no case
     of its own.
  2. **Supply** — `supply s` adds up the stored balances; it is the sum of the balance function over all
     addresses (`supply_eq_sum`), so the effect on it is the sum of the effects.
-/
import SuwappuDag.Execution.Atomicity

namespace SuwappuDag.Execution

open Words Command Reserved InMemorySubstrate
open Std (ExtTreeMap)

/-! ## The supply -/

/-- The sum of all balances, as an exact integer. -/
def supply (s : InMemorySubstrate) : Nat := (s.balances.toList.map fun e => e.2.toNat).sum

theorem supply_eq_sum (s : InMemorySubstrate) : supply s = ∑ a, (s.balance a).toNat :=
  (MapSum.sum_getD_eq_sum_toList (fun v : Balance => v.toNat) rfl s.balances).symm

/-- The supply as a measure that a debit may lower. -/
def supplyInt (s : InMemorySubstrate) : ℤ := supply s

theorem supplyInt_eq_sum (s : InMemorySubstrate) : supplyInt s = ∑ a, ((s.balance a).toNat : ℤ) := by
  rw [supplyInt, supply_eq_sum]
  push_cast
  rfl

theorem supplyInt_congr {s t : InMemorySubstrate} (h : t.balance = s.balance) :
    supplyInt t = supplyInt s := by
  rw [supplyInt_eq_sum, supplyInt_eq_sum, h]

theorem supplyInt_of_update {s t : InMemorySubstrate} {a : Address} {v : Balance}
    (h : t.balance = Function.update s.balance a v) :
    supplyInt t = supplyInt s + v.toNat - (s.balance a).toNat := by
  rw [supplyInt_eq_sum, supplyInt_eq_sum, h]
  exact MapSum.sum_update (fun v : Balance => (v.toNat : ℤ)) s.balance a v

/-! ## Moves -/

variable {s t : InMemorySubstrate} {source dest : Address} {amount : Balance}

/-- What a move of `amount` from `source` to `dest` does to the balance of `a`. -/
def moved (source dest : Address) (amount : Balance) (a : Address) : ℤ :=
  (if dest = a then (amount.toNat : ℤ) else 0) - if source = a then (amount.toNat : ℤ) else 0

theorem moved_self (a : Address) : moved source source amount a = 0 := sub_self _

theorem moved_zero (a : Address) : moved source dest 0 a = 0 := by
  simp [moved]

theorem moved_source (h : dest ≠ source) : moved source dest amount source = -amount.toNat := by
  simp [moved, h]

theorem moved_dest (h : source ≠ dest) : moved source dest amount dest = amount.toNat := by
  simp [moved, h]

theorem moved_of_ne {a : Address} (hs : source ≠ a) (hd : dest ≠ a) :
    moved source dest amount a = 0 := by
  simp [moved, hs, hd]

theorem debitUnchecked_balance (h : debitUnchecked source amount s = (.ok (), t)) (a : Address) :
    ((t.balance a).toNat : ℤ) = (s.balance a).toNat - if source = a then (amount.toNat : ℤ) else 0 := by
  rcases debitUnchecked_eq_ok_iff.mp h with ⟨rfl, rfl⟩ | ⟨-, hle, rfl⟩
  · simp
  · have hle' : amount.toNat ≤ (s.balance source).toNat := hle
    rw [balance_storeBalance, Function.update_apply]
    by_cases ha : a = source
    · subst ha
      rw [if_pos rfl, if_pos rfl, BitVec.toNat_sub_of_le hle]
      omega
    · rw [if_neg ha, if_neg (Ne.symm ha), sub_zero]

theorem debitThenCredit_balance (h : debitThenCredit source dest amount s = (.ok (), t))
    (a : Address) : ((t.balance a).toNat : ℤ) = (s.balance a).toNat + moved source dest amount a := by
  obtain ⟨⟨⟩, u, hdebit, hcredit⟩ := bind_eq_ok_iff.mp h
  have h₁ := debitUnchecked_balance hdebit a
  have h₂ := creditUnchecked_balance hcredit a
  unfold moved
  split_ifs at * <;> omega

/-- The two writes of a move, done in one go. -/
theorem balance_move {newDest : Balance} (hne : source ≠ dest) (hle : amount ≤ s.balance source)
    (hnew : newDest.toNat = (s.balance dest).toNat + amount.toNat) (a : Address) :
    ((((s.storeBalance source (s.balance source - amount)).insertBalance dest newDest).balance
      a).toNat : ℤ) = (s.balance a).toNat + moved source dest amount a := by
  have hle' : amount.toNat ≤ (s.balance source).toNat := hle
  rw [balance_insertBalance, balance_storeBalance, Function.update_apply, Function.update_apply]
  by_cases hd : a = dest
  · subst hd
    rw [if_pos rfl, hnew, moved_dest hne]
    push_cast
    ring
  · by_cases hs : a = source
    · subst hs
      rw [if_neg hd, if_pos rfl, BitVec.toNat_sub_of_le hle, moved_source (Ne.symm hd)]
      omega
    · rw [if_neg hd, if_neg hs, moved_of_ne (Ne.symm hs) (Ne.symm hd), add_zero]

theorem transferInternal_balance (h : transferInternal source dest amount s = (.ok (), t))
    (a : Address) : ((t.balance a).toNat : ℤ) = (s.balance a).toNat + moved source dest amount a := by
  unfold transferInternal at h
  split at h
  · next h0 =>
    cases h
    rw [h0, moved_zero, add_zero]
  rw [read_bind_run] at h
  obtain ⟨⟨⟩, u, hcheck, h⟩ := bind_eq_ok_iff.mp h
  obtain ⟨hle, rfl⟩ := failIf_eq_ok_iff.mp hcheck
  split at h
  · next hsame =>
    cases h
    rw [hsame, moved_self, add_zero]
  · next hne =>
    obtain ⟨newDest, u, hfetch, h⟩ := bind_eq_ok_iff.mp h
    obtain ⟨hnew, rfl⟩ := fetch_eq_ok_iff.mp hfetch
    cases h
    exact balance_move hne (not_lt.mp hle) (addOr_eq_ok_iff.mp hnew) a

/-- An internal transfer that the source can pay fails for an overflow of another destination only. -/
theorem transferInternal_covered {e : ExecutionError} (hle : amount ≤ s.balance source)
    (h : transferInternal source dest amount s = (.error e, t)) : source ≠ dest ∧
      2 ^ 128 ≤ (s.balance dest).toNat + amount.toNat ∧ .distributionOverflow dest = e := by
  unfold transferInternal at h
  split at h
  · cases h
  rw [read_bind_run, failIf_bind_run_neg (not_lt.mpr hle)] at h
  split at h
  · cases h
  · next hne =>
    obtain ⟨hadd, -⟩ | ⟨_, -, hwrite⟩ := fetch_bind_eq_error_iff.mp h
    · exact ⟨hne, addOr_eq_error_iff.mp hadd⟩
    · cases hwrite

/-! ## Distributions -/

/-- The sum of a credit list. -/
def creditSum (credits : List (Address × Balance)) : Nat := (credits.map fun c => c.2.toNat).sum

theorem creditSum_cons (c : Address × Balance) (credits : List (Address × Balance)) :
    creditSum (c :: credits) = c.2.toNat + creditSum credits := by
  simp [creditSum]

variable {credits : List (Address × Balance)}

theorem totalOr_eq_ok {e : ExecutionError} {acc total : Balance}
    (h : totalOr e credits acc = .ok total) : total.toNat = acc.toNat + creditSum credits := by
  induction credits generalizing acc with
  | nil =>
    cases h
    simp [creditSum]
  | cons c credits ih =>
    rw [totalOr] at h
    cases hadd : addOr e acc c.2 with
    | error e' =>
      rw [hadd] at h
      cases h
    | ok acc' =>
      rw [hadd] at h
      rw [ih h, addOr_eq_ok_iff.mp hadd, creditSum_cons]
      omega

/-- What the source keeps and what is staged, as one valuation: the drain is an update at the
    source, also when the source is among its own recipients. -/
theorem balance_drained (s : InMemorySubstrate) (source : Address) (v : Balance)
    (staged : ExtTreeMap Address Balance) :
    ((if source ∈ staged then s else s.storeBalance source v).insertStaged staged).balance =
      fun a => staged[a]?.getD (if a = source then v else s.balance a) := by
  rw [balance_insertStaged]
  funext a
  by_cases hmem : source ∈ staged
  · rw [if_pos hmem]
    by_cases ha : a = source
    · subst ha
      rw [ExtTreeMap.mem_iff_isSome_getElem?] at hmem
      obtain ⟨w, hw⟩ := Option.isSome_iff_exists.mp hmem
      simp [hw]
    · simp [ha]
  · rw [if_neg hmem, balance_storeBalance]
    simp [Function.update_apply]

theorem stageCredits_balance {base : Address → Balance} {staged staged' : ExtTreeMap Address Balance}
    (h : stageCredits base credits staged = .ok staged') (a : Address) :
    (staged'[a]?.getD (base a)).toNat = (staged[a]?.getD (base a)).toNat + creditedTo credits a := by
  induction credits generalizing staged with
  | nil =>
    cases h
    rfl
  | cons c credits ih =>
    rw [stageCredits] at h
    rw [creditedTo_cons]
    split at h
    · next h0 =>
      rw [ih h, h0]
      simp
    · cases hadd : addOr (.distributionOverflow c.1) (staged[c.1]?.getD (base c.1)) c.2 with
      | error e =>
        rw [hadd] at h
        cases h
      | ok new =>
        rw [hadd] at h
        have hnew := addOr_eq_ok_iff.mp hadd
        rw [ih h, ExtTreeMap.getElem?_insert]
        by_cases hc : c.1 = a
        · subst hc
          rw [if_pos (compare_eq_iff_eq.mpr rfl), if_pos rfl, Option.getD_some, hnew]
          omega
        · rw [if_neg (fun heq => hc (compare_eq_iff_eq.mp heq)), if_neg hc, Nat.zero_add]

theorem creditManyAtomic_balance (h : creditManyAtomic credits s = (.ok (), t)) (a : Address) :
    (t.balance a).toNat = (s.balance a).toNat + creditedTo credits a := by
  obtain ⟨staged, u, hfetch, h⟩ := bind_eq_ok_iff.mp h
  obtain ⟨hstage, rfl⟩ := fetch_eq_ok_iff.mp hfetch
  cases h
  rw [balance_insertStaged, stageCredits_balance hstage a, ExtTreeMap.getElem?_empty,
    Option.getD_none]

theorem applyGenesisAllocation_balance {allocations : List (Address × Balance)}
    (h : applyGenesisAllocation allocations s = (.ok (), t)) (a : Address) :
    (t.balance a).toNat = (s.balance a).toNat + creditedTo allocations a := by
  rw [applyGenesisAllocation, read_bind_run] at h
  obtain ⟨_, u, hheight, hcredits⟩ := bind_eq_ok_iff.mp h
  obtain ⟨-, rfl⟩ := failIf_eq_ok_iff.mp hheight
  exact creditManyAtomic_balance hcredits a

theorem creditedTo_le (credits : List (Address × Balance)) (a : Address) :
    creditedTo credits a ≤ creditSum credits := by
  induction credits with
  | nil => exact Nat.le_refl _
  | cons c credits ih =>
    rw [creditedTo_cons, creditSum_cons]
    split <;> omega

/-- A drain takes the sum of the credits from its source, which may be among the recipients. -/
theorem drainAndCreditAtomic_balance (h : drainAndCreditAtomic source credits s = (.ok (), t))
    (a : Address) :
    ((t.balance a).toNat : ℤ) = (s.balance a).toNat + creditedTo credits a
      - if source = a then (creditSum credits : ℤ) else 0 := by
  obtain ⟨total, u, hfetch, h⟩ := bind_eq_ok_iff.mp h
  obtain ⟨htotal, rfl⟩ := fetch_eq_ok_iff.mp hfetch
  have hsum : total.toNat = 0 + creditSum credits := totalOr_eq_ok htotal
  split at h
  · next h0 =>
    cases h
    have hle := creditedTo_le credits a
    rw [h0] at hsum
    have hzero : (0 : Balance).toNat = 0 := rfl
    split <;> omega
  rw [read_bind_run] at h
  obtain ⟨⟨⟩, u, hcheck, h⟩ := bind_eq_ok_iff.mp h
  obtain ⟨hshort, rfl⟩ := failIf_eq_ok_iff.mp hcheck
  obtain ⟨staged, u, hfetch, h⟩ := bind_eq_ok_iff.mp h
  obtain ⟨hstage, rfl⟩ := fetch_eq_ok_iff.mp hfetch
  cases h
  have hle : total ≤ s.balance source := not_lt.mp hshort
  have hle' : total.toNat ≤ (s.balance source).toNat := hle
  have heffect := stageCredits_balance hstage a
  rw [ExtTreeMap.getElem?_empty, Option.getD_none] at heffect
  rw [balance_drained]
  show ((staged[a]?.getD (if a = source then _ else _)).toNat : ℤ) = _
  rw [heffect]
  by_cases ha : a = source
  · subst ha
    rw [if_pos rfl, if_pos rfl, BitVec.toNat_sub_of_le hle]
    omega
  · rw [if_neg ha, if_neg (Ne.symm ha), sub_zero, Nat.cast_add]

/-- What a drain takes from an account outside its own recipients. -/
theorem drainAndCreditAtomic_source (hout : ∀ c ∈ credits, c.1 ≠ source)
    (h : drainAndCreditAtomic source credits s = (.ok (), t)) :
    (t.balance source).toNat + creditSum credits = (s.balance source).toNat := by
  have heffect := drainAndCreditAtomic_balance h source
  rw [creditedTo_of_not_mem hout, if_pos rfl] at heffect
  omega

/-! ## Effects on the supply -/

theorem sum_creditedTo (credits : List (Address × Balance)) :
    ∑ a, (creditedTo credits a : ℤ) = creditSum credits := by
  induction credits with
  | nil => simp [creditedTo, creditSum]
  | cons c credits ih =>
    simp only [creditedTo_cons, creditSum_cons, Nat.cast_add, Finset.sum_add_distrib, ih]
    simp

/-- A move between two different accounts, written in one go. -/
theorem supplyInt_move {s : InMemorySubstrate} {source dest : Address} {amount newDest : Balance}
    (hne : source ≠ dest) (hle : amount ≤ s.balance source)
    (hnew : newDest.toNat = (s.balance dest).toNat + amount.toNat) :
    supplyInt ((s.storeBalance source (s.balance source - amount)).insertBalance dest newDest) =
      supplyInt s := by
  have hle' : amount.toNat ≤ (s.balance source).toNat := hle
  rw [supplyInt_of_update (balance_insertBalance _ dest newDest),
    supplyInt_of_update (balance_storeBalance s source _), balance_storeBalance,
    Function.update_of_ne hne.symm, hnew, BitVec.toNat_sub_of_le hle]
  push_cast [hle']
  ring

end SuwappuDag.Execution
