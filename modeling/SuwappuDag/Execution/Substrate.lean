/-
  THE IN-MEMORY SUBSTRATE (`substrate.rs`): balances, byte records, block height, and the helpers
  through which every intent moves money.

  1. **Program** — an absent balance reads as 0 and a balance that drops to 0 is removed; an empty
     byte record is removed as well.  `creditUnchecked` and `debitUnchecked` fail before they write.
     `transferInternal`, `creditManyAtomic` and `drainAndCreditAtomic` STAGE every new balance first
     and write only when all of them fit.
  2. **Specification** — for each helper: it is atomic, it leaves the byte records and the height
     alone, and a success moves the total of all balances by exactly the amount it creates.
  3. **Crux** — the total is the sum over ALL addresses of the balance function.  A write of one
     balance is an update of that function at one point, so self-transfers, repeated recipients and
     a source among its own recipients need no case of their own.
-/
import SuwappuDag.Lib.MapSum
import SuwappuDag.Execution.Intent

namespace SuwappuDag.Execution

open Words Command
open Std (ExtTreeMap)

@[ext]
structure InMemorySubstrate where
  balances : ExtTreeMap Address Balance
  bytesState : ExtTreeMap Address (List UInt8)
  currentBlockHeight : UInt64

/-- A mutating method of the substrate. -/
abbrev Exec (α : Type) := Command ExecutionError InMemorySubstrate α

namespace InMemorySubstrate

def new : InMemorySubstrate := ⟨∅, ∅, 0⟩

/-- Seed balances: zero entries are skipped, later entries overwrite earlier ones. -/
def fromBalances (entries : List (Address × Balance)) : InMemorySubstrate :=
  entries.foldl (fun s e => if e.2 > 0 then { s with balances := s.balances.insert e.1 e.2 } else s)
    new

def balance (s : InMemorySubstrate) (addr : Address) : Balance := s.balances[addr]?.getD 0

def readBytes (s : InMemorySubstrate) (addr : Address) : Option (List UInt8) := s.bytesState[addr]?

def setCurrentBlockHeight (s : InMemorySubstrate) (height : UInt64) : InMemorySubstrate :=
  { s with currentBlockHeight := height }

/-- `self.balances.insert(addr, v)`. -/
def insertBalance (s : InMemorySubstrate) (addr : Address) (v : Balance) : InMemorySubstrate :=
  { s with balances := s.balances.insert addr v }

/-- Remove a balance that has dropped to zero, insert it otherwise. -/
def storeBalance (s : InMemorySubstrate) (addr : Address) (v : Balance) : InMemorySubstrate :=
  if v = 0 then { s with balances := s.balances.erase addr } else s.insertBalance addr v

/-- Remove an empty record, insert it otherwise. -/
def writeBytesUnchecked (s : InMemorySubstrate) (addr : Address) (bytes : List UInt8) :
    InMemorySubstrate :=
  if bytes = [] then { s with bytesState := s.bytesState.erase addr }
  else { s with bytesState := s.bytesState.insert addr bytes }

/-- Write the staged balances, in ascending address order. -/
def insertStaged (s : InMemorySubstrate) (staged : ExtTreeMap Address Balance) :
    InMemorySubstrate :=
  { s with balances := Codec.insertAll staged.toList s.balances }

end InMemorySubstrate

open InMemorySubstrate

/-! ## The helpers -/

/-- `a.checked_add(b).ok_or(e)`. -/
def addOr (e : ExecutionError) (a b : Balance) : Except ExecutionError Balance :=
  match checkedAdd a b with
  | some c => .ok c
  | none => .error e

def creditUnchecked (addr : Address) (amount : Balance) : Exec Unit :=
  if amount = 0 then pure () else do
    let newBalance ← fetch fun s => addOr (.distributionOverflow addr) (s.balance addr) amount
    write fun s => s.insertBalance addr newBalance

def debitUnchecked (addr : Address) (amount : Balance) : Exec Unit :=
  if amount = 0 then pure () else do
    let source ← read fun s => s.balance addr
    failIf (source < amount) (.insufficientBalance addr source amount)
    write fun s => s.storeBalance addr (source - amount)

def transferInternal (source dest : Address) (amount : Balance) : Exec Unit :=
  if amount = 0 then pure () else do
    let available ← read fun s => s.balance source
    failIf (available < amount) (.insufficientBalance source available amount)
    if source = dest then pure () else do
      let newDest ← fetch fun s => addOr (.distributionOverflow dest) (s.balance dest) amount
      write fun s => (s.storeBalance source (available - amount)).insertBalance dest newDest

/-- Stage every credit over a base balance: a recipient seen before starts from its staged value. -/
def stageCredits (base : Address → Balance) : List (Address × Balance) →
    ExtTreeMap Address Balance → Except ExecutionError (ExtTreeMap Address Balance)
  | [], staged => .ok staged
  | (dest, amount) :: credits, staged =>
    if amount = 0 then stageCredits base credits staged
    else match addOr (.distributionOverflow dest) (staged[dest]?.getD (base dest)) amount with
      | .ok new => stageCredits base credits (staged.insert dest new)
      | .error e => .error e

def creditManyAtomic (credits : List (Address × Balance)) : Exec Unit := do
  let staged ← fetch fun s => stageCredits s.balance credits ∅
  write fun s => s.insertStaged staged

/-- The checked total of a credit list. -/
def totalOr (e : ExecutionError) : List (Address × Balance) → Balance →
    Except ExecutionError Balance
  | [], total => .ok total
  | (_, amount) :: credits, total =>
    match addOr e total amount with
    | .ok total' => totalOr e credits total'
    | .error e => .error e

def drainAndCreditAtomic (source : Address) (credits : List (Address × Balance)) : Exec Unit := do
  let total ← fetch fun _ => totalOr (.distributionOverflow source) credits 0
  if total = 0 then pure () else do
    let available ← read fun s => s.balance source
    failIf (available < total) (.insufficientBalance source available total)
    -- a self-credit starts from what the drain leaves
    let staged ← fetch fun s =>
      stageCredits (fun dest => if dest = source then available - total else s.balance dest)
        credits ∅
    write fun s =>
      (if source ∈ staged then s else s.storeBalance source (available - total)).insertStaged staged

/-- `decode(&self.read_bytes(&addr).unwrap_or_default())?`. -/
def decodeRecord {α : Type} (addr : Address) (decode : List UInt8 → Except String α) : Exec α :=
  fetch fun s => (decode ((s.readBytes addr).getD [])).mapError (.corruptStateRecord addr)

/-- `self.write_bytes_unchecked(addr, bytes)`. -/
def writeRecord (addr : Address) (bytes : List UInt8) : Exec Unit :=
  write fun s => s.writeBytesUnchecked addr bytes

/-! ## What a write does to the balance function -/

namespace InMemorySubstrate

theorem balance_insertBalance (s : InMemorySubstrate) (addr : Address) (v : Balance) :
    (s.insertBalance addr v).balance = Function.update s.balance addr v :=
  MapSum.getD_insert s.balances (fun _ => 0) addr v

theorem balance_storeBalance (s : InMemorySubstrate) (addr : Address) (v : Balance) :
    (s.storeBalance addr v).balance = Function.update s.balance addr v := by
  unfold storeBalance
  split
  · next h =>
    subst h
    exact MapSum.getD_erase s.balances 0 addr
  · exact balance_insertBalance s addr v

theorem getElem?_insertStaged (s : InMemorySubstrate) (staged : ExtTreeMap Address Balance)
    (a : Address) : (s.insertStaged staged).balances[a]? = staged[a]?.or s.balances[a]? := by
  have hself := congrArg (fun m => m[a]?) (Codec.insertAll_toList staged)
  simp only [insertStaged, Codec.getElem?_insertAll (Codec.nodup_keys_toList staged)] at hself ⊢
  rw [ExtTreeMap.getElem?_empty, Option.or_none] at hself
  rw [hself]

theorem balance_insertStaged (s : InMemorySubstrate) (staged : ExtTreeMap Address Balance) :
    (s.insertStaged staged).balance = fun a => staged[a]?.getD (s.balance a) := by
  funext a
  rw [balance, getElem?_insertStaged]
  cases staged[a]? <;> rfl

@[simp] theorem balance_writeBytesUnchecked (s : InMemorySubstrate) (addr : Address)
    (bytes : List UInt8) : (s.writeBytesUnchecked addr bytes).balance = s.balance := by
  unfold writeBytesUnchecked
  split <;> rfl

@[simp] theorem bytesState_insertBalance (s : InMemorySubstrate) (addr : Address) (v : Balance) :
    (s.insertBalance addr v).bytesState = s.bytesState := rfl

@[simp] theorem bytesState_storeBalance (s : InMemorySubstrate) (addr : Address) (v : Balance) :
    (s.storeBalance addr v).bytesState = s.bytesState := by
  unfold storeBalance
  split <;> rfl

theorem readBytes_writeBytesUnchecked (s : InMemorySubstrate) (addr : Address)
    (bytes : List UInt8) (a : Address) :
    ((s.writeBytesUnchecked addr bytes).readBytes a).getD [] =
      if a = addr then bytes else (s.readBytes a).getD [] := by
  unfold writeBytesUnchecked readBytes
  by_cases ha : a = addr
  · subst ha
    by_cases hb : bytes = [] <;> simp [hb]
  · by_cases hb : bytes = [] <;>
      simp [hb, ha, ExtTreeMap.getElem?_erase, ExtTreeMap.getElem?_insert, Ne.symm ha]

end InMemorySubstrate

/-! ## Credit and debit -/

variable {e : ExecutionError}

theorem addOr_eq_ok_iff {a b c : Balance} : addOr e a b = .ok c ↔ c.toNat = a.toNat + b.toNat := by
  unfold addOr
  cases h : checkedAdd a b with
  | none =>
    have := checkedAdd_eq_none_iff.mp h
    have := c.isLt
    simp only [reduceCtorEq, false_iff]
    omega
  | some d =>
    rw [← checkedAdd_eq_some_iff, h, Except.ok.injEq, Option.some.injEq]

theorem addOr_eq_error_iff {e e' : ExecutionError} {a b : Balance} :
    addOr e a b = .error e' ↔ 2 ^ 128 ≤ a.toNat + b.toNat ∧ e = e' := by
  unfold addOr
  rw [← checkedAdd_eq_none_iff]
  cases checkedAdd a b <;> simp

variable {addr : Address} {amount : Balance} {s t : InMemorySubstrate}

/-- A credit succeeds when the sum fits, and then raises one balance. -/
theorem creditUnchecked_eq_ok_iff :
    creditUnchecked addr amount s = (.ok (), t) ↔
      (amount = 0 ∧ t = s) ∨ (amount ≠ 0 ∧ ∃ v : Balance,
        v.toNat = (s.balance addr).toNat + amount.toNat ∧ t = s.insertBalance addr v) := by
  unfold creditUnchecked
  by_cases h0 : amount = 0
  · simp [h0, eq_comm]
  · rw [if_neg h0, bind_eq_ok_iff]
    simp only [fetch_run, write_run, Prod.mk.injEq, h0, false_and, ne_eq, not_false_eq_true,
      true_and, false_or]
    constructor
    · rintro ⟨v, u, ⟨hv, rfl⟩, rfl⟩
      exact ⟨v, addOr_eq_ok_iff.mp hv, rfl⟩
    · rintro ⟨v, hv, rfl⟩
      exact ⟨v, s, ⟨addOr_eq_ok_iff.mpr hv, rfl⟩, rfl⟩

/-- A credit fails exactly when the sum does not fit, and then changes nothing. -/
theorem creditUnchecked_eq_error_iff :
    creditUnchecked addr amount s = (.error e, t) ↔
      2 ^ 128 ≤ (s.balance addr).toNat + amount.toNat ∧ e = .distributionOverflow addr ∧ t = s := by
  unfold creditUnchecked
  by_cases h0 : amount = 0
  · have := (s.balance addr).isLt
    simp only [h0, if_true, pure_run, Prod.mk.injEq, reduceCtorEq, false_and, false_iff]
    rintro ⟨h, -, -⟩
    simp at h
    omega
  · rw [if_neg h0, bind_eq_error_iff]
    simp only [fetch_run, write_run, Prod.mk.injEq, reduceCtorEq, false_and, and_false,
      exists_false, or_false, addOr_eq_error_iff]
    tauto

/-- A debit succeeds when the balance covers it, and then lowers one balance. -/
theorem debitUnchecked_eq_ok_iff :
    debitUnchecked addr amount s = (.ok (), t) ↔
      (amount = 0 ∧ t = s) ∨ (amount ≠ 0 ∧ amount ≤ s.balance addr ∧
        t = s.storeBalance addr (s.balance addr - amount)) := by
  unfold debitUnchecked
  by_cases h0 : amount = 0
  · simp [h0, eq_comm]
  · rw [if_neg h0, read_bind_run, bind_eq_ok_iff]
    simp only [failIf_eq_ok_iff, write_run, Prod.mk.injEq, true_and, h0, false_and, ne_eq,
      not_false_eq_true, false_or, not_lt]
    constructor
    · rintro ⟨_, u, ⟨hle, rfl⟩, rfl⟩
      exact ⟨hle, rfl⟩
    · rintro ⟨hle, rfl⟩
      exact ⟨(), s, ⟨hle, rfl⟩, rfl⟩

/-- A debit fails exactly when the balance is short, and then changes nothing. -/
theorem debitUnchecked_eq_error_iff :
    debitUnchecked addr amount s = (.error e, t) ↔
      s.balance addr < amount ∧ e = .insufficientBalance addr (s.balance addr) amount ∧ t = s := by
  unfold debitUnchecked
  by_cases h0 : amount = 0
  · simp [h0]
  · rw [if_neg h0, read_bind_run, bind_eq_error_iff]
    by_cases hlt : s.balance addr < amount
    · simp [failIf, hlt, eq_comm]
    · simp [failIf, hlt]

/-! ## The staged helpers are atomic -/

@[simp] theorem transferInternal_atomicAt (source dest : Address) (amount : Balance)
    (s : InMemorySubstrate) : AtomicAt (transferInternal source dest amount) s := by
  simp [transferInternal]

@[simp] theorem creditManyAtomic_atomicAt (credits : List (Address × Balance))
    (s : InMemorySubstrate) : AtomicAt (creditManyAtomic credits) s := by
  simp [creditManyAtomic]

@[simp] theorem drainAndCreditAtomic_atomicAt (source : Address) (credits : List (Address × Balance))
    (s : InMemorySubstrate) : AtomicAt (drainAndCreditAtomic source credits) s := by
  simp [drainAndCreditAtomic]

end SuwappuDag.Execution
