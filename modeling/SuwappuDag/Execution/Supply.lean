/-
  SUPPLY — the sum of all balances, as an exact integer, along every run.

  1. **Step** — a successful intent moves the supply by what it mints (`applyIntent_supply`); a failing
     one keeps it unless it fails late, behind a move.
  2. **Run** — by induction over the calls.  The law needs failing calls to change nothing, which is
     not so for the late failures of `Atomicity`; `lockIntoFullEscrow_burns` is a run that loses a
     token.
-/
import SuwappuDag.Execution.Contracts

namespace SuwappuDag.Execution

open Words Command Reserved InMemorySubstrate
open Std (ExtTreeMap)

/-- A successful intent adds to the supply what it mints, and nothing else. -/
theorem applyIntent_supply {blake3 : List UInt8 → Bytes32} (hres : ReservedDistinct blake3)
    {intent : Intent} {s t : InMemorySubstrate} {u : Unit}
    (h : applyIntent blake3 intent s = (.ok u, t)) : supply t = supply s + minted intent := by
  have := applyIntent_shifts hres intent s u t h
  unfold supplyInt at this
  exact_mod_cast this

/-! ## Failing intents -/

section Failing

variable {blake3 : List UInt8 → Bytes32} {s t : InMemorySubstrate}

/-- The intent fails at `s` after it has moved money.  All late failures do, but for a burn that
    finds the escrow short: it has written no more than its record. -/
def TearsSupply (blake3 : List UInt8 → Bytes32) (s : InMemorySubstrate) : Intent → Prop
  | .l2BurnProven batchId recipient amount path assetId chain =>
    LateBurn blake3 s batchId recipient amount path assetId chain ∧
      amount ≤ s.balance (bridgeEscrowAddress blake3)
  | intent => LateFailure blake3 s intent

/-- A burn that the escrow cannot pay moves no money. -/
theorem applyL2BurnProven_failKeeps {amount : Balance}
    (hshort : s.balance (bridgeEscrowAddress blake3) < amount) (batchId : UInt64)
    (recipient : Address) (path : List UInt8) (assetId : Option Bytes32) (chain : Bytes32) :
    FailKeeps balance
      (applyL2BurnProven blake3 batchId recipient amount path assetId chain) s := by
  unfold applyL2BurnProven
  by_cases h0 : amount = 0
  · rw [if_pos h0]
    exact (atomicAt_pure ()).failKeeps
  rw [if_neg h0]
  refine (readOnly_failIf _ _).failKeeps_bind fun _ => (readOnly_fetch _).failKeeps_bind fun _ =>
    (readOnly_read _).failKeeps_bind fun _ => (readOnly_failIf _ _).failKeeps_bind fun _ =>
    (readOnly_fetch _).failKeeps_bind fun set =>
    (readOnly_failIf _ _).failKeeps_bind fun _ => ?_
  refine failKeeps_write_bind (balance_writeBytesUnchecked _ _ _) ?_
  intro e t h
  rcases debitThenCredit_eq_error_iff.mp h with ⟨-, -, rfl⟩ | ⟨⟨-, hle, -⟩, -⟩
  · rfl
  · rw [balance_writeBytesUnchecked] at hle
    exact absurd hle (not_le.mpr hshort)

/-- A failure that does not tear the supply keeps it. -/
theorem supply_of_failure (hres : ReservedDistinct blake3) {intent : Intent} {e : ExecutionError}
    (hnot : ¬ TearsSupply blake3 s intent) (h : applyIntent blake3 intent s = (.error e, t)) :
    supply t = supply s := by
  by_cases hlate : LateFailure blake3 s intent
  · unfold TearsSupply at hnot
    split at hnot
    · have hshort := not_le.mp fun hle => hnot ⟨hlate, hle⟩
      have hbal := applyL2BurnProven_failKeeps hshort _ _ _ _ _ e t h
      rw [supply_eq_sum, supply_eq_sum, hbal]
    · exact absurd hlate hnot
  · rw [(applyIntent_tearsIff hres s intent).atomic hlate e t h]

end Failing

/-! ## Runs -/

section Runs

variable (blake3 : List UInt8 → Bytes32)

/-- What a call mints at `s`: nothing unless the intent succeeds. -/
def SubstrateCall.mintedAt (call : SubstrateCall) (s : InMemorySubstrate) : Nat :=
  match call with
  | .setCurrentBlockHeight _ => 0
  | .applyIntent intent =>
    match (Execution.applyIntent blake3 intent s).1 with
    | .ok _ => minted intent
    | .error _ => 0

/-- What a run mints. -/
def runMinted : List SubstrateCall → InMemorySubstrate → Nat
  | [], _ => 0
  | call :: calls, s => call.mintedAt blake3 s + runMinted calls (call.exec blake3 s)

/-- The call fails after it has moved money. -/
def SubstrateCall.Tears (call : SubstrateCall) (s : InMemorySubstrate) : Prop :=
  match call with
  | .setCurrentBlockHeight _ => False
  | .applyIntent intent => TearsSupply blake3 s intent

/-- No call of the run tears the supply at the state it meets. -/
def Untorn : List SubstrateCall → InMemorySubstrate → Prop
  | [], _ => True
  | call :: calls, s => ¬ call.Tears blake3 s ∧ Untorn calls (call.exec blake3 s)

end Runs

/-- One step: what the call mints, and nothing else. -/
theorem supply_exec {blake3 : List UInt8 → Bytes32} (hres : ReservedDistinct blake3)
    {call : SubstrateCall} {s : InMemorySubstrate} (h : ¬ call.Tears blake3 s) :
    supply (call.exec blake3 s) = supply s + call.mintedAt blake3 s := by
  cases call with
  | setCurrentBlockHeight height => rfl
  | applyIntent intent =>
    rcases hrun : applyIntent blake3 intent s with ⟨e | u, t⟩
    · simp only [SubstrateCall.exec, SubstrateCall.mintedAt, hrun]
      exact supply_of_failure hres h hrun
    · simp only [SubstrateCall.exec, SubstrateCall.mintedAt, hrun]
      exact applyIntent_supply hres hrun

/-- The whole run, by induction over its calls. -/
theorem supply_runCalls {blake3 : List UInt8 → Bytes32} (hres : ReservedDistinct blake3)
    {calls : List SubstrateCall} {s : InMemorySubstrate} (h : Untorn blake3 calls s) :
    supply (runCalls blake3 calls s) = supply s + runMinted blake3 calls s := by
  induction calls generalizing s with
  | nil => rfl
  | cons call calls ih =>
    have hrest := ih h.2
    rw [supply_exec hres h.1] at hrest
    rw [runMinted, ← add_assoc]
    exact hrest

/-- **Supply.**  A successful intent changes the sum of all balances by exactly what it mints; and
    over every run in which no call fails with money moved, the supply is the initial one plus
    exactly what the successful calls have minted. -/
theorem supply_conserved {blake3 : List UInt8 → Bytes32} (hres : ReservedDistinct blake3) :
    (∀ s intent u t, applyIntent blake3 intent s = (.ok u, t) →
      supply t = supply s + minted intent) ∧
    ∀ calls s, Untorn blake3 calls s →
      supply (runCalls blake3 calls s) = supply s + runMinted blake3 calls s :=
  ⟨fun _ _ _ _ => applyIntent_supply hres, fun _ _ => supply_runCalls hres⟩

/-- A run with a mint, a self-transfer and a failing transfer, over the empty substrate. -/
def mintAndFail : List SubstrateCall :=
  [ .applyIntent (.genesisAllocation [(1, 5), (1, 2)]), .applyIntent (.transfer 1 1 7),
    .applyIntent (.transfer 1 2 9) ]

theorem supply_conserved_mintAndFail :
    supply (runCalls Blake3.hash mintAndFail new) = 7 := by
  have h := (supply_conserved blake3_reservedDistinct).2 mintAndFail new
    ⟨id, id, id, trivial⟩
  rw [h]
  decide +kernel

/-- A lock into a full escrow: it fails, nothing is minted, and yet a token is gone. -/
theorem lockIntoFullEscrow_burns :
    let calls := [SubstrateCall.applyIntent (.l1Lock 1 2 1 none)]
    supply fullEscrow = 2 ^ 128 ∧ runMinted Blake3.hash calls fullEscrow = 0 ∧
      supply (runCalls Blake3.hash calls fullEscrow) = 2 ^ 128 - 1 := by
  decide +kernel

end SuwappuDag.Execution
