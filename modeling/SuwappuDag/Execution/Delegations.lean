/-
  What `total_delegated_to_validator` adds up.

  The `Delegate` arm keeps each pair's amount from overflowing; the query then sums the amounts of all
  the pairs of a validator in `u64`.  So along every run from the empty state the answer is the sum of
  the successful delegations MODULO 2^64, as long as the table can be read back.  A table of 2^32 pairs
  cannot (its count is truncated), and the query then answers 0.

  The invariant (`Delegated`) is about the table that is held, decodable or not: for every validator,
  its entries add up to what the history's successful `Delegate` intents moved.
-/
import SuwappuDag.Execution.Stake

namespace SuwappuDag.Execution

open Words InMemorySubstrate Reserved DelegationRegistry
open Std (ExtTreeMap)

/-- `total_delegated_to_validator`. -/
def totalDelegatedToValidator (blake3 : List UInt8 → Bytes32) (s : InMemorySubstrate)
    (validatorId : UInt32) : UInt64 :=
  match decode (recordAt s (validatorDelegationRegistryAddress blake3)) with
  | .ok map => ((map.toList.filter fun e => (ofLex e.1).1 = validatorId).map Prod.snd).sum
  | .error _ => 0

/-- The amount the intent means to delegate to the validator. -/
def Intent.delegatedTo (validatorId : UInt32) : Intent → Nat
  | .delegate _ id amount => if id = validatorId then amount.toNat else 0
  | _ => 0

/-- What an entry counts for the validator. -/
def delegatedBy (validatorId : UInt32) (e : (UInt32 ×ₗ Address) × UInt64) : Nat :=
  if (ofLex e.1).1 = validatorId then e.2.toNat else 0

/-- What the table's pairs of the validator add up to. -/
def delegatedTo (validatorId : UInt32) (reg : DelegationMap) : Nat :=
  MapSum.weigh (delegatedBy validatorId) reg

theorem delegatedTo_insert (validatorId : UInt32) (reg : DelegationMap) (id : UInt32)
    (source : Address) {total : UInt64} {amount : Nat}
    (h : total.toNat = (reg[toLex (id, source)]?.getD 0).toNat + amount) :
    delegatedTo validatorId (reg.insert (toLex (id, source)) total) =
      delegatedTo validatorId reg + if id = validatorId then amount else 0 := by
  have hweigh := MapSum.weigh_insert (delegatedBy validatorId) reg (toLex (id, source)) total
  have hpair : ∀ v, delegatedBy validatorId (toLex (id, source), v) =
      if id = validatorId then v.toNat else 0 := fun _ => rfl
  have hold : (reg[toLex (id, source)]?.map fun v =>
      delegatedBy validatorId (toLex (id, source), v)).getD 0 =
        if id = validatorId then (reg[toLex (id, source)]?.getD 0).toNat else 0 := by
    cases reg[toLex (id, source)]? <;> simp [hpair]
  rw [hold, hpair, ← delegatedTo, ← delegatedTo] at hweigh
  split_ifs at hweigh ⊢ <;> omega

/-- Summing in `u64` is summing modulo 2^64. -/
theorem toNat_sum_delegated (validatorId : UInt32) (reg : DelegationMap) :
    (((reg.toList.filter fun e => (ofLex e.1).1 = validatorId).map Prod.snd).sum).toNat =
      delegatedTo validatorId reg % 2 ^ 64 := by
  rw [delegatedTo, MapSum.weigh]
  induction reg.toList with
  | nil => rfl
  | cons e entries ih =>
    rw [List.map_cons, List.sum_cons, List.filter_cons, delegatedBy]
    by_cases he : (ofLex e.1).1 = validatorId
    · rw [if_pos he, if_pos (by simpa using he), List.map_cons, List.sum_cons, UInt64.toNat_add, ih]
      omega
    · rw [if_neg he, if_neg (by simpa using he), ih, Nat.zero_add]

/-- The answer on a table that is held: the sum, or 0 when the count was truncated. -/
theorem totalDelegated_of_held {blake3 : List UInt8 → Bytes32} {s : InMemorySubstrate}
    {reg : DelegationMap} (h : DelegationsHeld blake3 s reg) (validatorId : UInt32) :
    (totalDelegatedToValidator blake3 s validatorId).toNat =
      if reg.size < 2 ^ 32 then delegatedTo validatorId reg % 2 ^ 64 else 0 := by
  unfold totalDelegatedToValidator
  rcases h with ⟨hnil, rfl⟩ | ⟨hrec, hpos⟩
  · rw [hnil]
    rfl
  rw [show recordAt s _ = encode reg from hrec]
  split
  · next map hdec =>
    obtain rfl : map = reg := decode_encode hpos hdec
    rw [if_pos (size_lt_of_decode hpos hdec)]
    exact toNat_sum_delegated validatorId map
  · next e hdec =>
    rw [if_neg]
    · rfl
    intro hlt
    rw [lawful.decode_encode reg ⟨hlt, hpos⟩] at hdec
    cases hdec

section Runs
variable {blake3 : List UInt8 → Bytes32}

/-- The table is held, and its entries are what the history delegated. -/
def Delegated (blake3 : List UInt8 → Bytes32) (l : List Applied) (s : InMemorySubstrate) : Prop :=
  ∃ reg, DelegationsHeld blake3 s reg ∧
    ∀ validatorId, delegatedTo validatorId reg = collected blake3 (Intent.delegatedTo validatorId) l

theorem delegated_step (hres : ReservedDistinct blake3) {l : List Applied} {s : InMemorySubstrate}
    (intent : Intent) (h : Delegated blake3 l s) :
    Delegated blake3 (l ++ [⟨intent, s⟩]) (applyIntent blake3 intent s).2 := by
  obtain ⟨reg, hheld, hsum⟩ := h
  -- an application that leaves the table alone and delegates nothing keeps the invariant
  have hidle : recordAt (applyIntent blake3 intent s).2 (validatorDelegationRegistryAddress blake3) =
      recordAt s (validatorDelegationRegistryAddress blake3) →
      ((applyIntent blake3 intent s).1 = .ok () → ∀ validatorId, intent.delegatedTo validatorId = 0) →
      Delegated blake3 (l ++ [⟨intent, s⟩]) (applyIntent blake3 intent s).2 := by
    intro hsame hnone
    refine ⟨reg, by rw [DelegationsHeld, hsame]; exact hheld, fun validatorId => ?_⟩
    rw [collected_concat, ← hsum]
    split_ifs with hok
    · exact (hnone hok validatorId).symm ▸ rfl
    · rfl
  cases intent
  case delegate source id amount =>
    rcases delegate_outcome blake3 s source id amount with ⟨hsame, hzero⟩ |
      ⟨reg', total, hdec, hpos, htotal, hok, hrec, -⟩
    · refine hidle (congrArg (recordAt · _) hsame) fun hok validatorId => ?_
      have h0 := hzero hok
      simp [Intent.delegatedTo, h0]
    · obtain rfl : reg' = reg := hheld.eq_of_decode hdec
      refine ⟨_, Or.inr ⟨hrec, (decode_pos hdec).insert _ hpos⟩, fun validatorId => ?_⟩
      rw [delegatedTo_insert validatorId reg' id source htotal, hsum, collected_concat,
        if_pos (show Applied.Succeeds blake3 ⟨.delegate source id amount, s⟩ from hok)]
      rfl
  all_goals exact hidle (delegations_frame hres s (by simp)) fun _ _ => rfl

theorem delegated_runCalls (hres : ReservedDistinct blake3) (calls : List SubstrateCall) :
    Delegated blake3 (history blake3 calls new) (runCalls blake3 calls new) :=
  history_invariant (P := Delegated blake3) ⟨∅, Or.inl ⟨rfl, rfl⟩, fun _ => rfl⟩
    (fun _ _ _ h => h) (fun _ _ intent h => delegated_step hres intent h) calls

/-- **The delegation total is the sum of the delegations modulo 2^64**, in every state reached from
    the empty one, while the table has fewer than 2^32 pairs; beyond, it is 0.  So it is exact exactly
    when the sum fits in 64 bits. -/
theorem delegation_totals (hres : ReservedDistinct blake3) (calls : List SubstrateCall)
    (validatorId : UInt32) :
    ∃ reg, DelegationsHeld blake3 (runCalls blake3 calls new) reg ∧
      (totalDelegatedToValidator blake3 (runCalls blake3 calls new) validatorId).toNat =
        if reg.size < 2 ^ 32 then
          collected blake3 (Intent.delegatedTo validatorId) (history blake3 calls new) % 2 ^ 64
        else 0 := by
  obtain ⟨reg, hheld, hsum⟩ := delegated_runCalls hres calls
  exact ⟨reg, hheld, by rw [totalDelegated_of_held hheld, hsum]⟩

/-- Two delegators of 2^63 each. -/
def wrappedRun : List SubstrateCall :=
  [ .applyIntent (.genesisAllocation [(1, 2 ^ 63), (2, 2 ^ 63)]),
    .applyIntent (.admitValidator 0 0 [] []), .applyIntent (.delegate 1 0 (2 ^ 63)),
    .applyIntent (.delegate 2 0 (2 ^ 63)) ]

theorem delegation_totals_bonded :
    ∃ reg, DelegationsHeld Blake3.hash (runCalls Blake3.hash bondedRun new) reg ∧
      (totalDelegatedToValidator Blake3.hash (runCalls Blake3.hash bondedRun new) 0).toNat =
        if reg.size < 2 ^ 32 then 3 else 0 :=
  have hthree : collected Blake3.hash (Intent.delegatedTo 0) (history Blake3.hash bondedRun new) = 3 := by
    decide +kernel
  hthree ▸ delegation_totals blake3_reservedDistinct bondedRun 0

/-- Twice 2^63 delegated, and a total of 0. -/
theorem delegation_total_wraps :
    collected Blake3.hash (Intent.delegatedTo 0) (history Blake3.hash wrappedRun new) = 2 ^ 64 ∧
      totalDelegatedToValidator Blake3.hash (runCalls Blake3.hash wrappedRun new) 0 = 0 := by
  decide +kernel

end Runs

end SuwappuDag.Execution
