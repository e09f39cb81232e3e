/-
  Slashing a member of the validator ring's in-memory registry.

  `slash_validator` means to lower a stake in place, and says that the validator is not expelled.  It
  goes about it by REMOVING the member and ADMITTING it again with what is left, and throws the
  answer of `admit` away.  `admit` is the door of the ring: it turns away a stake below
  `VALIDATOR_STAKE_THRESHOLD_SUWAPPU`.  So the member keeps its seat exactly while what is left is at
  least that floor; below it the member is gone, and the ring loses its WHOLE stake, not the slash.

  The other two checks of `admit` cannot refuse: the seat just freed makes room (a registry built by
  `admit` never holds more than the maximum) and takes the id off the books.  That is the invariant
  `Reached.admissible`, carried through any number of admissions and slashes.
-/
import SuwappuDag.Lib.MapSum
import SuwappuDag.Node.Authority

namespace SuwappuDag.Node

open Std (ExtTreeMap)
open Consensus (Stake ValidatorId)

/-- `SlashSeverity`: the tier that sets the percentage. -/
inductive SlashSeverity where
  | minor
  | doubleVote
deriving DecidableEq

/-- `SlashSeverity::percent`. -/
def SlashSeverity.percent : SlashSeverity → Stake
  | minor => 5
  | doubleVote => 30

/-- `ValidatorSlash`: what a slash took and what it left. -/
structure ValidatorSlash where
  stakeLost : Stake
  remainingStake : Stake
deriving DecidableEq

/-- `ValidatorRegistry::total_stake`. -/
def ValidatorRegistry.totalStake (registry : ValidatorRegistry) : Stake :=
  (registry.toList.map fun e => e.2.stakeSuwappu).sum

/-- `slash_validator`: the answer, and the registry it leaves. -/
def slashValidator (registry : ValidatorRegistry) (voter : ValidatorId) (severity : SlashSeverity) :
    Option ValidatorSlash × ValidatorRegistry :=
  match registry[voter]? with
  | none => (none, registry)
  | some member =>
    let stakeLost := member.stakeSuwappu * severity.percent / 100
    let remaining := member.stakeSuwappu - stakeLost
    let removed := registry.erase voter
    (some ⟨stakeLost, remaining⟩,
      if 0 < remaining then
        -- `let _ = registry.admit(..)`: a refusal leaves the member out
        match ValidatorRegistry.tryAdmit removed ⟨voter, remaining⟩ with
        | .ok readmitted => readmitted
        | .error _ => removed
      else removed)

/-- The registries that admissions and slashes lead to from the empty one. -/
inductive Reached : ValidatorRegistry → Prop where
  | new : Reached ∅
  | admitted {registry registry' : ValidatorRegistry} {member : ValidatorMember} :
      Reached registry → registry.tryAdmit member = .ok registry' → Reached registry'
  | slash {registry : ValidatorRegistry} (voter : ValidatorId) (severity : SlashSeverity) :
      Reached registry → Reached (slashValidator registry voter severity).2

section Floor
variable {registry : ValidatorRegistry} {voter : ValidatorId} {member : ValidatorMember}

/-- Off a seat, in a ring with room, the floor alone decides. -/
theorem tryAdmit_of_free (hid : member.id ∉ registry) (hroom : registry.size < validatorRingMax) :
    registry.tryAdmit member = if member.stakeSuwappu < validatorStakeThreshold
      then .error (.stakeBelowFloor member.stakeSuwappu validatorStakeThreshold)
      else .ok (registry.insert member.id member) := by
  simp only [ValidatorRegistry.tryAdmit, admitMember]
  rw [if_neg (Nat.not_le.2 hroom), if_neg hid]

/-- What a slash does to the registry: the member's entry is replaced, or dropped below the floor. -/
theorem slashValidator_eq (hm : registry[voter]? = some member)
    (hsize : registry.size ≤ validatorRingMax) (severity : SlashSeverity) :
    slashValidator registry voter severity =
      let stakeLost := member.stakeSuwappu * severity.percent / 100
      let remaining := member.stakeSuwappu - stakeLost
      (some ⟨stakeLost, remaining⟩,
        if remaining < validatorStakeThreshold then registry.erase voter
        else (registry.erase voter).insert voter ⟨voter, remaining⟩) := by
  have hmem : voter ∈ registry := ExtTreeMap.mem_iff_isSome_getElem?.2 (by simp [hm])
  have hroom : (registry.erase voter).size < validatorRingMax := by
    have := MapSum.size_erase_of_mem hmem
    omega
  simp only [slashValidator, hm]
  rw [tryAdmit_of_free (by simp) hroom]
  split_ifs with hpos hlow hlow
  · rfl
  · rfl
  · rfl
  · -- nothing left is below the floor
    exact absurd (show _ < validatorStakeThreshold from
      lt_of_le_of_lt (not_lt.1 hpos) (by decide)) hlow

/-- The member's stake is one summand of the ring's. -/
theorem totalStake_erase (hm : registry[voter]? = some member) :
    ValidatorRegistry.totalStake (registry.erase voter) + member.stakeSuwappu
      = registry.totalStake := by
  have hsum := ((MapSum.toList_perm_cons_erase hm).map fun e => e.2.stakeSuwappu).sum_eq
  rw [List.map_cons, List.sum_cons] at hsum
  exact (add_comm _ _).trans hsum.symm

/-- A new seat adds its stake. -/
theorem totalStake_insert (hid : voter ∉ registry) :
    ValidatorRegistry.totalStake (registry.insert voter member)
      = registry.totalStake + member.stakeSuwappu := by
  have hsum := ((MapSum.toList_insert_perm registry voter member).map
    fun e => e.2.stakeSuwappu).sum_eq
  rw [List.map_cons, List.sum_cons, MapSum.erase_eq_self (MapSum.notMem_iff.1 hid)] at hsum
  exact hsum.trans (add_comm _ _)

end Floor

/-- A reached ring is never above its maximum. -/
theorem Reached.admissible {registry : ValidatorRegistry} (h : Reached registry) :
    registry.size ≤ validatorRingMax := by
  induction h with
  | new => exact Nat.zero_le _
  | admitted _ hok ih =>
    obtain ⟨_, hroom, hid, rfl⟩ := admitMember_eq_ok_iff.1 hok
    rw [MapSum.size_insert_of_notMem hid]
    exact hroom
  | @slash registry voter severity _ ih =>
    cases hm : registry[voter]? with
    | none =>
      simp only [slashValidator, hm]
      exact ih
    | some member =>
      rw [slashValidator_eq hm ih]
      have hmem : voter ∈ registry := ExtTreeMap.mem_iff_isSome_getElem?.2 (by simp [hm])
      have hsize := MapSum.size_erase_of_mem hmem
      dsimp only
      split_ifs
      · omega
      · rw [MapSum.size_insert_of_notMem (by simp)]
        omega

/-- **A slash lowers a stake in place exactly while the floor is kept.**  In every registry reached by
    admissions and slashes, slashing a seated member answers with `⌊stake · percent / 100⌋` and the
    rest, and touches nobody else.  When the rest is at least the floor, the member keeps its seat with
    it and the ring's stake drops by what was lost; below the floor the member is expelled and the ring
    drops by the member's whole stake. -/
theorem slash_keeps_seat_iff {registry : ValidatorRegistry} (h : Reached registry)
    {voter : ValidatorId} {member : ValidatorMember} (hm : registry[voter]? = some member)
    (hstake : member.stakeSuwappu.toNat < 2 ^ 120) (severity : SlashSeverity) :
    let slashed := slashValidator registry voter severity
    ∃ slash, slashed.1 = some slash ∧
      slash.stakeLost.toNat = member.stakeSuwappu.toNat * severity.percent.toNat / 100 ∧
      slash.remainingStake.toNat = member.stakeSuwappu.toNat - slash.stakeLost.toNat ∧
      (∀ other, other ≠ voter → slashed.2[other]? = registry[other]?) ∧
      (voter ∈ slashed.2 ↔ validatorStakeThreshold ≤ slash.remainingStake) ∧
      (validatorStakeThreshold ≤ slash.remainingStake →
        slashed.2[voter]? = some ⟨voter, slash.remainingStake⟩ ∧
        slashed.2.totalStake + slash.stakeLost = registry.totalStake) ∧
      (slash.remainingStake < validatorStakeThreshold →
        slashed.2.totalStake + member.stakeSuwappu = registry.totalStake) := by
  rw [slashValidator_eq hm h.admissible severity]
  dsimp only
  set stakeLost := member.stakeSuwappu * severity.percent / 100 with hlost
  have hpercent : severity.percent.toNat ≤ 30 := by cases severity <;> decide
  have hprod : member.stakeSuwappu.toNat * severity.percent.toNat ≤ member.stakeSuwappu.toNat * 30 :=
    Nat.mul_le_mul_left _ hpercent
  -- the product fits 128 bits, so the quotient is the exact one
  have hexact : stakeLost.toNat = member.stakeSuwappu.toNat * severity.percent.toNat / 100 := by
    rw [hlost, BitVec.toNat_udiv, BitVec.toNat_mul, Nat.mod_eq_of_lt (by omega)]
    rfl
  have hle : stakeLost.toNat ≤ member.stakeSuwappu.toNat := by omega
  refine ⟨⟨stakeLost, member.stakeSuwappu - stakeLost⟩, rfl, hexact, BitVec.toNat_sub_of_le hle,
    fun other hne => ?_, ?_, fun hkeep => ?_, fun hdrop => ?_⟩
  · split_ifs <;> simp [ExtTreeMap.getElem?_insert, ExtTreeMap.getElem?_erase, Ne.symm hne]
  · split_ifs with hlow
    · simpa using hlow
    · simpa using hlow
  · rw [if_neg (not_lt.2 hkeep)]
    refine ⟨by simp, ?_⟩
    rw [totalStake_insert (by simp), add_assoc, BitVec.sub_add_cancel]
    exact totalStake_erase hm
  · rw [if_pos hdrop]
    exact totalStake_erase hm

/-- A ring of one member. -/
def loneValidator (stake : Stake) : ValidatorRegistry := {(7, ⟨7, stake⟩)}

theorem reached_loneValidator {stake : Stake} (h : ¬ stake < validatorStakeThreshold) :
    Reached (loneValidator stake) :=
  have hok : ValidatorRegistry.tryAdmit ∅ ⟨7, stake⟩ = .ok (loneValidator stake) :=
    admitMember_eq_ok_iff.2 ⟨h, by decide, by simp, rfl⟩
  .admitted .new hok

theorem slash_keeps_seat_at_100000 :
    ∃ slash, (slashValidator (loneValidator 100000) 7 .minor).1 = some slash ∧
      slash.stakeLost.toNat = 5000 ∧ slash.remainingStake.toNat = 95000 := by
  have hlone : (loneValidator 100000)[(7 : UInt32)]? = some ⟨7, 100000⟩ := by decide +kernel
  obtain ⟨slash, hslash, hlost, hremain, -⟩ := slash_keeps_seat_iff
    (reached_loneValidator (by decide)) hlone (by decide) .minor
  exact ⟨slash, hslash, hlost, hremain.trans (by rw [hlost]; rfl)⟩

/-- A validator at the floor is expelled by the mildest slash: 1250 is reported lost, the ring loses
    25000. -/
theorem slash_at_floor_expels :
    Reached (loneValidator 25000) ∧
      slashValidator (loneValidator 25000) 7 .minor = (some ⟨1250, 23750⟩, ∅) ∧
      ValidatorRegistry.totalStake (loneValidator 25000) = 25000 ∧
      ValidatorRegistry.totalStake ∅ = 0 :=
  ⟨reached_loneValidator (by decide), by decide +kernel, by decide +kernel, by decide +kernel⟩

end SuwappuDag.Node
