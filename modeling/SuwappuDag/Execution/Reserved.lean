/-
  RESERVED ADDRESSES (`suwappu-execution/src/reserved.rs`).

  Twenty protocol-owned accounts, each the leading 20 bytes of BLAKE3 of a pinned domain tag.  They
  hold the registries (as byte records) and the pools (as balances).  `isReserved` is the gate that
  keeps user transfers away from them.

  BLAKE3 is a parameter, so that the twenty addresses differ is a HYPOTHESIS on it
  (`ReservedDistinct`), the one the source pins with a test; `blake3_reservedDistinct` evaluates it
  for the real function.
-/
import SuwappuDag.Lib.Words
import SuwappuDag.Lib.Blake3

namespace SuwappuDag.Execution

open Words

/-- A 20-byte account address. -/
abbrev Address := BitVec 160

/-- `u128` token amount. -/
abbrev Balance := BitVec 128

namespace Reserved

variable (blake3 : List UInt8 → Bytes32)

/-- `BLAKE3(domain)[..20]`. -/
def derive (domain : String) : Address :=
  (blake3 (asciiBytes domain)).extractLsb' 96 160

def l2RegistryAddress : Address := derive blake3 "suwappu-l2-registry-v1"
def insurancePoolAddress : Address := derive blake3 "suwappu-insurance-pool-v1"
def treasuryAddress : Address := derive blake3 "suwappu-treasury-v1"
def bridgeEscrowAddress : Address := derive blake3 "suwappu-bridge-escrow-v1"
def forceIncludeRegistryAddress : Address := derive blake3 "suwappu-force-include-registry-v1"
def sequencerBondAddress : Address := derive blake3 "suwappu-sequencer-bond-v1"
def safetyBondAddress : Address := derive blake3 "suwappu-safety-bond-v1"
def assetRegistryAddress : Address := derive blake3 "suwappu-asset-registry-v1"
def ejectionRegistryAddress : Address := derive blake3 "suwappu-ejection-registry-v1"
def burnNullifierRegistryAddress : Address := derive blake3 "suwappu-burn-nullifier-registry-v1"
def equivocationRegistryAddress : Address := derive blake3 "suwappu-equivocation-registry-v1"
def authorityRegistryAddress : Address := derive blake3 "suwappu-authority-registry-v1"
def validatorRegistryAddress : Address := derive blake3 "suwappu-validator-registry-v1"
def authorityStakePoolAddress : Address := derive blake3 "suwappu-authority-stake-pool-v1"
def validatorStakePoolAddress : Address := derive blake3 "suwappu-validator-stake-pool-v1"
def authorityRewardsPoolAddress : Address := derive blake3 "suwappu-authority-rewards-pool-v1"
def validatorRewardsPoolAddress : Address := derive blake3 "suwappu-validator-rewards-pool-v1"
def inflationRegistryAddress : Address := derive blake3 "suwappu-inflation-registry-v1"
def rewardsDistributionRegistryAddress : Address :=
  derive blake3 "suwappu-rewards-distribution-registry-v1"
def validatorDelegationRegistryAddress : Address :=
  derive blake3 "suwappu-validator-delegation-registry-v1"

/-- The twenty reserved addresses, in the order of the source's check. -/
def all : List Address :=
  [ l2RegistryAddress blake3, insurancePoolAddress blake3, treasuryAddress blake3,
    bridgeEscrowAddress blake3, forceIncludeRegistryAddress blake3, sequencerBondAddress blake3,
    safetyBondAddress blake3, assetRegistryAddress blake3, ejectionRegistryAddress blake3,
    burnNullifierRegistryAddress blake3, equivocationRegistryAddress blake3,
    authorityRegistryAddress blake3, validatorRegistryAddress blake3,
    authorityStakePoolAddress blake3, validatorStakePoolAddress blake3,
    authorityRewardsPoolAddress blake3, validatorRewardsPoolAddress blake3,
    inflationRegistryAddress blake3, rewardsDistributionRegistryAddress blake3,
    validatorDelegationRegistryAddress blake3 ]

/-- `addr` is a protocol-owned registry account. -/
def isReserved (addr : Address) : Bool := (all blake3).contains addr

/-- No two of the reserved addresses collide. -/
def ReservedDistinct : Prop := (all blake3).Nodup

variable {blake3}

/-- Reserved addresses at different places of the list differ. -/
theorem ReservedDistinct.ne (h : ReservedDistinct blake3) {i j : Fin 20} (hij : i ≠ j) :
    (all blake3).get i ≠ (all blake3).get j :=
  fun heq => hij (h.get_inj_iff.mp heq)

/-- An address that passes the gate is none of the reserved ones. -/
theorem ne_of_not_isReserved {addr : Address} (h : ¬ isReserved blake3 addr = true)
    (i : Fin 20) : addr ≠ (all blake3).get i := by
  rintro rfl
  exact h (List.contains_iff_mem.mpr (List.get_mem (all blake3) i))

/-- The twenty addresses of the real hash are distinct. -/
theorem blake3_reservedDistinct : ReservedDistinct Blake3.hash := by
  show List.Nodup _
  unfold all
  decide +kernel

end Reserved

end SuwappuDag.Execution
