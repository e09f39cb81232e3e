/-
  INTENTS AND EXECUTION ERRORS (`substrate.rs`, `error.rs`): the commands of the execution layer and
  the errors they fail with, field by field as the source has them.
-/
import SuwappuDag.Execution.Registries
import SuwappuDag.Execution.RingRegistry
import SuwappuDag.Execution.BridgeRegistry

namespace SuwappuDag.Execution

open Words

inductive ExecutionError where
  | insufficientBalance (source : Address) (available need : Balance)
  | balanceOverflow (dest : Address)
  | reservedAddressTransferDenied (addr : Address)
  | reservedAddressInCounterparties (addr : Address)
  | distributionOverflow (dest : Address)
  | l2VerifierRejected (reason : String)
  | corruptStateRecord (addr : Address) (reason : String)
  | forceIncludeAlreadyRegistered (obligationId : Bytes32)
  | forceIncludeNotFound (obligationId : Bytes32)
  | forceIncludeNotPending (obligationId : Bytes32) (status : ObligationStatus)
  | l2VkPinMismatch (expected got : Bytes32)
  | setL2VkAllZeros
  | bridgeAssetAlreadyRegistered (assetId : Bytes32)
  | bridgeAssetNotFound (assetId : Bytes32)
  | bridgeAssetFieldTooLong (field : String) (got max : Nat)
  | forceIncludeNotSlashed (obligationId : Bytes32) (status : ObligationStatus)
  | sequencerEjectionAlreadyRecorded (obligationId : Bytes32)
  | bridgeAssetNotActive (assetId : Bytes32) (status : AssetStatus)
  | l2BatchNotCommitted (l2ChainIdHash : Bytes32) (batchId : UInt64)
  | l2BurnAlreadyClaimed (burnId : Bytes32)
  | equivocationAlreadyRecorded (proofHash : Bytes32) (kind : OffenseKind)
  | authoritySlotAlreadyOccupied (authorityId : UInt32)
  | authorityNotFound (authorityId : UInt32)
  | authorityNotActive (authorityId : UInt32) (status : SlotStatus)
  | authorityFieldTooLong (field : String) (got max : Nat)
  | validatorSlotAlreadyOccupied (validatorId : UInt32)
  | validatorNotFound (validatorId : UInt32)
  | validatorNotActive (validatorId : UInt32) (status : SlotStatus)
  | validatorFieldTooLong (field : String) (got max : Nat)
  | depositedStakeOverflow (ring : String) (slotId : UInt32)
  | slotNotExiting (ring : String) (slotId : UInt32) (status : String)
  | withdrawalExceedsDeposit (ring : String) (slotId : UInt32) (want available : Balance)
  | exitCooldownNotElapsed (ring : String) (slotId : UInt32)
      (requiredBlockHeight currentBlockHeight : UInt64)
  | genesisAfterBootstrap (currentBlockHeight : UInt64)
  | inflationEpochAlreadyMinted (attemptedEpoch lastMintedEpoch : UInt64)
  | rewardsEpochAlreadyDistributed (ring : String) (attemptedEpoch lastDistributedEpoch : UInt64)
deriving DecidableEq

/-- `RewardsRing`, and the ring an admission, exit, ejection or stake move is about. -/
inductive Ring where
  | authority
  | validator
deriving DecidableEq, Repr

/-- The ring's word in error texts. -/
def Ring.asStr : Ring → String
  | .authority => "authority"
  | .validator => "validator"

inductive SlashReason where
  | missedForceInclude
  | equivocation
  | invalidBatch
  | downtime
deriving DecidableEq, Repr

inductive Intent where
  | transfer (source dest : Address) (amount : Balance)
  | genesisAllocation (allocations : List (Address × Balance))
  | distributeRewards (epoch : UInt64) (ring : Ring) (recipients : List (Address × Balance))
  | delegate (source : Address) (validatorId : UInt32) (amount : Balance)
  | mintInflation (epoch : UInt64) (authorityShare validatorShare treasuryShare : Balance)
  | admitAuthority (authorityId : UInt32) (stakeSuwappu : UInt64)
      (mldsaPublicKey blsPublicKey : List UInt8)
  | exitAuthority (authorityId : UInt32)
  | ejectAuthority (authorityId : UInt32) (proofRef : Bytes32)
  | admitValidator (validatorId : UInt32) (stakeSuwappu : UInt64)
      (mldsaPublicKey blsPublicKey : List UInt8)
  | exitValidator (validatorId : UInt32)
  | ejectValidator (validatorId : UInt32) (proofRef : Bytes32)
  | commitL2StateRoot (batchId : UInt64) (newStateRoot : Bytes32)
      (proofBytes publicInputs : List UInt8) (vkHash : Bytes32)
  | setL2VerifyingKey (chainIdHash newAggregationVk newRangeCommitment : Bytes32)
  | l1Lock (userAddress l2Recipient : Address) (amount : Balance) (assetId : Option Bytes32)
  | l2BurnProven (batchId : UInt64) (recipient : Address) (amount : Balance)
      (merklePath : List UInt8) (assetId : Option Bytes32) (l2ChainIdHash : Bytes32)
  | l2ForceInclude (tx : List UInt8) (deadlineL1Height : UInt64) (submitter : Address)
      (l2Nonce : UInt64)
  | slashSequencer (reason : SlashReason) (intentHash : Bytes32)
  | markForceIncludeHonored (obligationId : Bytes32)
  | ejectSequencer (obligationId : Bytes32) (ejector : Address)
  | depositSequencerBond (source : Address) (amount : Balance)
  | depositSafetyBond (source : Address) (amount : Balance)
  | depositAuthorityStake (source : Address) (authorityId : UInt32) (amount : Balance)
  | depositValidatorStake (source : Address) (validatorId : UInt32) (amount : Balance)
  | withdrawAuthorityStake (dest : Address) (authorityId : UInt32) (amount : Balance)
  | withdrawValidatorStake (dest : Address) (validatorId : UInt32) (amount : Balance)
  | disburseTreasury (recipient : Address) (amount : Balance) (purposeTag : Bytes32)
  | claimInsurance (claimant : Address) (amount : Balance) (claimReference : Bytes32)
  | postL2DA (batchId : UInt64) (daBlob : List UInt8)
  | distributeSlashedFunds (slashEventId : Bytes32) (counterparties : List (Address × Balance))
      (insuranceShare treasuryShare : Balance)
  | addBridgeAsset (sourceChain : UInt64) (sourceContract : List UInt8) (decimals : UInt8)
      (name symbol : List UInt8)
  | pauseBridgeAsset (assetId : Bytes32)
  | removeBridgeAsset (assetId : Bytes32)
deriving DecidableEq

end SuwappuDag.Execution
