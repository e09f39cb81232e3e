/-
  APPLYING AN INTENT (`InMemorySubstrate::apply_intent`, `substrate.rs`), arm by arm.

  Every arm is a `Command`: checks that only look, then writes.  The order of the steps is the
  source's, because a step that fails leaves what the steps before it have written.

  The arms of the two rings are the same text with `Authority` read as `Validator`; they are one
  definition over `Ring`, and each intent is that definition at its own ring.
-/
import SuwappuDag.Execution.Substrate

namespace SuwappuDag.Execution

open Words Command Reserved InMemorySubstrate
open Std (ExtTreeMap)

variable (blake3 : List UInt8 → Bytes32)

/-! ## Amounts -/

/-- 5% of the liveness bond; the product wraps. -/
def livenessSlashAmount (bondBalance : Balance) : Balance := bondBalance * 500 / 10000

def snitchBountyCap : Balance := 1000000

/-- 10% of the slash, with a saturating product, capped. -/
def snitchBountyAmount (slashAmount : Balance) : Balance :=
  let product : Balance :=
    if slashAmount.toNat * 1000 < 2 ^ 128 then slashAmount * 1000 else BitVec.allOnes 128
  let pct := product / 10000
  if pct < snitchBountyCap then pct else snitchBountyCap

/-- The insurance pool's 70% of a slash; the product wraps, the treasury takes the rest. -/
def insuranceShareOf (amount : Balance) : Balance := amount * 70 / 100

def exitCooldownBlocks : UInt64 := 2419200

def saturatingAdd (a b : UInt64) : UInt64 :=
  if a.toNat + b.toNat < 2 ^ 64 then a + b else UInt64.ofNat (2 ^ 64 - 1)

/-- `u64::try_from(amount).map_err(e)`. -/
def toU64Or (e : ExecutionError) (amount : Balance) : Except ExecutionError UInt64 :=
  if amount.toNat < 2 ^ 64 then .ok (UInt64.ofNat amount.toNat) else .error e

/-- `a.checked_add(b).ok_or(e)`. -/
def addU64Or (e : ExecutionError) (a b : UInt64) : Except ExecutionError UInt64 :=
  if a.toNat + b.toNat < 2 ^ 64 then .ok (a + b) else .error e

/-- `map.get(&key).ok_or(e)`. -/
def getOr {κ ν : Type} [Ord κ] [Std.TransOrd κ] (e : ExecutionError) (map : ExtTreeMap κ ν)
    (key : κ) : Except ExecutionError ν :=
  match map[key]? with
  | some v => .ok v
  | none => .error e

/-! ## Transfers and issuance -/

/-- `Intent::Transfer`. -/
def applyTransfer (source dest : Address) (amount : Balance) : Exec Unit := do
  failIf (isReserved blake3 source) (.reservedAddressTransferDenied source)
  failIf (isReserved blake3 dest) (.reservedAddressTransferDenied dest)
  if amount = 0 then pure () else do
    let sourceBalance ← read fun s => s.balance source
    failIf (sourceBalance < amount) (.insufficientBalance source sourceBalance amount)
    if source = dest then pure () else do
      let newDest ← fetch fun s => addOr (.balanceOverflow dest) (s.balance dest) amount
      write fun s => (s.storeBalance source (sourceBalance - amount)).insertBalance dest newDest

/-- `Intent::GenesisAllocation`. -/
def applyGenesisAllocation (allocations : List (Address × Balance)) : Exec Unit := do
  let height ← read fun s => s.currentBlockHeight
  failIf (height ≠ 0) (.genesisAfterBootstrap height)
  creditManyAtomic allocations

/-- The last minted epoch: nothing stored is 0. -/
def decodeInflation (existing : List UInt8) : Except String UInt64 :=
  if existing = [] then .ok 0
  else if existing.length = 8 then .ok (UInt64.ofNat (ofBeBytes existing))
  else .error "inflation registry size mismatch"

/-- `Intent::MintInflation`. -/
def applyMintInflation (epoch : UInt64) (authorityShare validatorShare treasuryShare : Balance) :
    Exec Unit := do
  let lastEpoch ← decodeRecord (inflationRegistryAddress blake3) decodeInflation
  failIf (epoch ≤ lastEpoch) (.inflationEpochAlreadyMinted epoch lastEpoch)
  creditManyAtomic
    [ (authorityRewardsPoolAddress blake3, authorityShare),
      (validatorRewardsPoolAddress blake3, validatorShare),
      (treasuryAddress blake3, treasuryShare) ]
  writeRecord (inflationRegistryAddress blake3) (beBytes 8 epoch.toNat)

/-- The last distributed epochs of the two rings. -/
def decodeRewards (existing : List UInt8) : Except String (UInt64 × UInt64) :=
  if existing = [] then .ok (0, 0)
  else if existing.length = 16 then
    .ok (UInt64.ofNat (ofBeBytes (existing.take 8)), UInt64.ofNat (ofBeBytes (existing.drop 8)))
  else .error "rewards distribution registry size mismatch"

/-- Fail on the first reserved address of a list. -/
def rejectReserved (e : Address → ExecutionError) (addrs : List Address) : Exec Unit :=
  fetch fun _ => match addrs.find? (isReserved blake3) with
    | some addr => .error (e addr)
    | none => .ok ()

def Ring.rewardsPoolAddress : Ring → Address
  | .authority => authorityRewardsPoolAddress blake3
  | .validator => validatorRewardsPoolAddress blake3

/-- `Intent::DistributeRewards`. -/
def applyDistributeRewards (epoch : UInt64) (ring : Ring) (recipients : List (Address × Balance)) :
    Exec Unit := do
  let last ← decodeRecord (rewardsDistributionRegistryAddress blake3) decodeRewards
  let lastRing := match ring with
    | .authority => last.1
    | .validator => last.2
  failIf (epoch ≤ lastRing) (.rewardsEpochAlreadyDistributed ring.asStr epoch lastRing)
  rejectReserved blake3 .reservedAddressTransferDenied (recipients.map Prod.fst)
  drainAndCreditAtomic (ring.rewardsPoolAddress blake3) recipients
  writeRecord (rewardsDistributionRegistryAddress blake3) (match ring with
    | .authority => beBytes 8 epoch.toNat ++ beBytes 8 last.2.toNat
    | .validator => beBytes 8 last.1.toNat ++ beBytes 8 epoch.toNat)

/-! ## The rings -/

namespace Ring

def registryAddress : Ring → Address
  | .authority => authorityRegistryAddress blake3
  | .validator => validatorRegistryAddress blake3

def stakePoolAddress : Ring → Address
  | .authority => authorityStakePoolAddress blake3
  | .validator => validatorStakePoolAddress blake3

def decode : Ring → List UInt8 → Except String RingMap
  | .authority => AuthorityRegistry.decode
  | .validator => ValidatorRegistry.decode

def encode : Ring → RingMap → List UInt8
  | .authority => AuthorityRegistry.encode
  | .validator => ValidatorRegistry.encode

def slotAlreadyOccupied : Ring → UInt32 → ExecutionError
  | .authority => .authoritySlotAlreadyOccupied
  | .validator => .validatorSlotAlreadyOccupied

def notFound : Ring → UInt32 → ExecutionError
  | .authority => .authorityNotFound
  | .validator => .validatorNotFound

def notActive : Ring → UInt32 → SlotStatus → ExecutionError
  | .authority => .authorityNotActive
  | .validator => .validatorNotActive

def fieldTooLong : Ring → String → Nat → Nat → ExecutionError
  | .authority => .authorityFieldTooLong
  | .validator => .validatorFieldTooLong

end Ring

/-- `Intent::AdmitAuthority`, `Intent::AdmitValidator`. -/
def applyAdmit (ring : Ring) (id : UInt32) (stakeSuwappu : UInt64)
    (mldsaPublicKey blsPublicKey : List UInt8) : Exec Unit := do
  failIf (mldsaPublicKey.length > RingRegistry.maxMldsaPkBytes)
    (ring.fieldTooLong "mldsa_pk" mldsaPublicKey.length RingRegistry.maxMldsaPkBytes)
  failIf (blsPublicKey.length > RingRegistry.maxBlsPkBytes)
    (ring.fieldTooLong "bls_pk" blsPublicKey.length RingRegistry.maxBlsPkBytes)
  let map ← decodeRecord (ring.registryAddress blake3) ring.decode
  failIf (id ∈ map) (ring.slotAlreadyOccupied id)
  writeRecord (ring.registryAddress blake3) (ring.encode (map.insert id
    { mldsaPublicKey, blsPublicKey, stakeSuwappu, depositedStake := 0, exitBlockHeight := 0,
      status := .active }))

/-- `Intent::ExitAuthority`, `Intent::ExitValidator`. -/
def applyExit (ring : Ring) (id : UInt32) : Exec Unit := do
  let height ← read fun s => s.currentBlockHeight
  let map ← decodeRecord (ring.registryAddress blake3) ring.decode
  let slot ← fetch fun _ => getOr (ring.notFound id) map id
  failIf (slot.status ≠ .active) (ring.notActive id slot.status)
  writeRecord (ring.registryAddress blake3)
    (ring.encode (map.insert id { slot with status := .exiting, exitBlockHeight := height }))

/-- The insurance pool's and the treasury's part of a slash, in the order they are credited. -/
def waterfall (amount : Balance) : List (Address × Balance) :=
  [ (insurancePoolAddress blake3, insuranceShareOf amount),
    (treasuryAddress blake3, amount - insuranceShareOf amount) ]

/-- The 70/30 waterfall of an ejected slot's bonded stake. -/
def drainEjected (pool : Address) (drained : Balance) : Exec Unit :=
  if drained > 0 then
    drainAndCreditAtomic pool (waterfall blake3 drained)
  else pure ()

/-- `Intent::EjectAuthority`, `Intent::EjectValidator`. -/
def applyEject (ring : Ring) (id : UInt32) : Exec Unit := do
  let map ← decodeRecord (ring.registryAddress blake3) ring.decode
  let slot ← fetch fun _ => getOr (ring.notFound id) map id
  let poolBalance ← read fun s => s.balance (ring.stakePoolAddress blake3)
  drainEjected blake3 (ring.stakePoolAddress blake3)
    (min (BitVec.ofNat 128 slot.depositedStake.toNat) poolBalance)
  writeRecord (ring.registryAddress blake3)
    (ring.encode (map.insert id { slot with depositedStake := 0, status := .ejected }))

/-- `Intent::DepositAuthorityStake`, `Intent::DepositValidatorStake`. -/
def applyDepositStake (ring : Ring) (source : Address) (id : UInt32) (amount : Balance) :
    Exec Unit :=
  if amount = 0 then pure () else do
    failIf (isReserved blake3 source) (.reservedAddressTransferDenied source)
    let map ← decodeRecord (ring.registryAddress blake3) ring.decode
    let slot ← fetch fun _ => getOr (ring.notFound id) map id
    failIf (slot.status ≠ .active) (ring.notActive id slot.status)
    let delta ← fetch fun _ => toU64Or (.depositedStakeOverflow ring.asStr id) amount
    let deposited ← fetch fun _ =>
      addU64Or (.depositedStakeOverflow ring.asStr id) slot.depositedStake delta
    transferInternal source (ring.stakePoolAddress blake3) amount
    writeRecord (ring.registryAddress blake3)
      (ring.encode (map.insert id { slot with depositedStake := deposited }))

/-- The status word of a `SlotNotExiting` error. -/
def SlotStatus.asStr : SlotStatus → String
  | .active => "Active"
  | .exiting => "Exiting"
  | .ejected => "Ejected"

/-- `Intent::WithdrawAuthorityStake`, `Intent::WithdrawValidatorStake`. -/
def applyWithdrawStake (ring : Ring) (dest : Address) (id : UInt32) (amount : Balance) :
    Exec Unit := do
  let height ← read fun s => s.currentBlockHeight
  if amount = 0 then pure () else do
    failIf (isReserved blake3 dest) (.reservedAddressTransferDenied dest)
    let map ← decodeRecord (ring.registryAddress blake3) ring.decode
    let slot ← fetch fun _ => getOr (ring.notFound id) map id
    failIf (slot.status ≠ .exiting) (.slotNotExiting ring.asStr id slot.status.asStr)
    failIf (height < saturatingAdd slot.exitBlockHeight exitCooldownBlocks)
      (.exitCooldownNotElapsed ring.asStr id
        (saturatingAdd slot.exitBlockHeight exitCooldownBlocks) height)
    failIf (amount > BitVec.ofNat 128 slot.depositedStake.toNat)
      (.withdrawalExceedsDeposit ring.asStr id amount (BitVec.ofNat 128 slot.depositedStake.toNat))
    transferInternal (ring.stakePoolAddress blake3) dest amount
    writeRecord (ring.registryAddress blake3) (ring.encode (map.insert id
      { slot with depositedStake := slot.depositedStake - UInt64.ofNat amount.toNat }))

/-- `Intent::Delegate`. -/
def applyDelegate (source : Address) (validatorId : UInt32) (amount : Balance) : Exec Unit :=
  if amount = 0 then pure () else do
    failIf (isReserved blake3 source) (.reservedAddressTransferDenied source)
    let validators ← decodeRecord (validatorRegistryAddress blake3) ValidatorRegistry.decode
    let slot ← fetch fun _ => getOr (.validatorNotFound validatorId) validators validatorId
    failIf (slot.status ≠ .active) (.validatorNotActive validatorId slot.status)
    let delta ← fetch fun _ => toU64Or (.depositedStakeOverflow "delegation" validatorId) amount
    let reg ← decodeRecord (validatorDelegationRegistryAddress blake3) DelegationRegistry.decode
    let total ← fetch fun _ => addU64Or (.depositedStakeOverflow "delegation" validatorId)
      (reg[toLex (validatorId, source)]?.getD 0) delta
    transferInternal source (validatorStakePoolAddress blake3) amount
    writeRecord (validatorDelegationRegistryAddress blake3)
      (DelegationRegistry.encode (reg.insert (toLex (validatorId, source)) total))

/-! ## L2 batches and the bridge -/

/-- The number at an offset of the public-input blob. -/
def publicInputAt (publicInputs : List UInt8) (offset width : Nat) : Nat :=
  ofBeBytes ((publicInputs.drop offset).take width)

/-- `Intent::CommitL2StateRoot`. -/
def applyCommitL2StateRoot (batchId : UInt64) (newStateRoot : Bytes32)
    (proofBytes publicInputs : List UInt8) (vkHash : Bytes32) : Exec Unit := do
  fetch fun _ => (L2Verifier.verifyL2Batch proofBytes publicInputs vkHash).mapError
    fun e => .l2VerifierRejected e.toText
  let registry ← decodeRecord (l2RegistryAddress blake3) L2Registry.decode
  let l1AnchorHeight := UInt64.ofNat (publicInputAt publicInputs L2Verifier.l1AnchorHeightOffset 8)
  let l2ChainIdHash := BitVec.ofNat 256 (publicInputAt publicInputs L2Verifier.l2ChainIdHashOffset 32)
  let daCommitment := BitVec.ofNat 256 (publicInputAt publicInputs L2Verifier.daCommitmentOffset 32)
  failIf (registry.aggregationVkHash l2ChainIdHash ≠ vkHash)
    (.l2VkPinMismatch (registry.aggregationVkHash l2ChainIdHash) vkHash)
  writeRecord (l2RegistryAddress blake3) (L2Registry.encode
    { registry with
      stateRoots := registry.stateRoots.insert (toLex (l2ChainIdHash, batchId))
        ⟨newStateRoot, l1AnchorHeight, vkHash, daCommitment⟩ })

/-- `Intent::SetL2VerifyingKey`. -/
def applySetL2VerifyingKey (chainIdHash newAggregationVk newRangeCommitment : Bytes32) :
    Exec Unit := do
  failIf (newAggregationVk = 0 ∧ newRangeCommitment = 0) .setL2VkAllZeros
  let registry ← decodeRecord (l2RegistryAddress blake3) L2Registry.decode
  writeRecord (l2RegistryAddress blake3)
    (L2Registry.encode (registry.setChainVks chainIdHash newAggregationVk newRangeCommitment))

/-- `asset_registry()`: a corrupt record reads as the empty registry. -/
def assetRegistry (s : InMemorySubstrate) : ExtTreeMap Bytes32 AssetRecord :=
  match AssetRegistry.decode ((s.readBytes (assetRegistryAddress blake3)).getD []) with
  | .ok assets => assets
  | .error _ => ∅

/-- `l2_registry()`: a corrupt record reads as the empty registry. -/
def l2Registry (s : InMemorySubstrate) : L2Registry :=
  match L2Registry.decode ((s.readBytes (l2RegistryAddress blake3)).getD []) with
  | .ok registry => registry
  | .error _ => L2Registry.empty

/-- `assert_bridge_asset_active`, for an intent that may name no asset. -/
def assertBridgeAssetActive (assetId : Option Bytes32) (s : InMemorySubstrate) :
    Except ExecutionError Unit :=
  match assetId with
  | none => .ok ()
  | some id =>
    match (assetRegistry blake3 s)[id]? with
    | none => .error (.bridgeAssetNotFound id)
    | some asset =>
      if asset.status = .active then .ok () else .error (.bridgeAssetNotActive id asset.status)

/-- The two steps by which most arms move money: a debit, then a credit. -/
def debitThenCredit (source dest : Address) (amount : Balance) : Exec Unit := do
  debitUnchecked source amount
  creditUnchecked dest amount

/-- `Intent::L1Lock`: the locking user is NOT checked against the reserved addresses. -/
def applyL1Lock (userAddress : Address) (amount : Balance) (assetId : Option Bytes32) :
    Exec Unit :=
  if amount = 0 then pure () else do
    fetch (assertBridgeAssetActive blake3 assetId)
    debitThenCredit userAddress (bridgeEscrowAddress blake3) amount

/-- `Intent::L2BurnProven`: the claim is recorded BEFORE the money moves. -/
def applyL2BurnProven (batchId : UInt64) (recipient : Address) (amount : Balance)
    (merklePath : List UInt8) (assetId : Option Bytes32) (l2ChainIdHash : Bytes32) : Exec Unit :=
  if amount = 0 then pure () else do
    failIf (isReserved blake3 recipient) (.reservedAddressTransferDenied recipient)
    fetch (assertBridgeAssetActive blake3 assetId)
    let registry ← read fun s => l2Registry blake3 s
    failIf (toLex (l2ChainIdHash, batchId) ∉ registry.stateRoots)
      (.l2BatchNotCommitted l2ChainIdHash batchId)
    let nullifiers ← decodeRecord (burnNullifierRegistryAddress blake3) BurnNullifier.decode
    let id := BurnNullifier.burnId blake3 l2ChainIdHash batchId recipient amount merklePath assetId
    failIf (id ∈ nullifiers) (.l2BurnAlreadyClaimed id)
    writeRecord (burnNullifierRegistryAddress blake3)
      (BurnNullifier.encode (nullifiers.insert id ()))
    debitThenCredit (bridgeEscrowAddress blake3) recipient amount

/-! ## Force-includes and the sequencer -/

/-- `Intent::L2ForceInclude`. -/
def applyL2ForceInclude (tx : List UInt8) (deadlineL1Height : UInt64) (submitter : Address)
    (l2Nonce : UInt64) : Exec Unit := do
  let id := ForceInclude.obligationId blake3 tx deadlineL1Height submitter l2Nonce
  let map ← decodeRecord (forceIncludeRegistryAddress blake3) ForceInclude.decodeMap
  failIf (id ∈ map) (.forceIncludeAlreadyRegistered id)
  writeRecord (forceIncludeRegistryAddress blake3) (ForceInclude.encodeMap (map.insert id
    { txHash := blake3 tx, deadlineL1Height, submitter, l2Nonce, status := .pending }))

/-- `force_include_obligation`: the obligation on record under the id. -/
def forceIncludeObligation (s : InMemorySubstrate) (id : Bytes32) : Option ForceIncludeObligation :=
  (ForceInclude.decodeMap ((s.readBytes (forceIncludeRegistryAddress blake3)).getD [])).toOption.bind
    (·[id]?)

/-- Move a pending obligation to `status`, and return it as it was. -/
def settleObligation (id : Bytes32) (status : ObligationStatus) : Exec ForceIncludeObligation := do
  let map ← decodeRecord (forceIncludeRegistryAddress blake3) ForceInclude.decodeMap
  let obligation ← fetch fun _ => getOr (.forceIncludeNotFound id) map id
  failIf (obligation.status ≠ .pending) (.forceIncludeNotPending id obligation.status)
  writeRecord (forceIncludeRegistryAddress blake3)
    (ForceInclude.encodeMap (map.insert id { obligation with status }))
  return obligation

/-- What is paid of a bounty: at most what the treasury holds. -/
def paidBounty (bounty treasuryBalance : Balance) : Balance :=
  if bounty < treasuryBalance then bounty else treasuryBalance

/-- Pay a snitch bounty out of the treasury, as far as it goes. -/
def payBounty (dest : Address) (bounty : Balance) : Exec Unit :=
  if bounty > 0 then do
    let treasuryBalance ← read fun s => s.balance (treasuryAddress blake3)
    if paidBounty bounty treasuryBalance > 0 then
      debitThenCredit (treasuryAddress blake3) dest (paidBounty bounty treasuryBalance)
    else pure ()
  else pure ()

/-- Credit one recipient after the other. -/
def creditEach : List (Address × Balance) → Exec Unit
  | [] => pure ()
  | (addr, share) :: credits => do
    creditUnchecked addr share
    creditEach credits

/-- Debit a bond, then credit the slash 70/30, one pool after the other. -/
def slashBond (bond : Address) (amount : Balance) : Exec Unit := do
  debitUnchecked bond amount
  creditEach (waterfall blake3 amount)

/-- Slash the liveness bond, and reward the submitter of the missed obligation. -/
def slashLivenessBond (submitter : Address) : Exec Unit := do
  let bondBalance ← read fun s => s.balance (sequencerBondAddress blake3)
  let slashAmount := livenessSlashAmount bondBalance
  if bondBalance = 0 ∨ slashAmount = 0 then pure () else do
    slashBond blake3 (sequencerBondAddress blake3) slashAmount
    if isReserved blake3 submitter then pure ()
    else payBounty blake3 submitter (snitchBountyAmount slashAmount)

/-- `Intent::SlashSequencer` for `MissedForceInclude`. -/
def applySlashMissed (intentHash : Bytes32) : Exec Unit := do
  let obligation ← settleObligation blake3 intentHash .slashed
  slashLivenessBond blake3 obligation.submitter

/-- Forfeit the whole safety bond. -/
def forfeitSafetyBond : Exec Unit := do
  let bondBalance ← read fun s => s.balance (safetyBondAddress blake3)
  if bondBalance = 0 then pure () else slashBond blake3 (safetyBondAddress blake3) bondBalance

/-- An offence that has been slashed before is refused. -/
def checkUnrecorded (map : ExtTreeMap Bytes32 EquivocationRecord) (intentHash : Bytes32) :
    Except ExecutionError Unit :=
  match map[intentHash]? with
  | some prior => .error (.equivocationAlreadyRecorded intentHash prior.kind)
  | none => .ok ()

/-- `Intent::SlashSequencer` for `Equivocation` and `InvalidBatch`. -/
def applySlashOffense (kind : OffenseKind) (intentHash : Bytes32) : Exec Unit := do
  let map ← decodeRecord (equivocationRegistryAddress blake3) EquivocationRegistry.decode
  fetch fun _ => checkUnrecorded map intentHash
  writeRecord (equivocationRegistryAddress blake3)
    (EquivocationRegistry.encode (map.insert intentHash ⟨kind, 0⟩))
  forfeitSafetyBond blake3

/-- `Intent::EjectSequencer`. -/
def applyEjectSequencer (obligationId : Bytes32) (ejector : Address) : Exec Unit := do
  failIf (isReserved blake3 ejector) (.reservedAddressTransferDenied ejector)
  let obligations ← decodeRecord (forceIncludeRegistryAddress blake3) ForceInclude.decodeMap
  let obligation ← fetch fun _ => getOr (.forceIncludeNotFound obligationId) obligations obligationId
  failIf (obligation.status ≠ .slashed) (.forceIncludeNotSlashed obligationId obligation.status)
  let ejections ← decodeRecord (ejectionRegistryAddress blake3) EjectRegistry.decode
  failIf (obligationId ∈ ejections) (.sequencerEjectionAlreadyRecorded obligationId)
  writeRecord (ejectionRegistryAddress blake3)
    (EjectRegistry.encode (ejections.insert obligationId ⟨ejector⟩))
  let bondBalance ← read fun s => s.balance (sequencerBondAddress blake3)
  payBounty blake3 ejector (snitchBountyAmount (livenessSlashAmount bondBalance))

/-! ## Bonds and pools -/

/-- Move money between a user and a pool; a reserved user is refused. -/
def applyPoolMove (user source dest : Address) (amount : Balance) : Exec Unit :=
  if amount = 0 then pure () else do
    failIf (isReserved blake3 user) (.reservedAddressTransferDenied user)
    debitThenCredit source dest amount

/-- `Intent::DepositSequencerBond`. -/
def applyDepositSequencerBond (source : Address) (amount : Balance) : Exec Unit :=
  applyPoolMove blake3 source source (sequencerBondAddress blake3) amount

/-- `Intent::DepositSafetyBond`. -/
def applyDepositSafetyBond (source : Address) (amount : Balance) : Exec Unit :=
  applyPoolMove blake3 source source (safetyBondAddress blake3) amount

/-- `Intent::DisburseTreasury`. -/
def applyDisburseTreasury (recipient : Address) (amount : Balance) : Exec Unit :=
  applyPoolMove blake3 recipient (treasuryAddress blake3) recipient amount

/-- `Intent::ClaimInsurance`. -/
def applyClaimInsurance (claimant : Address) (amount : Balance) : Exec Unit :=
  applyPoolMove blake3 claimant (insurancePoolAddress blake3) claimant amount

/-- The credits of a slashed-funds distribution, in the order they are made. -/
def slashedFundsCredits (counterparties : List (Address × Balance))
    (insuranceShare treasuryShare : Balance) : List (Address × Balance) :=
  counterparties ++
    [ (insurancePoolAddress blake3, insuranceShare), (treasuryAddress blake3, treasuryShare) ]

/-- `Intent::DistributeSlashedFunds`. -/
def applyDistributeSlashedFunds (counterparties : List (Address × Balance))
    (insuranceShare treasuryShare : Balance) : Exec Unit := do
  rejectReserved blake3 .reservedAddressInCounterparties (counterparties.map Prod.fst)
  creditEach (slashedFundsCredits blake3 counterparties insuranceShare treasuryShare)

/-! ## Bridge assets -/

/-- `Intent::AddBridgeAsset`. -/
def applyAddBridgeAsset (sourceChain : UInt64) (sourceContract : List UInt8) (decimals : UInt8)
    (name symbol : List UInt8) : Exec Unit := do
  failIf (sourceContract.length > AssetRegistry.maxSourceContractBytes)
    (.bridgeAssetFieldTooLong "source_contract" sourceContract.length
      AssetRegistry.maxSourceContractBytes)
  failIf (name.length > AssetRegistry.maxAssetNameBytes)
    (.bridgeAssetFieldTooLong "name" name.length AssetRegistry.maxAssetNameBytes)
  failIf (symbol.length > AssetRegistry.maxAssetSymbolBytes)
    (.bridgeAssetFieldTooLong "symbol" symbol.length AssetRegistry.maxAssetSymbolBytes)
  let id := AssetRegistry.assetId blake3 sourceChain sourceContract
  let assets ← decodeRecord (assetRegistryAddress blake3) AssetRegistry.decode
  failIf (id ∈ assets) (.bridgeAssetAlreadyRegistered id)
  writeRecord (assetRegistryAddress blake3) (AssetRegistry.encode (assets.insert id
    { sourceChain, sourceContract, decimals, name, symbol, status := .active }))

/-- Overwrite the status of a registered asset, whatever it was. -/
def setAssetStatus (assetId : Bytes32) (status : AssetStatus) : Exec Unit := do
  let assets ← decodeRecord (assetRegistryAddress blake3) AssetRegistry.decode
  let asset ← fetch fun _ => getOr (.bridgeAssetNotFound assetId) assets assetId
  writeRecord (assetRegistryAddress blake3)
    (AssetRegistry.encode (assets.insert assetId { asset with status }))

/-- `Intent::PauseBridgeAsset`. -/
def applyPauseBridgeAsset (assetId : Bytes32) : Exec Unit := setAssetStatus blake3 assetId .paused

/-- `Intent::RemoveBridgeAsset`. -/
def applyRemoveBridgeAsset (assetId : Bytes32) : Exec Unit := setAssetStatus blake3 assetId .removed

/-! ## The dispatch -/

/-- `Intent::SlashSequencer`. -/
def applySlashSequencer (reason : SlashReason) (intentHash : Bytes32) : Exec Unit :=
  match reason with
  | .missedForceInclude => applySlashMissed blake3 intentHash
  | .equivocation => applySlashOffense blake3 .equivocation intentHash
  | .invalidBatch => applySlashOffense blake3 .invalidBatch intentHash
  | .downtime => pure ()

/-- `Intent::MarkForceIncludeHonored`. -/
def applyMarkForceIncludeHonored (obligationId : Bytes32) : Exec Unit := do
  let _ ← settleObligation blake3 obligationId .honored
  pure ()

/-- `apply_intent`. -/
def applyIntent : Intent → Exec Unit
  | .transfer source dest amount => applyTransfer blake3 source dest amount
  | .genesisAllocation allocations => applyGenesisAllocation allocations
  | .mintInflation epoch authorityShare validatorShare treasuryShare =>
    applyMintInflation blake3 epoch authorityShare validatorShare treasuryShare
  | .distributeRewards epoch ring recipients => applyDistributeRewards blake3 epoch ring recipients
  | .delegate source validatorId amount => applyDelegate blake3 source validatorId amount
  | .admitAuthority id stake mldsa bls => applyAdmit blake3 .authority id stake mldsa bls
  | .exitAuthority id => applyExit blake3 .authority id
  | .ejectAuthority id _ => applyEject blake3 .authority id
  | .admitValidator id stake mldsa bls => applyAdmit blake3 .validator id stake mldsa bls
  | .exitValidator id => applyExit blake3 .validator id
  | .ejectValidator id _ => applyEject blake3 .validator id
  | .commitL2StateRoot batchId root proof inputs vkHash =>
    applyCommitL2StateRoot blake3 batchId root proof inputs vkHash
  | .setL2VerifyingKey chain agg range => applySetL2VerifyingKey blake3 chain agg range
  | .l1Lock user _ amount assetId => applyL1Lock blake3 user amount assetId
  | .l2BurnProven batchId recipient amount path assetId chain =>
    applyL2BurnProven blake3 batchId recipient amount path assetId chain
  | .l2ForceInclude tx deadline submitter nonce =>
    applyL2ForceInclude blake3 tx deadline submitter nonce
  | .slashSequencer reason hash => applySlashSequencer blake3 reason hash
  | .markForceIncludeHonored id => applyMarkForceIncludeHonored blake3 id
  | .ejectSequencer id ejector => applyEjectSequencer blake3 id ejector
  | .depositSequencerBond source amount => applyDepositSequencerBond blake3 source amount
  | .depositSafetyBond source amount => applyDepositSafetyBond blake3 source amount
  | .depositAuthorityStake source id amount => applyDepositStake blake3 .authority source id amount
  | .depositValidatorStake source id amount => applyDepositStake blake3 .validator source id amount
  | .withdrawAuthorityStake dest id amount => applyWithdrawStake blake3 .authority dest id amount
  | .withdrawValidatorStake dest id amount => applyWithdrawStake blake3 .validator dest id amount
  | .disburseTreasury recipient amount _ => applyDisburseTreasury blake3 recipient amount
  | .claimInsurance claimant amount _ => applyClaimInsurance blake3 claimant amount
  | .postL2DA _ _ => pure ()
  | .distributeSlashedFunds _ counterparties insuranceShare treasuryShare =>
    applyDistributeSlashedFunds blake3 counterparties insuranceShare treasuryShare
  | .addBridgeAsset chain contract decimals name symbol =>
    applyAddBridgeAsset blake3 chain contract decimals name symbol
  | .pauseBridgeAsset id => applyPauseBridgeAsset blake3 id
  | .removeBridgeAsset id => applyRemoveBridgeAsset blake3 id

/-! ## Runs -/

/-- A mutating call on the substrate. -/
inductive SubstrateCall where
  | setCurrentBlockHeight (height : UInt64)
  | applyIntent (intent : Intent)

/-- The state a call leaves; a failing intent leaves what it had written. -/
def SubstrateCall.exec (call : SubstrateCall) (s : InMemorySubstrate) : InMemorySubstrate :=
  match call with
  | .setCurrentBlockHeight height => s.setCurrentBlockHeight height
  | .applyIntent intent => (Execution.applyIntent blake3 intent s).2

/-- The state after a sequence of calls. -/
def runCalls (calls : List SubstrateCall) (s : InMemorySubstrate) : InMemorySubstrate :=
  calls.foldl (fun s call => call.exec blake3 s) s

/-! ## The state root -/

/-- `compute_state_root_v2`: a root over the balances, a root over the length-prefixed records, and
    one hash over both. -/
def stateRoot (s : InMemorySubstrate) : Bytes32 :=
  let balancesRoot := blake3 (asciiBytes "SUWAPPU-BALANCES-V1"
    ++ s.balances.toList.flatMap fun e => beBytes 20 e.1.toNat ++ beBytes 16 e.2.toNat)
  let bytesStateRoot := blake3 (asciiBytes "SUWAPPU-BYTES-STATE-V1"
    ++ s.bytesState.toList.flatMap fun e => beBytes 20 e.1.toNat ++ beBytes 4 e.2.length ++ e.2)
  blake3 (asciiBytes "SUWAPPU-STATE-ROOT-V2" ++ beBytes 32 balancesRoot.toNat
    ++ beBytes 32 bytesStateRoot.toNat)

end SuwappuDag.Execution
