/-
  WHAT EACH ARM DOES: its checks, and what it does when they pass.

  One lemma per arm the runs are about.  `Guarded` says both halves at once: where the checks listed
  in the lemma pass, the arm ends as stated, and where they do not, it fails and changes nothing.
  Everything that is proved about runs starts from these lemmas; the arms are not unfolded again.
-/
import SuwappuDag.Execution.Contracts

namespace SuwappuDag.Execution

open Words Command Reserved InMemorySubstrate
open Std (ExtTreeMap)

variable {blake3 : List UInt8 → Bytes32} {s : InMemorySubstrate}

/-! ## Checks -/

theorem guarded_decodeRecord_bind {α β : Type} {addr : Address}
    {decode : List UInt8 → Except String α} {k : α → Exec β}
    {Q : α → Except ExecutionError β × InMemorySubstrate → Prop}
    (h : ∀ a, decode (recordAt s addr) = .ok a → Guarded (k a) s (Q a)) :
    Guarded (decodeRecord addr decode >>= k) s
      (fun r => ∃ a, decode (recordAt s addr) = .ok a ∧ Q a r) := by
  refine (guarded_fetch_bind fun a ha => h a (mapError_eq_ok_iff.mp ha)).congr fun r => ?_
  simp only [mapError_eq_ok_iff]
  exact Iff.rfl

theorem guarded_getOr_bind {κ ν β : Type} [Ord κ] [Std.TransOrd κ] {e : ExecutionError}
    {map : ExtTreeMap κ ν} {key : κ} {k : ν → Exec β}
    {Q : ν → Except ExecutionError β × InMemorySubstrate → Prop}
    (h : ∀ v, map[key]? = some v → Guarded (k v) s (Q v)) :
    Guarded ((fetch fun _ => getOr e map key) >>= k) s (fun r => ∃ v, map[key]? = some v ∧ Q v r) := by
  refine (guarded_fetch_bind fun v hv => h v (getOr_eq_ok_iff.mp hv)).congr fun r => ?_
  simp only [getOr_eq_ok_iff]

/-! ## The rings -/

section Rings

variable {ring : Ring} {id : UInt32} {amount : Balance}

theorem applyAdmit_guarded (stake : UInt64) (mldsa bls : List UInt8) :
    Guarded (applyAdmit blake3 ring id stake mldsa bls) s (fun r =>
      ∃ map, ring.decode (ringBytes blake3 ring s) = .ok map ∧ id ∉ map ∧
        RingRegistry.Capped ⟨mldsa, bls, stake, 0, 0, .active⟩ ∧
        r = (.ok (), s.writeBytesUnchecked (ring.registryAddress blake3)
          (ring.encode (map.insert id ⟨mldsa, bls, stake, 0, 0, .active⟩)))) := by
  refine (guarded_failIf_bind fun _ => guarded_failIf_bind fun _ => guarded_decodeRecord_bind
    fun map _ => guarded_failIf_bind fun _ => guarded_run _ _).congr fun r => ?_
  constructor
  · rintro ⟨hmldsa, hbls, map, hdec, hfree, hr⟩
    exact ⟨map, hdec, hfree, ⟨not_lt.mp hmldsa, not_lt.mp hbls⟩, hr⟩
  · rintro ⟨map, hdec, hfree, ⟨hmldsa, hbls⟩, hr⟩
    exact ⟨not_lt.mpr hmldsa, not_lt.mpr hbls, map, hdec, hfree, hr⟩

theorem applyExit_guarded :
    Guarded (applyExit blake3 ring id) s (fun r =>
      ∃ map slot, ring.decode (ringBytes blake3 ring s) = .ok map ∧ map[id]? = some slot ∧
        slot.status = .active ∧
        r = (.ok (), s.writeBytesUnchecked (ring.registryAddress blake3) (ring.encode (map.insert id
          { slot with status := .exiting, exitBlockHeight := s.currentBlockHeight })))) := by
  refine (guarded_read_bind (guarded_decodeRecord_bind fun map _ => guarded_getOr_bind
    fun slot _ => guarded_failIf_bind fun _ => guarded_run _ _)).congr fun r => ?_
  simp only [not_not, ← exists_and_left]
  exact Iff.rfl

theorem applyEject_guarded :
    Guarded (applyEject blake3 ring id) s (fun r =>
      ∃ map slot, ring.decode (ringBytes blake3 ring s) = .ok map ∧ map[id]? = some slot ∧
        r = (drainEjected blake3 (ring.stakePoolAddress blake3) (drainedStake blake3 ring s slot)
          >>= fun _ => writeRecord (ring.registryAddress blake3)
            (ring.encode (map.insert id (ejectedSlot slot)))) s) := by
  refine (guarded_decodeRecord_bind fun map _ => guarded_getOr_bind fun slot _ =>
    guarded_read_bind (guarded_run _ _)).congr fun r => ?_
  simp only [← exists_and_left]
  exact Iff.rfl

theorem applyDepositStake_guarded (h0 : amount ≠ 0) (source : Address) :
    Guarded (applyDepositStake blake3 ring source id amount) s (fun r =>
      ∃ map slot, ring.decode (ringBytes blake3 ring s) = .ok map ∧ map[id]? = some slot ∧
        ¬ isReserved blake3 source = true ∧ slot.status = .active ∧
        slot.depositedStake.toNat + amount.toNat < 2 ^ 64 ∧
        r = (transferInternal source (ring.stakePoolAddress blake3) amount
          >>= fun _ => writeRecord (ring.registryAddress blake3) (ring.encode (map.insert id
            { slot with depositedStake :=
              slot.depositedStake + UInt64.ofNat amount.toNat }))) s) := by
  rw [applyDepositStake, if_neg h0]
  refine (guarded_failIf_bind fun _ => guarded_decodeRecord_bind fun map _ => guarded_getOr_bind
    fun slot _ => guarded_failIf_bind fun _ => guarded_fetch_bind fun delta _ =>
      guarded_fetch_bind fun total _ => guarded_run _ _).congr fun r => ?_
  simp only [toU64Or_eq_ok_iff, addU64Or_eq_ok_iff, not_not]
  constructor
  · rintro ⟨hsource, map, hdec, slot, hslot, hactive, delta, ⟨h64, rfl⟩, total, ⟨hfit, rfl⟩, hr⟩
    rw [UInt64.toNat_ofNat_of_lt' h64] at hfit
    exact ⟨map, slot, hdec, hslot, hsource, hactive, hfit, hr⟩
  · rintro ⟨map, slot, hdec, hslot, hsource, hactive, hfit, hr⟩
    have h64 : amount.toNat < 2 ^ 64 := by omega
    refine ⟨hsource, map, hdec, slot, hslot, hactive, _, ⟨h64, rfl⟩, _, ⟨?_, rfl⟩, hr⟩
    rwa [UInt64.toNat_ofNat_of_lt' h64]

theorem applyWithdrawStake_guarded (h0 : amount ≠ 0) (dest : Address) :
    Guarded (applyWithdrawStake blake3 ring dest id amount) s (fun r =>
      ∃ map slot, ring.decode (ringBytes blake3 ring s) = .ok map ∧ map[id]? = some slot ∧
        ¬ isReserved blake3 dest = true ∧ slot.status = .exiting ∧
        saturatingAdd slot.exitBlockHeight exitCooldownBlocks ≤ s.currentBlockHeight ∧
        amount.toNat ≤ slot.depositedStake.toNat ∧
        r = (transferInternal (ring.stakePoolAddress blake3) dest amount
          >>= fun _ => writeRecord (ring.registryAddress blake3) (ring.encode (map.insert id
            { slot with depositedStake :=
              slot.depositedStake - UInt64.ofNat amount.toNat }))) s) := by
  have hdeposit : ∀ slot : SlotRecord, ¬ amount > BitVec.ofNat 128 slot.depositedStake.toNat ↔
      amount.toNat ≤ slot.depositedStake.toNat := by
    intro slot
    have := slot.depositedStake.toNat_lt
    rw [gt_iff_lt, not_lt, BitVec.le_def, BitVec.toNat_ofNat, Nat.mod_eq_of_lt (by omega)]
  rw [applyWithdrawStake]
  refine (guarded_read_bind (Q := fun r => _) ?_)
  rw [if_neg h0]
  refine (guarded_failIf_bind fun _ => guarded_decodeRecord_bind fun map _ => guarded_getOr_bind
    fun slot _ => guarded_failIf_bind fun _ => guarded_failIf_bind fun _ =>
      guarded_failIf_bind fun _ => guarded_run _ _).congr fun r => ?_
  simp only [hdeposit, not_not, not_lt]
  constructor
  · rintro ⟨hdest, map, hdec, slot, hslot, hexiting, hcool, hle, hr⟩
    exact ⟨map, slot, hdec, hslot, hdest, hexiting, hcool, hle, hr⟩
  · rintro ⟨map, slot, hdec, hslot, hdest, hexiting, hcool, hle, hr⟩
    exact ⟨hdest, map, hdec, slot, hslot, hexiting, hcool, hle, hr⟩

theorem applyDelegate_guarded (h0 : amount ≠ 0) (source : Address) :
    Guarded (applyDelegate blake3 source id amount) s (fun r =>
      ∃ reg : DelegationRegistry.DelegationMap,
        DelegationRegistry.decode (recordAt s (validatorDelegationRegistryAddress blake3)) = .ok reg ∧
        (∃ map slot, Ring.validator.decode (ringBytes blake3 .validator s) = .ok map ∧
          map[id]? = some slot ∧ slot.status = .active) ∧
        ¬ isReserved blake3 source = true ∧
        (reg[toLex (id, source)]?.getD 0).toNat + amount.toNat < 2 ^ 64 ∧
        r = (transferInternal source (validatorStakePoolAddress blake3) amount
          >>= fun _ => writeRecord (validatorDelegationRegistryAddress blake3)
            (DelegationRegistry.encode (reg.insert (toLex (id, source))
              (reg[toLex (id, source)]?.getD 0 + UInt64.ofNat amount.toNat)))) s) := by
  rw [applyDelegate, if_neg h0]
  refine (guarded_failIf_bind fun _ => guarded_decodeRecord_bind fun map _ => guarded_getOr_bind
    fun slot _ => guarded_failIf_bind fun _ => guarded_fetch_bind fun delta _ =>
      guarded_decodeRecord_bind fun reg _ => guarded_fetch_bind fun total _ =>
        guarded_run _ _).congr fun r => ?_
  simp only [toU64Or_eq_ok_iff, addU64Or_eq_ok_iff, not_not]
  constructor
  · rintro ⟨hsource, map, hdec, slot, hslot, hactive, delta, ⟨h64, rfl⟩, reg, hreg, total,
      ⟨hfit, rfl⟩, hr⟩
    rw [UInt64.toNat_ofNat_of_lt' h64] at hfit
    exact ⟨reg, hreg, ⟨map, slot, hdec, hslot, hactive⟩, hsource, hfit, hr⟩
  · rintro ⟨reg, hreg, ⟨map, slot, hdec, hslot, hactive⟩, hsource, hfit, hr⟩
    have h64 : amount.toNat < 2 ^ 64 := by omega
    refine ⟨hsource, map, hdec, slot, hslot, hactive, _, ⟨h64, rfl⟩, reg, hreg, _, ⟨?_, rfl⟩, hr⟩
    rwa [UInt64.toNat_ofNat_of_lt' h64]

end Rings

/-! ## L2 batches -/

section Batches

variable {batchId : UInt64} {root vkHash : Bytes32} {proof inputs : List UInt8}

/-- The chain a blob of public inputs is about. -/
def provenChain (inputs : List UInt8) : Bytes32 :=
  BitVec.ofNat 256 (publicInputAt inputs L2Verifier.l2ChainIdHashOffset 32)

/-- The record a commit writes. -/
def committedRecord (root : Bytes32) (inputs : List UInt8) (vkHash : Bytes32) : L2StateRootRecord where
  stateRoot := root
  committedAtL1Height := UInt64.ofNat (publicInputAt inputs L2Verifier.l1AnchorHeightOffset 8)
  vkHash
  daCommitment := BitVec.ofNat 256 (publicInputAt inputs L2Verifier.daCommitmentOffset 32)

/-- The registry a commit leaves. -/
def L2Registry.commit (reg : L2Registry) (batchId : UInt64) (root : Bytes32) (inputs : List UInt8)
    (vkHash : Bytes32) : L2Registry :=
  { reg with
    stateRoots := reg.stateRoots.insert (toLex (provenChain inputs, batchId))
      (committedRecord root inputs vkHash) }

theorem applyCommitL2StateRoot_guarded :
    Guarded (applyCommitL2StateRoot blake3 batchId root proof inputs vkHash) s (fun r =>
      ∃ reg, L2Registry.decode (recordAt s (l2RegistryAddress blake3)) = .ok reg ∧
        L2Verifier.verifyL2Batch proof inputs vkHash = .ok () ∧
        reg.aggregationVkHash (provenChain inputs) = vkHash ∧
        r = (.ok (), s.writeBytesUnchecked (l2RegistryAddress blake3)
          (reg.commit batchId root inputs vkHash).encode)) := by
  refine (guarded_fetch_bind fun _ _ => guarded_decodeRecord_bind fun reg _ =>
    guarded_failIf_bind fun _ => guarded_run _ _).congr fun r => ?_
  simp only [mapError_eq_ok_iff, not_not]
  constructor
  · rintro ⟨_, hverify, reg, hdec, hpin, hr⟩
    exact ⟨reg, hdec, hverify, hpin, hr⟩
  · rintro ⟨reg, hdec, hverify, hpin, hr⟩
    exact ⟨(), hverify, reg, hdec, hpin, hr⟩

theorem applySetL2VerifyingKey_guarded (chain agg range : Bytes32) :
    Guarded (applySetL2VerifyingKey blake3 chain agg range) s (fun r =>
      ∃ reg, L2Registry.decode (recordAt s (l2RegistryAddress blake3)) = .ok reg ∧
        ¬ (agg = 0 ∧ range = 0) ∧
        r = (.ok (), s.writeBytesUnchecked (l2RegistryAddress blake3)
          (reg.setChainVks chain agg range).encode)) := by
  refine (guarded_failIf_bind fun _ => guarded_decodeRecord_bind fun reg _ =>
    guarded_run _ _).congr fun r => ?_
  constructor
  · rintro ⟨hkeys, reg, hdec, hr⟩
    exact ⟨reg, hdec, hkeys, hr⟩
  · rintro ⟨reg, hdec, hkeys, hr⟩
    exact ⟨hkeys, reg, hdec, hr⟩

end Batches

/-! ## Burns -/

/-- The fields of an `L2BurnProven` intent. -/
structure Burn where
  batchId : UInt64
  recipient : Address
  amount : Balance
  merklePath : List UInt8
  assetId : Option Bytes32
  l2ChainIdHash : Bytes32
deriving DecidableEq

namespace Burn

def intent (b : Burn) : Intent :=
  .l2BurnProven b.batchId b.recipient b.amount b.merklePath b.assetId b.l2ChainIdHash

variable (blake3) in
def id (b : Burn) : Bytes32 :=
  BurnNullifier.burnId blake3 b.l2ChainIdHash b.batchId b.recipient b.amount b.merklePath b.assetId

/-- The batch the burn belongs to. -/
def key (b : Burn) : L2BatchKey := toLex (b.l2ChainIdHash, b.batchId)

/-- The burn is recorded before it is paid. -/
theorem guarded {b : Burn} (h0 : b.amount ≠ 0) :
    Guarded (applyIntent blake3 b.intent) s (fun r =>
      ∃ set, BurnNullifier.decode (recordAt s (burnNullifierRegistryAddress blake3)) = .ok set ∧
        b.id blake3 ∉ set ∧ ¬ isReserved blake3 b.recipient = true ∧
        assertBridgeAssetActive blake3 b.assetId s = .ok () ∧
        b.key ∈ (l2Registry blake3 s).stateRoots ∧
        r = debitThenCredit (bridgeEscrowAddress blake3) b.recipient b.amount
          (s.writeBytesUnchecked (burnNullifierRegistryAddress blake3)
            (BurnNullifier.encode (set.insert (b.id blake3) ())))) := by
  show Guarded (applyL2BurnProven blake3 _ _ _ _ _ _) s _
  rw [applyL2BurnProven, if_neg h0]
  refine (guarded_failIf_bind fun _ => guarded_fetch_bind fun _ _ => guarded_read_bind
    (by exact guarded_failIf_bind fun _ => guarded_decodeRecord_bind fun set _ =>
      guarded_failIf_bind fun _ => guarded_run _ _)).congr fun r => ?_
  simp only [not_not]
  constructor
  · rintro ⟨hrec, _, hasset, hbatch, set, hdec, hid, hr⟩
    exact ⟨set, hdec, hid, hrec, hasset, hbatch, hr⟩
  · rintro ⟨set, hdec, hid, hrec, hasset, hbatch, hr⟩
    exact ⟨hrec, (), hasset, hbatch, set, hdec, hid, hr⟩

end Burn

/-! ## Force-includes and the sequencer -/

theorem applyL2ForceInclude_guarded (tx : List UInt8) (deadline : UInt64) (submitter : Address)
    (nonce : UInt64) :
    Guarded (applyL2ForceInclude blake3 tx deadline submitter nonce) s (fun r =>
      ∃ map, ForceInclude.decodeMap (recordAt s (forceIncludeRegistryAddress blake3)) = .ok map ∧
        ForceInclude.obligationId blake3 tx deadline submitter nonce ∉ map ∧
        r = (.ok (), s.writeBytesUnchecked (forceIncludeRegistryAddress blake3)
          (ForceInclude.encodeMap (map.insert
            (ForceInclude.obligationId blake3 tx deadline submitter nonce)
            ⟨blake3 tx, deadline, submitter, nonce, .pending⟩)))) :=
  guarded_decodeRecord_bind fun map _ => guarded_failIf_bind fun _ => guarded_run _ _

theorem settleObligation_guarded (id : Bytes32) (status : ObligationStatus) :
    Guarded (settleObligation blake3 id status) s (fun r =>
      ∃ map obligation,
        ForceInclude.decodeMap (recordAt s (forceIncludeRegistryAddress blake3)) = .ok map ∧
        map[id]? = some obligation ∧ obligation.status = .pending ∧
        r = (.ok obligation, s.writeBytesUnchecked (forceIncludeRegistryAddress blake3)
          (ForceInclude.encodeMap (map.insert id { obligation with status })))) := by
  refine (guarded_decodeRecord_bind fun map _ => guarded_getOr_bind fun obligation _ =>
    guarded_failIf_bind fun _ => guarded_run _ _).congr fun r => ?_
  simp only [not_not, ← exists_and_left]
  exact Iff.rfl

/-- The offence is recorded before the bond is taken. -/
theorem applySlashOffense_guarded (kind : OffenseKind) (hash : Bytes32) :
    Guarded (applySlashOffense blake3 kind hash) s (fun r =>
      ∃ map, EquivocationRegistry.decode (recordAt s (equivocationRegistryAddress blake3)) = .ok map ∧
        hash ∉ map ∧
        r = forfeitSafetyBond blake3 (s.writeBytesUnchecked (equivocationRegistryAddress blake3)
          (EquivocationRegistry.encode (map.insert hash ⟨kind, 0⟩)))) := by
  refine (guarded_decodeRecord_bind fun map _ => guarded_fetch_bind fun _ _ =>
    guarded_run _ _).congr fun r => ?_
  simp only [checkUnrecorded_eq_ok_iff, exists_const]
  exact Iff.rfl

/-- The ejection is recorded before the bounty is paid. -/
theorem applyEjectSequencer_guarded (id : Bytes32) (ejector : Address) :
    Guarded (applyEjectSequencer blake3 id ejector) s (fun r =>
      ∃ map, EjectRegistry.decode (recordAt s (ejectionRegistryAddress blake3)) = .ok map ∧
        id ∉ map ∧ ¬ isReserved blake3 ejector = true ∧
        (∃ obligations obligation,
          ForceInclude.decodeMap (recordAt s (forceIncludeRegistryAddress blake3)) = .ok obligations ∧
          obligations[id]? = some obligation ∧ obligation.status = .slashed) ∧
        r = (read (fun s => s.balance (sequencerBondAddress blake3))
          >>= fun bond => payBounty blake3 ejector (snitchBountyAmount (livenessSlashAmount bond)))
            (s.writeBytesUnchecked (ejectionRegistryAddress blake3)
              (EjectRegistry.encode (map.insert id ⟨ejector⟩)))) := by
  refine (guarded_failIf_bind fun _ => guarded_decodeRecord_bind fun obligations _ =>
    guarded_getOr_bind fun obligation _ => guarded_failIf_bind fun _ =>
      guarded_decodeRecord_bind fun map _ => guarded_failIf_bind fun _ =>
        guarded_run _ _).congr fun r => ?_
  simp only [not_not]
  constructor
  · rintro ⟨hej, obligations, hdec, obligation, hob, hslashed, map, hmap, hid, hr⟩
    exact ⟨map, hmap, hid, hej, ⟨obligations, obligation, hdec, hob, hslashed⟩, hr⟩
  · rintro ⟨map, hmap, hid, hej, ⟨obligations, obligation, hdec, hob, hslashed⟩, hr⟩
    exact ⟨hej, obligations, hdec, obligation, hob, hslashed, map, hmap, hid, hr⟩

section Assets
variable {assetId : Bytes32}

theorem applyAddBridgeAsset_guarded (chain : UInt64) (contract : List UInt8) (decimals : UInt8)
    (name symbol : List UInt8) :
    Guarded (applyAddBridgeAsset blake3 chain contract decimals name symbol) s (fun r =>
      ∃ assets, AssetRegistry.decode (recordAt s (assetRegistryAddress blake3)) = .ok assets ∧
        AssetRegistry.assetId blake3 chain contract ∉ assets ∧
        AssetRegistry.Capped ⟨chain, contract, decimals, name, symbol, .active⟩ ∧
        r = (.ok (), s.writeBytesUnchecked (assetRegistryAddress blake3) (AssetRegistry.encode
          (assets.insert (AssetRegistry.assetId blake3 chain contract)
            ⟨chain, contract, decimals, name, symbol, .active⟩)))) := by
  refine (guarded_failIf_bind fun _ => guarded_failIf_bind fun _ => guarded_failIf_bind fun _ =>
    guarded_decodeRecord_bind fun assets _ => guarded_failIf_bind fun _ =>
      guarded_run _ _).congr fun r => ?_
  constructor
  · rintro ⟨hcontract, hname, hsymbol, assets, hdec, hnew, hr⟩
    exact ⟨assets, hdec, hnew, ⟨not_lt.mp hcontract, not_lt.mp hname, not_lt.mp hsymbol⟩, hr⟩
  · rintro ⟨assets, hdec, hnew, ⟨hcontract, hname, hsymbol⟩, hr⟩
    exact ⟨not_lt.mpr hcontract, not_lt.mpr hname, not_lt.mpr hsymbol, assets, hdec, hnew, hr⟩

theorem setAssetStatus_guarded (status : AssetStatus) :
    Guarded (setAssetStatus blake3 assetId status) s (fun r =>
      ∃ assets asset, AssetRegistry.decode (recordAt s (assetRegistryAddress blake3)) = .ok assets ∧
        assets[assetId]? = some asset ∧
        r = (.ok (), s.writeBytesUnchecked (assetRegistryAddress blake3)
          (AssetRegistry.encode (assets.insert assetId { asset with status })))) := by
  refine (guarded_decodeRecord_bind fun assets _ => guarded_getOr_bind fun asset _ =>
    guarded_run _ _).congr fun r => ?_
  simp only [← exists_and_left]
  exact Iff.rfl

end Assets

end SuwappuDag.Execution
