/-
  WHAT AN INTENT MAY TOUCH.

  1. **Accounts** — the twenty reserved addresses under their names.  Different accounts are different
     addresses (`Account.address_injective`), so questions about addresses become questions about
     names.
  2. **Footprint** — for each intent: the one record it may write, the protocol accounts whose balance
     it may move, and the addresses it moves WITHOUT the reserved-address gate.  Only `L1Lock` and
     `GenesisAllocation` have such; what a gated arm does to unreserved users is left open.
  3. **Crux** — `Footprint.Allows`: a relation that allows every single write inside a footprint.  What an
     intent does is then a matter of showing once that it makes no other writes.
-/
import SuwappuDag.Execution.RingChanges

namespace SuwappuDag.Execution

open Words Command Reserved InMemorySubstrate
open Std (ExtTreeMap)

/-! ## Accounts -/

/-- A protocol-owned account. -/
inductive Account where
  | l2Registry
  | insurancePool
  | treasury
  | bridgeEscrow
  | forceIncludeRegistry
  | sequencerBond
  | safetyBond
  | assetRegistry
  | ejectionRegistry
  | burnNullifierRegistry
  | equivocationRegistry
  | authorityRegistry
  | validatorRegistry
  | authorityStakePool
  | validatorStakePool
  | authorityRewardsPool
  | validatorRewardsPool
  | inflationRegistry
  | rewardsDistributionRegistry
  | validatorDelegationRegistry
deriving DecidableEq, Repr

namespace Account

/-- In the order of the source's check. -/
def all : List Account :=
  [ .l2Registry, .insurancePool, .treasury, .bridgeEscrow, .forceIncludeRegistry, .sequencerBond,
    .safetyBond, .assetRegistry, .ejectionRegistry, .burnNullifierRegistry, .equivocationRegistry,
    .authorityRegistry, .validatorRegistry, .authorityStakePool, .validatorStakePool,
    .authorityRewardsPool, .validatorRewardsPool, .inflationRegistry, .rewardsDistributionRegistry,
    .validatorDelegationRegistry ]

theorem mem_all (account : Account) : account ∈ all := by
  cases account <;> decide

variable (blake3 : List UInt8 → Bytes32)

def address : Account → Address
  | .l2Registry => l2RegistryAddress blake3
  | .insurancePool => insurancePoolAddress blake3
  | .treasury => treasuryAddress blake3
  | .bridgeEscrow => bridgeEscrowAddress blake3
  | .forceIncludeRegistry => forceIncludeRegistryAddress blake3
  | .sequencerBond => sequencerBondAddress blake3
  | .safetyBond => safetyBondAddress blake3
  | .assetRegistry => assetRegistryAddress blake3
  | .ejectionRegistry => ejectionRegistryAddress blake3
  | .burnNullifierRegistry => burnNullifierRegistryAddress blake3
  | .equivocationRegistry => equivocationRegistryAddress blake3
  | .authorityRegistry => authorityRegistryAddress blake3
  | .validatorRegistry => validatorRegistryAddress blake3
  | .authorityStakePool => authorityStakePoolAddress blake3
  | .validatorStakePool => validatorStakePoolAddress blake3
  | .authorityRewardsPool => authorityRewardsPoolAddress blake3
  | .validatorRewardsPool => validatorRewardsPoolAddress blake3
  | .inflationRegistry => inflationRegistryAddress blake3
  | .rewardsDistributionRegistry => rewardsDistributionRegistryAddress blake3
  | .validatorDelegationRegistry => validatorDelegationRegistryAddress blake3

theorem map_address_all : all.map (address blake3) = Reserved.all blake3 := rfl

variable {blake3}

theorem address_injective (h : ReservedDistinct blake3) : Function.Injective (address blake3) := by
  intro a b hab
  have hnd : (all.map (address blake3)).Nodup := h
  exact List.inj_on_of_nodup_map hnd (mem_all a) (mem_all b) hab

theorem address_ne (h : ReservedDistinct blake3) {a b : Account} (hab : a ≠ b) :
    a.address blake3 ≠ b.address blake3 := (address_injective h).ne hab

theorem isReserved_iff {addr : Address} :
    isReserved blake3 addr = true ↔ ∃ a : Account, a.address blake3 = addr := by
  rw [isReserved, List.contains_iff_mem, ← map_address_all, List.mem_map]
  exact ⟨fun ⟨a, _, ha⟩ => ⟨a, ha⟩, fun ⟨a, ha⟩ => ⟨a, mem_all a, ha⟩⟩

theorem ne_of_not_isReserved {addr : Address} (h : ¬ isReserved blake3 addr = true) (a : Account) :
    a.address blake3 ≠ addr := fun heq => h (isReserved_iff.mpr ⟨a, heq⟩)

end Account

namespace Ring

def registry : Ring → Account
  | .authority => .authorityRegistry
  | .validator => .validatorRegistry

def stakePool : Ring → Account
  | .authority => .authorityStakePool
  | .validator => .validatorStakePool

def rewardsPool : Ring → Account
  | .authority => .authorityRewardsPool
  | .validator => .validatorRewardsPool

variable (blake3 : List UInt8 → Bytes32) (ring : Ring)

theorem address_registry : ring.registry.address blake3 = ring.registryAddress blake3 := by
  cases ring <;> rfl

theorem address_stakePool : ring.stakePool.address blake3 = ring.stakePoolAddress blake3 := by
  cases ring <;> rfl

theorem address_rewardsPool : ring.rewardsPool.address blake3 = ring.rewardsPoolAddress blake3 := by
  cases ring <;> rfl

end Ring

/-! ## Records -/

/-- The bytes are the encoding of a valid table of `n` entries. -/
def TableOf {μ : Type} (encode : μ → List UInt8) (Valid : μ → Prop) (size : μ → Nat) (n : Nat)
    (bytes : List UInt8) : Prop := ∃ m, Valid m ∧ size m = n ∧ bytes = encode m

/-- What is ever written to an account's record: a table of `n` entries, or the watermarks of the two
    epoch registries.  Pools have no record. -/
def Account.Encodes (n : Nat) (bytes : List UInt8) : Account → Prop
  | .l2Registry => TableOf L2Registry.encode (fun _ => True)
      (fun reg => max reg.chainVks.size reg.stateRoots.size) n bytes
  | .forceIncludeRegistry =>
    TableOf ForceInclude.encodeMap (fun _ => True) ExtTreeMap.size n bytes
  | .assetRegistry => TableOf AssetRegistry.encode
      (fun assets => ∀ e ∈ assets.toList, AssetRegistry.Capped e.2) ExtTreeMap.size n bytes
  | .ejectionRegistry => TableOf EjectRegistry.encode (fun _ => True) ExtTreeMap.size n bytes
  | .burnNullifierRegistry => TableOf BurnNullifier.encode (fun _ => True) ExtTreeMap.size n bytes
  | .equivocationRegistry =>
    TableOf EquivocationRegistry.encode (fun _ => True) ExtTreeMap.size n bytes
  | .authorityRegistry => TableOf AuthorityRegistry.encode
      (fun map => ∀ e ∈ map.toList, RingRegistry.Capped e.2) ExtTreeMap.size n bytes
  | .validatorRegistry => TableOf ValidatorRegistry.encode
      (fun map => ∀ e ∈ map.toList, RingRegistry.Capped e.2) ExtTreeMap.size n bytes
  | .validatorDelegationRegistry => TableOf DelegationRegistry.encode DelegationRegistry.Positive
      ExtTreeMap.size n bytes
  | .inflationRegistry => n = 0 ∧ ∃ epoch : UInt64, bytes = beBytes 8 epoch.toNat
  | .rewardsDistributionRegistry =>
    n = 0 ∧ ∃ authority validator : UInt64, bytes = beBytes 8 authority.toNat
      ++ beBytes 8 validator.toNat
  | _ => False

theorem tableOf_encode {μ : Type} {encode : μ → List UInt8} {Valid : μ → Prop} {size : μ → Nat}
    {m : μ} (h : Valid m) : TableOf encode Valid size (size m) (encode m) := ⟨m, h, rfl, rfl⟩

theorem Ring.encodes {ring : Ring} {map : RingMap} (h : ∀ e ∈ map.toList, RingRegistry.Capped e.2) :
    ring.registry.Encodes map.size (ring.encode map) := by
  cases ring with
  | authority => exact tableOf_encode h
  | validator => exact tableOf_encode h

/-! ## Footprints -/

/-- What an intent may touch. -/
structure Footprint where
  /-- The record it may write. -/
  record : Option Account
  /-- The protocol accounts whose balance it may move. -/
  pools : List Account
  /-- The addresses it may move without asking whether they are reserved. -/
  ungated : List Address

/-- The footprint of the arms that work on a ring's slots. -/
def Ring.footprint (ring : Ring) (pools : List Account) : Footprint := ⟨ring.registry, pools, []⟩

section Footprints

variable (blake3 : List UInt8 → Bytes32)

def Intent.footprint : Intent → Footprint
  | .transfer .. => ⟨none, [], []⟩
  | .genesisAllocation allocations => ⟨none, [], allocations.map Prod.fst⟩
  | .mintInflation .. =>
    ⟨some .inflationRegistry, [.authorityRewardsPool, .validatorRewardsPool, .treasury], []⟩
  | .distributeRewards _ ring _ => ⟨some .rewardsDistributionRegistry, [ring.rewardsPool], []⟩
  | .delegate .. => ⟨some .validatorDelegationRegistry, [.validatorStakePool], []⟩
  | .admitAuthority .. => Ring.authority.footprint []
  | .exitAuthority .. => Ring.authority.footprint []
  | .ejectAuthority .. => Ring.authority.footprint [.authorityStakePool, .insurancePool, .treasury]
  | .admitValidator .. => Ring.validator.footprint []
  | .exitValidator .. => Ring.validator.footprint []
  | .ejectValidator .. => Ring.validator.footprint [.validatorStakePool, .insurancePool, .treasury]
  | .commitL2StateRoot .. => ⟨some .l2Registry, [], []⟩
  | .setL2VerifyingKey .. => ⟨some .l2Registry, [], []⟩
  | .l1Lock user _ _ _ => ⟨none, [.bridgeEscrow], [user]⟩
  | .l2BurnProven .. => ⟨some .burnNullifierRegistry, [.bridgeEscrow], []⟩
  | .l2ForceInclude .. => ⟨some .forceIncludeRegistry, [], []⟩
  | .slashSequencer .missedForceInclude _ =>
    ⟨some .forceIncludeRegistry, [.sequencerBond, .insurancePool, .treasury], []⟩
  | .slashSequencer .equivocation _ =>
    ⟨some .equivocationRegistry, [.safetyBond, .insurancePool, .treasury], []⟩
  | .slashSequencer .invalidBatch _ =>
    ⟨some .equivocationRegistry, [.safetyBond, .insurancePool, .treasury], []⟩
  | .slashSequencer .downtime _ => ⟨none, [], []⟩
  | .markForceIncludeHonored _ => ⟨some .forceIncludeRegistry, [], []⟩
  | .ejectSequencer .. => ⟨some .ejectionRegistry, [.treasury], []⟩
  | .depositSequencerBond .. => ⟨none, [.sequencerBond], []⟩
  | .depositSafetyBond .. => ⟨none, [.safetyBond], []⟩
  | .depositAuthorityStake .. => Ring.authority.footprint [.authorityStakePool]
  | .depositValidatorStake .. => Ring.validator.footprint [.validatorStakePool]
  | .withdrawAuthorityStake .. => Ring.authority.footprint [.authorityStakePool]
  | .withdrawValidatorStake .. => Ring.validator.footprint [.validatorStakePool]
  | .disburseTreasury .. => ⟨none, [.treasury], []⟩
  | .claimInsurance .. => ⟨none, [.insurancePool], []⟩
  | .postL2DA .. => ⟨none, [], []⟩
  | .distributeSlashedFunds .. => ⟨none, [.insurancePool, .treasury], []⟩
  | .addBridgeAsset .. => ⟨some .assetRegistry, [], []⟩
  | .pauseBridgeAsset _ => ⟨some .assetRegistry, [], []⟩
  | .removeBridgeAsset _ => ⟨some .assetRegistry, [], []⟩

namespace Footprint

variable (fp : Footprint)

/-- The footprint allows to write the record at `addr`. -/
def Writes (addr : Address) : Prop := ∃ account ∈ fp.record, account.address blake3 = addr

/-- The footprint allows to move the balance of `addr`: a user's, or that of an account it lists. -/
def Moves (addr : Address) : Prop :=
  ∀ account : Account, account.address blake3 = addr → account ∈ fp.pools ∨ addr ∈ fp.ungated

/-- `t` differs from `s` inside the footprint only. -/
structure Touches (s t : InMemorySubstrate) : Prop where
  height : t.currentBlockHeight = s.currentBlockHeight
  record : ∀ addr, ¬ fp.Writes blake3 addr → recordAt t addr = recordAt s addr
  balance : ∀ addr, ¬ fp.Moves blake3 addr → t.balance addr = s.balance addr

end Footprint

end Footprints

theorem recordAt_write (s : InMemorySubstrate) (addr : Address) (bytes : List UInt8) :
    recordAt (s.writeBytesUnchecked addr bytes) addr = bytes := by
  rw [recordAt, readBytes_writeBytesUnchecked, if_pos rfl]

theorem recordAt_write_of_ne {s : InMemorySubstrate} {addr a : Address} (h : a ≠ addr) (bytes : List UInt8) :
    recordAt (s.writeBytesUnchecked addr bytes) a = recordAt s a := by
  rw [recordAt, readBytes_writeBytesUnchecked, if_neg h]
  rfl

namespace Footprint

variable {blake3 : List UInt8 → Bytes32} {fp : Footprint} {s t : InMemorySubstrate}

instance : IsPreorder InMemorySubstrate (fp.Touches blake3) where
  refl _ := ⟨rfl, fun _ _ => rfl, fun _ _ => rfl⟩
  trans _ _ _ hst htu :=
    ⟨htu.height.trans hst.height, fun a ha => (htu.record a ha).trans (hst.record a ha),
      fun a ha => (htu.balance a ha).trans (hst.balance a ha)⟩

theorem writes_record {account : Account} (h : fp.record = some account) :
    fp.Writes blake3 (account.address blake3) := ⟨account, h, rfl⟩

theorem moves_user {addr : Address} (h : ¬ isReserved blake3 addr = true) : fp.Moves blake3 addr :=
  fun account haddr => absurd haddr (account.ne_of_not_isReserved h)

theorem moves_ungated {addr : Address} (h : addr ∈ fp.ungated) : fp.Moves blake3 addr :=
  fun _ _ => Or.inr h

theorem moves_pool (hres : ReservedDistinct blake3) {a : Account} (h : a ∈ fp.pools) :
    fp.Moves blake3 (a.address blake3) :=
  fun _ haddr => Or.inl (Account.address_injective hres haddr ▸ h)

/-- The record of an account outside the footprint is what it was. -/
theorem Touches.record_eq (h : fp.Touches blake3 s t) (hres : ReservedDistinct blake3)
    {a : Account} (hout : fp.record ≠ some a) :
    recordAt t (a.address blake3) = recordAt s (a.address blake3) := by
  refine h.record _ ?_
  rintro ⟨other, hother, haddr⟩
  rw [Account.address_injective hres haddr] at hother
  exact hout hother

/-- The balance of an account outside the footprint is what it was. -/
theorem Touches.balance_eq (h : fp.Touches blake3 s t) {a : Account} (hpool : a ∉ fp.pools)
    (hungated : a.address blake3 ∉ fp.ungated) :
    t.balance (a.address blake3) = s.balance (a.address blake3) := by
  refine h.balance _ fun hmoves => ?_
  rcases hmoves a rfl with hin | hin
  · exact hpool hin
  · exact hungated hin

/-! ## The writes -/

/-- Only balances change, and only at addresses that satisfy `M`. -/
structure OnlyMoves (M : Address → Prop) (s t : InMemorySubstrate) : Prop where
  height : t.currentBlockHeight = s.currentBlockHeight
  records : t.bytesState = s.bytesState
  balance : ∀ addr, ¬ M addr → t.balance addr = s.balance addr

instance (M : Address → Prop) : IsPreorder InMemorySubstrate (OnlyMoves M) where
  refl _ := ⟨rfl, rfl, fun _ _ => rfl⟩
  trans _ _ _ hst htu := ⟨htu.height.trans hst.height, htu.records.trans hst.records,
    fun a ha => (htu.balance a ha).trans (hst.balance a ha)⟩

theorem OnlyMoves.recordAt_eq {M : Address → Prop} (h : OnlyMoves M s t) (addr : Address) :
    recordAt t addr = recordAt s addr := by rw [recordAt, readBytes, h.records]; rfl

theorem OnlyMoves.touches (h : OnlyMoves (fp.Moves blake3) s t) : fp.Touches blake3 s t :=
  ⟨h.height, fun addr _ => h.recordAt_eq addr, h.balance⟩

/-- The relation holds of every change of a balance at an address that satisfies `M`. -/
structure Permits (M : Address → Prop) (R : InMemorySubstrate → InMemorySubstrate → Prop) : Prop where
  insert : ∀ {s : InMemorySubstrate} {addr : Address}, M addr →
    ∀ {v : Balance}, v ≠ 0 → R s (s.insertBalance addr v)
  store : ∀ {s : InMemorySubstrate} {addr : Address}, M addr → ∀ v, R s (s.storeBalance addr v)
  staged : ∀ {s : InMemorySubstrate} {staged : ExtTreeMap Address Balance},
    (∀ (a : Address) (v : Balance), staged[a]? = some v → M a ∧ v ≠ 0) → R s (s.insertStaged staged)

theorem permits_onlyMoves (M : Address → Prop) : Permits M (OnlyMoves M) where
  insert {s addr} h v _ := by
    refine ⟨rfl, rfl, fun a ha => ?_⟩
    rw [balance_insertBalance, Function.update_of_ne]
    rintro rfl
    exact ha h
  store {s addr} h v := by
    refine ⟨?_, bytesState_storeBalance .., fun a ha => ?_⟩
    · unfold storeBalance
      split <;> rfl
    · rw [balance_storeBalance, Function.update_of_ne]
      rintro rfl
      exact ha h
  staged {s staged} h := by
    refine ⟨rfl, rfl, fun a ha => ?_⟩
    rw [balance_insertStaged]
    show staged[a]?.getD _ = _
    cases hv : staged[a]? with
    | none => rfl
    | some v => exact absurd (h a v hv).1 ha

theorem touches_writeBytes {addr : Address} (h : fp.Writes blake3 addr) (bytes : List UInt8) :
    fp.Touches blake3 s (s.writeBytesUnchecked addr bytes) where
  height := by
    unfold writeBytesUnchecked
    split <;> rfl
  record a ha := recordAt_write_of_ne (by rintro rfl; exact ha h) bytes
  balance a _ := by rw [balance_writeBytesUnchecked]

/-! ## Writes inside a footprint -/

/-- The relation allows every write inside the footprint.  A record is only written as the encoding of
    a table, and no write of a balance that is inserted without a look is a write of zero. -/
structure Allows (blake3 : List UInt8 → Bytes32) (fp : Footprint)
    (R : InMemorySubstrate → InMemorySubstrate → Prop) : Prop where
  record : ∀ {s : InMemorySubstrate} {account : Account}, fp.record = some account →
    ∀ {n : Nat} {bytes : List UInt8}, account.Encodes n bytes →
    R s (s.writeBytesUnchecked (account.address blake3) bytes)
  insert : ∀ {s : InMemorySubstrate} {addr : Address}, fp.Moves blake3 addr →
    ∀ {v : Balance}, v ≠ 0 → R s (s.insertBalance addr v)
  store : ∀ {s : InMemorySubstrate} {addr : Address}, fp.Moves blake3 addr →
    ∀ v, R s (s.storeBalance addr v)
  staged : ∀ {s : InMemorySubstrate} {staged : ExtTreeMap Address Balance},
    (∀ (a : Address) (v : Balance), staged[a]? = some v → fp.Moves blake3 a ∧ v ≠ 0) →
    R s (s.insertStaged staged)

theorem Allows.permits {R : InMemorySubstrate → InMemorySubstrate → Prop} (h : Allows blake3 fp R) :
    Permits (fp.Moves blake3) R := ⟨h.insert, h.store, h.staged⟩

/-- The writes of a footprint touch only what is in it. -/
theorem allows_touches (blake3 : List UInt8 → Bytes32) (fp : Footprint) :
    Allows blake3 fp (fp.Touches blake3) where
  record h _ _ _ := touches_writeBytes (writes_record h) _
  insert h _ hv := ((permits_onlyMoves _).insert h hv).touches
  store h v := ((permits_onlyMoves _).store h v).touches
  staged h := ((permits_onlyMoves _).staged h).touches

/-- A sum with an amount that is not zero is not zero. -/
theorem addOr_ne_zero {e : ExecutionError} {a b v : Balance} (hb : b ≠ 0) (h : addOr e a b = .ok v) :
    v ≠ 0 := by
  rintro rfl
  have hsum := addOr_eq_ok_iff.mp h
  have hzero : (0 : Balance).toNat = 0 := rfl
  exact hb (BitVec.eq_of_toNat_eq (by omega))

/-- Only recipients are staged, and no zeros. -/
theorem stageCredits_staged {base : Address → Balance} {credits : List (Address × Balance)}
    {staged staged' : ExtTreeMap Address Balance}
    (h : stageCredits base credits staged = .ok staged') {addr : Address} {v : Balance}
    (haddr : staged'[addr]? = some v) :
    staged[addr]? = some v ∨ addr ∈ credits.map Prod.fst ∧ v ≠ 0 := by
  induction credits generalizing staged with
  | nil =>
    cases h
    exact Or.inl haddr
  | cons c credits ih =>
    rw [stageCredits] at h
    rw [List.map_cons, List.mem_cons]
    split at h
    · exact (ih h).imp_right fun hmem => ⟨.inr hmem.1, hmem.2⟩
    · next h0 =>
      cases hadd : addOr (.distributionOverflow c.1) (staged[c.1]?.getD (base c.1)) c.2 with
      | error e =>
        rw [hadd] at h
        cases h
      | ok new =>
        rw [hadd] at h
        rcases ih h with hmem | hmem
        · rw [ExtTreeMap.getElem?_insert] at hmem
          split at hmem
          · next heq =>
            cases hmem
            exact Or.inr ⟨.inl (compare_eq_iff_eq.mp heq).symm, addOr_ne_zero h0 hadd⟩
          · exact Or.inl hmem
        · exact Or.inr ⟨.inr hmem.1, hmem.2⟩

/-- A check of a list against the reserved addresses lets only lists of users through. -/
theorem rejectReserved_eq_ok {e : Address → ExecutionError} {addrs : List Address} {u : Unit}
    (h : rejectReserved blake3 e addrs s = (.ok u, t)) :
    (∀ a ∈ addrs, ¬ isReserved blake3 a = true) ∧ t = s := by
  obtain ⟨hfind, rfl⟩ := fetch_eq_ok_iff.mp h
  refine ⟨fun a ha hres => ?_, rfl⟩
  split at hfind
  · cases hfind
  · next hnone => exact absurd hres (List.find?_eq_none.mp hnone a ha)

theorem moves_stakePool (hres : ReservedDistinct blake3) {ring : Ring} {pools : List Account}
    (hpools : ring.stakePool :: pools ⊆ fp.pools) :
    fp.Moves blake3 (ring.stakePoolAddress blake3) := by
  rw [← Ring.address_stakePool]
  exact moves_pool hres (hpools List.mem_cons_self)

end Footprint

end SuwappuDag.Execution
