/-
  WHAT EVERY INTENT DOES, SAID ONCE.

  Each helper and each arm is gone through a single time, by the rules of `Ends`, and three things are
  read off together:
  1. **Writes** — it makes writes of its footprint only, also when it fails half way, so it leads along
     every relation that allows those (`applyIntent_leads`, `applyIntent_touches`).  A registry or a pool
     therefore has to answer to the few intents that name it, and to no other.
  2. **Errors** — it answers `CorruptStateRecord` only where a record that is read does not decode; all
     its other errors are its own (`applyIntent_plain`).
  3. **Money** — when it succeeds, the supply has moved by what it mints (`applyIntent_shifts`): only
     `GenesisAllocation`, `MintInflation` and `DistributeSlashedFunds` create any, and exactly the sum of
     their shares.
-/
import SuwappuDag.Execution.Effects
import SuwappuDag.Execution.Footprint

namespace SuwappuDag.Execution

open Words Command Reserved InMemorySubstrate Footprint
open Std (ExtTreeMap)

/-! ## Corrupt records -/

def ExecutionError.isCorrupt : ExecutionError → Bool
  | .corruptStateRecord .. => true
  | _ => false

/-- Not the error of a corrupt record. -/
def Plain (e : ExecutionError) : Prop := e.isCorrupt = false

/-- The decoder that the account's record is read with accepts the bytes. -/
def Account.Decodes (bytes : List UInt8) : Account → Prop
  | .l2Registry => ∃ reg, L2Registry.decode bytes = .ok reg
  | .forceIncludeRegistry => ∃ map, ForceInclude.decodeMap bytes = .ok map
  | .assetRegistry => ∃ assets, AssetRegistry.decode bytes = .ok assets
  | .ejectionRegistry => ∃ map, EjectRegistry.decode bytes = .ok map
  | .burnNullifierRegistry => ∃ set, BurnNullifier.decode bytes = .ok set
  | .equivocationRegistry => ∃ map, EquivocationRegistry.decode bytes = .ok map
  | .authorityRegistry => ∃ map, AuthorityRegistry.decode bytes = .ok map
  | .validatorRegistry => ∃ map, ValidatorRegistry.decode bytes = .ok map
  | .validatorDelegationRegistry => ∃ map, DelegationRegistry.decode bytes = .ok map
  | .inflationRegistry => ∃ epoch, decodeInflation bytes = .ok epoch
  | .rewardsDistributionRegistry => ∃ last, decodeRewards bytes = .ok last
  | _ => True

/-- Every registry of the state can be read. -/
def Readable (blake3 : List UInt8 → Bytes32) (s : InMemorySubstrate) : Prop :=
  ∀ account : Account, account.Decodes (recordAt s (account.address blake3))

theorem Readable.ring {blake3 : List UInt8 → Bytes32} {s : InMemorySubstrate}
    (h : Readable blake3 s) (ring : Ring) :
    ∃ map, ring.decode (recordAt s (ring.registryAddress blake3)) = .ok map := by
  cases ring with
  | authority => exact h .authorityRegistry
  | validator => exact h .validatorRegistry

/-- The errors of `E` are enough at `s`: all plain ones are among them, and all there are where some
    registry cannot be read. -/
structure Admits (blake3 : List UInt8 → Bytes32) (s : InMemorySubstrate) (E : ExecutionError → Prop) :
    Prop where
  plain : ∀ {e}, Plain e → E e
  corrupt : ¬ Readable blake3 s → ∀ e, E e

/-! ## Errors of the checks -/

section Errors

variable {E : ExecutionError → Prop} {e : ExecutionError}

theorem addOr_errs {a b : Balance} (he : E e) (e' : ExecutionError) (h : addOr e a b = .error e') :
    E e' := (addOr_eq_error_iff.mp h).2 ▸ he

theorem toU64Or_errs {amount : Balance} (he : E e) (e' : ExecutionError)
    (h : toU64Or e amount = .error e') : E e' := by
  unfold toU64Or at h
  split_ifs at h
  exact Except.error.inj h ▸ he

theorem addU64Or_errs {a b : UInt64} (he : E e) (e' : ExecutionError)
    (h : addU64Or e a b = .error e') : E e' := by
  unfold addU64Or at h
  split_ifs at h
  exact Except.error.inj h ▸ he

theorem stageCredits_plain {base : Address → Balance} {credits : List (Address × Balance)}
    {staged : ExtTreeMap Address Balance} (e : ExecutionError)
    (h : stageCredits base credits staged = .error e) : Plain e := by
  induction credits generalizing staged with
  | nil => cases h
  | cons c credits ih =>
    rw [stageCredits] at h
    split at h
    · exact ih h
    · split at h
      · exact ih h
      · next hadd =>
        cases h
        exact addOr_errs (E := Plain) (e := .distributionOverflow c.1) rfl e hadd

theorem totalOr_errs {credits : List (Address × Balance)} {total : Balance} (he : E e)
    (e' : ExecutionError) (h : totalOr e credits total = .error e') : E e' := by
  induction credits generalizing total with
  | nil => cases h
  | cons c credits ih =>
    rw [totalOr] at h
    split at h
    · exact ih h
    · next hadd =>
      cases h
      exact addOr_errs he e' hadd

theorem assertBridgeAssetActive_plain {blake3 : List UInt8 → Bytes32} {s : InMemorySubstrate}
    {assetId : Option Bytes32} (e : ExecutionError)
    (h : assertBridgeAssetActive blake3 assetId s = .error e) : Plain e := by
  unfold assertBridgeAssetActive at h
  split at h
  · cases h
  · split at h
    · cases h
      rfl
    · split at h
      · cases h
      · cases h
        rfl

end Errors

/-! ## The helpers -/

section Contracts

variable {blake3 : List UInt8 → Bytes32} {fp : Footprint} {s : InMemorySubstrate}
  {R : InMemorySubstrate → InMemorySubstrate → Prop} [IsPreorder InMemorySubstrate R]
  {E : ExecutionError → Prop} {d : ℤ}

/-! ### Checks -/

theorem ends_decodeRecord_bind {α β : Type} {addr : Address} {decode : List UInt8 → Except String α}
    {k : α → Exec β} (hE : Admits blake3 s E)
    (hread : Readable blake3 s → ∃ a, decode (recordAt s addr) = .ok a)
    (hk : ∀ a, decode (recordAt s addr) = .ok a → Ends R E supplyInt d (k a) s) :
    Ends R E supplyInt d (decodeRecord addr decode >>= k) s := by
  refine ends_fetch_bind (fun e he => ?_) fun a ha => hk a (mapError_eq_ok_iff.mp ha)
  by_cases hreadable : Readable blake3 s
  · obtain ⟨a, ha⟩ := hread hreadable
    obtain ⟨e', he', -⟩ := mapError_eq_error_iff.mp he
    cases ha.symm.trans he'
  · exact hE.corrupt hreadable e

theorem ends_getOr_bind {κ ν β : Type} [Ord κ] [Std.TransOrd κ] {map : ExtTreeMap κ ν} {key : κ}
    {e : ExecutionError} {k : ν → Exec β} (he : E e)
    (hk : ∀ v, map[key]? = some v → Ends R E supplyInt d (k v) s) :
    Ends R E supplyInt d ((fetch fun _ => getOr e map key) >>= k) s :=
  ends_fetch_bind (fun _ h => (getOr_eq_error_iff.mp h).2 ▸ he) fun v hv =>
    hk v (getOr_eq_ok_iff.mp hv)

theorem ends_rejectReserved_bind {β : Type} {e : Address → ExecutionError} {addrs : List Address}
    {k : Unit → Exec β} (he : ∀ a, E (e a))
    (hk : (∀ a ∈ addrs, ¬ isReserved blake3 a = true) → Ends R E supplyInt d (k ()) s) :
    Ends R E supplyInt d (rejectReserved blake3 e addrs >>= k) s := by
  refine ends_fetch_bind (fun e' h => ?_) fun u hu => hk (rejectReserved_eq_ok (t := s)
    (fetch_eq_ok_iff.mpr ⟨hu, rfl⟩)).1
  split at h
  · cases h
    exact he _
  · cases h

/-! ### Balances -/

section Balances

variable {M : Address → Prop} (hM : Permits M R) (hplain : ∀ {e}, Plain e → E e)

include hM hplain

theorem creditUnchecked_ends {addr : Address} (h : M addr) (amount : Balance) :
    Ends R E supplyInt amount.toNat (creditUnchecked addr amount) s := by
  refine ends_ite (fun h0 => ?_) fun h0 => ends_fetch_bind (addOr_errs (hplain rfl)) fun v hv =>
    ends_write (hM.insert h (addOr_ne_zero h0 hv)) ?_
  · rw [h0]
    exact ends_pure ()
  · rw [supplyInt_of_update (balance_insertBalance s addr v), addOr_eq_ok_iff.mp hv]
    push_cast
    ring

theorem debitUnchecked_ends {addr : Address} (h : M addr) (amount : Balance) :
    Ends R E supplyInt (-amount.toNat) (debitUnchecked addr amount) s := by
  refine ends_ite (fun h0 => ?_) fun _ => ends_read_bind <| ends_failIf_bind (hplain rfl) fun hlt =>
    ends_write (hM.store h _) ?_
  · rw [h0]
    exact ends_pure ()
  · have hle' : amount.toNat ≤ (s.balance addr).toNat := not_lt.mp hlt
    rw [supplyInt_of_update (balance_storeBalance s addr _), BitVec.toNat_sub_of_le (not_lt.mp hlt)]
    push_cast [hle']
    ring

theorem debitThenCredit_ends {source dest : Address} (hsource : M source)
    (hdest : M dest) (amount : Balance) :
    Ends R E supplyInt 0 (debitThenCredit source dest amount) s := by
  have h := (debitUnchecked_ends (s := s) hM hplain hsource amount).bind fun _ _ _ =>
    creditUnchecked_ends hM hplain hdest amount
  rwa [neg_add_cancel] at h

/-- The move that `Transfer` and `transfer_internal` make behind their checks; only the error of an
    overflow differs. -/
theorem move_ends {source dest : Address} (hsource : M source)
    (hdest : M dest) (amount : Balance) {overflow : ExecutionError}
    (hover : Plain overflow) :
    Ends R E supplyInt 0 (if amount = 0 then pure () else do
      let available ← read fun s => s.balance source
      failIf (available < amount) (.insufficientBalance source available amount)
      if source = dest then pure () else do
        let newDest ← fetch fun s => addOr overflow (s.balance dest) amount
        write fun s => (s.storeBalance source (available - amount)).insertBalance dest newDest) s := by
  refine ends_ite (fun _ => ends_pure ()) fun h0 => ends_read_bind <| ends_failIf_bind (hplain rfl)
    fun hlt => ends_ite (fun _ => ends_pure ()) fun hne =>
      ends_fetch_bind (addOr_errs (hplain hover)) fun v hv => ends_write ?_ ?_
  · exact IsTrans.trans s _ _ (hM.store hsource _) (hM.insert hdest (addOr_ne_zero h0 hv))
  · rw [supplyInt_move hne (not_lt.mp hlt) (addOr_eq_ok_iff.mp hv), add_zero]

theorem transferInternal_ends {source dest : Address} (hsource : M source)
    (hdest : M dest) (amount : Balance) :
    Ends R E supplyInt 0 (transferInternal source dest amount) s :=
  move_ends hM hplain hsource hdest amount rfl

omit [IsPreorder InMemorySubstrate R] hplain in
theorem permits_staged {base : Address → Balance} {credits : List (Address × Balance)}
    {staged : ExtTreeMap Address Balance} (h : stageCredits base credits ∅ = .ok staged)
    (hmoves : ∀ c ∈ credits, M c.1) : R s (s.insertStaged staged) := by
  refine hM.staged fun addr v haddr => ?_
  rcases stageCredits_staged h haddr with hmem | ⟨hmem, hv⟩
  · cases ExtTreeMap.getElem?_empty.symm.trans hmem
  · obtain ⟨c, hc, rfl⟩ := List.mem_map.mp hmem
    exact ⟨hmoves c hc, hv⟩

theorem creditManyAtomic_ends {credits : List (Address × Balance)}
    (h : ∀ c ∈ credits, M c.1) :
    Ends R E supplyInt (creditSum credits) (creditManyAtomic credits) s where
  leads := leads_fetch_bind fun _ hstaged => leads_write (permits_staged hM hstaged h)
  errs := errs_fetch_bind (fun e he => hplain (stageCredits_plain e he)) fun _ _ => errs_write _
  shifts := by
    intro u t hrun
    rw [supplyInt_eq_sum, supplyInt_eq_sum, ← sum_creditedTo, ← Finset.sum_add_distrib]
    refine Finset.sum_congr rfl fun a _ => ?_
    rw [creditManyAtomic_balance hrun a, Nat.cast_add]

theorem drainAndCreditAtomic_ends {source : Address} (hsource : M source)
    {credits : List (Address × Balance)} (h : ∀ c ∈ credits, M c.1) :
    Ends R E supplyInt 0 (drainAndCreditAtomic source credits) s where
  leads := by
    refine leads_fetch_bind fun total _ => leads_ite (fun _ => leads_pure ()) fun _ =>
      leads_read_bind <| leads_failIf_bind fun _ => leads_fetch_bind fun staged hstaged =>
        leads_write ?_
    refine IsTrans.trans s _ _ ?_ (permits_staged hM hstaged h)
    split
    · exact refl s
    · exact hM.store hsource _
  errs := errs_fetch_bind (totalOr_errs (hplain rfl)) fun _ _ => errs_ite (fun _ => errs_pure ())
    fun _ => errs_read_bind <| errs_failIf_bind (hplain rfl) fun _ =>
      errs_fetch_bind (fun e he => hplain (stageCredits_plain e he)) fun _ _ => errs_write _
  shifts := by
    intro u t hrun
    have hsum : supplyInt t = ∑ a, (((s.balance a).toNat : ℤ) + creditedTo credits a
        - if source = a then (creditSum credits : ℤ) else 0) := by
      rw [supplyInt_eq_sum]
      exact Finset.sum_congr rfl fun a _ => drainAndCreditAtomic_balance hrun a
    rw [hsum, Finset.sum_sub_distrib, Finset.sum_add_distrib, sum_creditedTo, ← supplyInt_eq_sum]
    simp

theorem creditEach_ends {credits : List (Address × Balance)}
    (h : ∀ c ∈ credits, M c.1) :
    Ends R E supplyInt (creditSum credits) (creditEach credits) s := by
  induction credits generalizing s with
  | nil => exact ends_pure ()
  | cons c credits ih =>
    rw [creditSum_cons, Nat.cast_add]
    exact (creditUnchecked_ends hM hplain (h c List.mem_cons_self) c.2).bind fun _ _ _ =>
      ih fun c' hc' => h c' (List.mem_cons_of_mem c hc')

/-! ### Slashes and bounties -/

omit [IsPreorder InMemorySubstrate R] hM hplain in
/-- The two pools take together what the bond loses. -/
theorem creditSum_waterfall (blake3 : List UInt8 → Bytes32) (amount : Balance) : creditSum (waterfall blake3 amount) = amount.toNat := by
  have hle : (insuranceShareOf amount).toNat ≤ amount.toNat := insuranceShareOf_le amount
  have hsub : (amount - insuranceShareOf amount).toNat =
      amount.toNat - (insuranceShareOf amount).toNat := BitVec.toNat_sub_of_le hle
  simp only [creditSum, waterfall, List.map_cons, List.map_nil, List.sum_cons, List.sum_nil, hsub]
  omega

variable (hins : M (insurancePoolAddress blake3)) (htre : M (treasuryAddress blake3))

include hins htre

omit [IsPreorder InMemorySubstrate R] hM hplain in
theorem permits_waterfall (amount : Balance) : ∀ c ∈ waterfall blake3 amount, M c.1 := by
  simpa [waterfall] using ⟨hins, htre⟩

theorem slashBond_ends {bond : Address} (hbond : M bond) (amount : Balance) :
    Ends R E supplyInt 0 (slashBond blake3 bond amount) s := by
  have h := (debitUnchecked_ends (s := s) hM hplain hbond amount).bind fun _ _ _ =>
    creditEach_ends hM hplain (permits_waterfall hins htre amount)
  rwa [creditSum_waterfall, neg_add_cancel] at h

omit hins in
theorem payBounty_ends {dest : Address} (hdest : M dest) (bounty : Balance) :
    Ends R E supplyInt 0 (payBounty blake3 dest bounty) s :=
  ends_ite (fun _ => ends_read_bind <| ends_ite
    (fun _ => debitThenCredit_ends hM hplain htre hdest _) fun _ => ends_pure ()) fun _ => ends_pure ()

theorem forfeitSafetyBond_ends (hbond : M (safetyBondAddress blake3)) :
    Ends R E supplyInt 0 (forfeitSafetyBond blake3) s :=
  ends_read_bind <| ends_ite (fun _ => ends_pure ()) fun _ =>
    slashBond_ends hM hplain hins htre hbond _

theorem slashLivenessBond_ends (hbond : M (sequencerBondAddress blake3)) {submitter : Address}
    (hsub : ¬ isReserved blake3 submitter = true → M submitter) :
    Ends R E supplyInt 0 (slashLivenessBond blake3 submitter) s :=
  ends_read_bind <| ends_ite (fun _ => ends_pure ()) fun _ =>
    (slashBond_ends hM hplain hins htre hbond _).bind_of_zero fun _ _ _ =>
      ends_ite (fun _ => ends_pure ()) fun huser => payBounty_ends hM hplain htre (hsub huser) _

end Balances

/-! ### Records -/

variable (hR : Allows blake3 fp R)

include hR

omit [IsPreorder InMemorySubstrate R] in
theorem writeRecord_ends {account : Account} (h : fp.record = some account) {n : Nat}
    {bytes : List UInt8} (hbytes : account.Encodes n bytes) :
    Ends R E supplyInt 0 (writeRecord (account.address blake3) bytes) s :=
  ends_write (hR.record h hbytes)
    (by rw [supplyInt_congr (balance_writeBytesUnchecked s _ bytes), add_zero])

omit [IsPreorder InMemorySubstrate R] in
/-- A slot is written into a table that was read. -/
theorem writeSlot_ends {ring : Ring} (hrec : fp.record = some ring.registry) {map : RingMap}
    {bytes : List UInt8} (hmap : ring.decode bytes = .ok map) (id : UInt32) {slot : SlotRecord}
    (hcap : RingRegistry.Capped slot) :
    Ends R E supplyInt 0
      (writeRecord (ring.registryAddress blake3) (ring.encode (map.insert id slot))) s := by
  rw [← Ring.address_registry]
  exact writeRecord_ends hR hrec (Ring.encodes (Ring.capped_insert hmap hcap))

omit [IsPreorder InMemorySubstrate R] in
/-- A slot of a table that was read is written back with the same keys. -/
theorem rewriteSlot_ends {ring : Ring} (hrec : fp.record = some ring.registry) {map : RingMap}
    {bytes : List UInt8} (hmap : ring.decode bytes = .ok map) {id : UInt32} {old slot : SlotRecord}
    (hslot : map[id]? = some old)
    (hkeys : slot.mldsaPublicKey = old.mldsaPublicKey ∧ slot.blsPublicKey = old.blsPublicKey) :
    Ends R E supplyInt 0
      (writeRecord (ring.registryAddress blake3) (ring.encode (map.insert id slot))) s := by
  refine writeSlot_ends hR hrec hmap id ?_
  rw [RingRegistry.Capped, hkeys.1, hkeys.2]
  exact RingRegistry.ringDecode_capped (ring.decode_eq ▸ hmap) hslot

omit [IsPreorder InMemorySubstrate R] in
/-- An asset is written into a table that was read. -/
theorem writeAsset_ends (hrec : fp.record = some .assetRegistry)
    {assets : ExtTreeMap Bytes32 AssetRecord} {bytes : List UInt8}
    (hassets : AssetRegistry.decode bytes = .ok assets) (id : Bytes32) {asset : AssetRecord}
    (hcap : AssetRegistry.Capped asset) :
    Ends R E supplyInt 0 (writeRecord (assetRegistryAddress blake3)
      (AssetRegistry.encode (assets.insert id asset))) s :=
  writeRecord_ends hR hrec (tableOf_encode (Codec.forall_toList_insert
    (AssetRegistry.decode_capped hassets) hcap))

/-! ## The arms -/

variable (hres : ReservedDistinct blake3)

include hres

variable (hE : Admits blake3 s E)

include hE

section Rings

variable {ring : Ring} (hrec : fp.record = some ring.registry)

include hrec

omit hres in
theorem applyAdmit_ends (id : UInt32) (stake : UInt64) (mldsa bls : List UInt8) :
    Ends R E supplyInt 0 (applyAdmit blake3 ring id stake mldsa bls) s :=
  ends_failIf_bind (hE.plain (by cases ring <;> rfl)) fun hmldsa =>
    ends_failIf_bind (hE.plain (by cases ring <;> rfl)) fun hbls =>
    ends_decodeRecord_bind hE (·.ring ring) fun _ hmap =>
    ends_failIf_bind (hE.plain (by cases ring <;> rfl)) fun _ =>
      writeSlot_ends hR hrec hmap id ⟨not_lt.mp hmldsa, not_lt.mp hbls⟩

omit hres in
theorem applyExit_ends (id : UInt32) : Ends R E supplyInt 0 (applyExit blake3 ring id) s :=
  ends_read_bind <| ends_decodeRecord_bind hE (·.ring ring) fun _ hmap =>
    ends_getOr_bind (hE.plain (by cases ring <;> rfl)) fun _ hslot =>
    ends_failIf_bind (hE.plain (by cases ring <;> rfl)) fun _ =>
      rewriteSlot_ends hR hrec hmap hslot ⟨rfl, rfl⟩

theorem applyEject_ends (hpools : [ring.stakePool, .insurancePool, .treasury] ⊆ fp.pools)
    (id : UInt32) : Ends R E supplyInt 0 (applyEject blake3 ring id) s :=
  ends_decodeRecord_bind hE (·.ring ring) fun _ hmap =>
    ends_getOr_bind (hE.plain (by cases ring <;> rfl)) fun _ hslot => ends_read_bind <|
    (ends_ite (fun _ => drainAndCreditAtomic_ends hR.permits hE.plain (moves_stakePool hres hpools)
      (permits_waterfall (moves_pool hres (a := .insurancePool) (hpools (by simp)))
        (moves_pool hres (a := .treasury) (hpools (by simp))) _)) fun _ => ends_pure ()).bind_of_zero
        fun _ _ _ => rewriteSlot_ends hR hrec hmap hslot ⟨rfl, rfl⟩

theorem applyDepositStake_ends (hpools : [ring.stakePool] ⊆ fp.pools) (source : Address)
    (id : UInt32) (amount : Balance) :
    Ends R E supplyInt 0 (applyDepositStake blake3 ring source id amount) s :=
  ends_ite (fun _ => ends_pure ()) fun _ => ends_failIf_bind (hE.plain rfl) fun hsource =>
    ends_decodeRecord_bind hE (·.ring ring) fun _ hmap =>
    ends_getOr_bind (hE.plain (by cases ring <;> rfl)) fun _ hslot =>
    ends_failIf_bind (hE.plain (by cases ring <;> rfl)) fun _ =>
    ends_fetch_bind (toU64Or_errs (hE.plain rfl)) fun _ _ =>
    ends_fetch_bind (addU64Or_errs (hE.plain rfl)) fun _ _ =>
      (transferInternal_ends hR.permits hE.plain (moves_user hsource) (moves_stakePool hres hpools)
        amount).bind_of_zero fun _ _ _ => rewriteSlot_ends hR hrec hmap hslot ⟨rfl, rfl⟩

theorem applyWithdrawStake_ends (hpools : [ring.stakePool] ⊆ fp.pools) (dest : Address)
    (id : UInt32) (amount : Balance) :
    Ends R E supplyInt 0 (applyWithdrawStake blake3 ring dest id amount) s :=
  ends_read_bind <| ends_ite (fun _ => ends_pure ()) fun _ =>
    ends_failIf_bind (hE.plain rfl) fun hdest =>
    ends_decodeRecord_bind hE (·.ring ring) fun _ hmap =>
    ends_getOr_bind (hE.plain (by cases ring <;> rfl)) fun _ hslot =>
    ends_failIf_bind (hE.plain rfl) fun _ => ends_failIf_bind (hE.plain rfl) fun _ =>
    ends_failIf_bind (hE.plain rfl) fun _ =>
      (transferInternal_ends hR.permits hE.plain (moves_stakePool hres hpools) (moves_user hdest)
        amount).bind_of_zero fun _ _ _ => rewriteSlot_ends hR hrec hmap hslot ⟨rfl, rfl⟩

end Rings

omit [IsPreorder InMemorySubstrate R] hR hE hres in
/-- A delegation of something leaves something delegated. -/
theorem delegated_pos {e e' : ExecutionError} {amount : Balance} {old delta total : UInt64}
    (h0 : amount ≠ 0) (hdelta : toU64Or e amount = .ok delta)
    (htotal : addU64Or e' old delta = .ok total) : 0 < total := by
  obtain ⟨hlt, rfl⟩ := toU64Or_eq_ok_iff.mp hdelta
  obtain ⟨hfit, rfl⟩ := addU64Or_eq_ok_iff.mp htotal
  have hne : amount.toNat ≠ 0 := fun h => h0 (BitVec.eq_of_toNat_eq h)
  rw [UInt64.lt_iff_toNat_lt, UInt64.toNat_add, Nat.mod_eq_of_lt hfit, UInt64.toNat_ofNat_of_lt' hlt]
  show 0 < _
  omega

theorem applyDelegate_ends (hrec : fp.record = some .validatorDelegationRegistry)
    (hpools : [.validatorStakePool] ⊆ fp.pools) (source : Address) (validatorId : UInt32)
    (amount : Balance) : Ends R E supplyInt 0 (applyDelegate blake3 source validatorId amount) s :=
  ends_ite (fun _ => ends_pure ()) fun h0 => ends_failIf_bind (hE.plain rfl) fun hsource =>
    ends_decodeRecord_bind hE (· .validatorRegistry) fun _ _ =>
    ends_getOr_bind (hE.plain rfl) fun _ _ => ends_failIf_bind (hE.plain rfl) fun _ =>
    ends_fetch_bind (toU64Or_errs (hE.plain rfl)) fun _ hdelta =>
    ends_decodeRecord_bind hE (· .validatorDelegationRegistry) fun _ hreg =>
    ends_fetch_bind (addU64Or_errs (hE.plain rfl)) fun _ htotal =>
      (transferInternal_ends hR.permits hE.plain (moves_user hsource)
        (moves_pool hres (hpools List.mem_cons_self)) amount).bind_of_zero fun _ _ _ =>
          writeRecord_ends hR hrec (tableOf_encode ((DelegationRegistry.decode_pos hreg).insert _
            (delegated_pos h0 hdelta htotal)))

theorem applyMintInflation_ends (hrec : fp.record = some .inflationRegistry)
    (hpools : [.authorityRewardsPool, .validatorRewardsPool, .treasury] ⊆ fp.pools)
    (epoch : UInt64) (a v t : Balance) :
    Ends R E supplyInt (a.toNat + v.toNat + t.toNat : ℕ) (applyMintInflation blake3 epoch a v t) s := by
  have hsum : creditSum [ (authorityRewardsPoolAddress blake3, a),
      (validatorRewardsPoolAddress blake3, v), (treasuryAddress blake3, t) ] =
      a.toNat + v.toNat + t.toNat := by simp [creditSum, add_assoc]
  rw [← hsum]
  refine ends_decodeRecord_bind hE (· .inflationRegistry) fun _ _ =>
    ends_failIf_bind (hE.plain rfl) fun _ => (creditManyAtomic_ends hR.permits hE.plain ?_).bind_zero
      fun _ _ _ => writeRecord_ends hR hrec ⟨rfl, epoch, rfl⟩
  simp only [List.forall_mem_cons, List.not_mem_nil, false_implies, implies_true, and_true]
  exact ⟨moves_pool hres (a := .authorityRewardsPool) (hpools (by simp)),
    moves_pool hres (a := .validatorRewardsPool) (hpools (by simp)),
    moves_pool hres (a := .treasury) (hpools (by simp))⟩

theorem applyDistributeRewards_ends {ring : Ring}
    (hrec : fp.record = some .rewardsDistributionRegistry) (hpools : [ring.rewardsPool] ⊆ fp.pools)
    (epoch : UInt64) (recipients : List (Address × Balance)) :
    Ends R E supplyInt 0 (applyDistributeRewards blake3 epoch ring recipients) s := by
  have hmoves := moves_pool hres (hpools List.mem_cons_self)
  rw [Ring.address_rewardsPool] at hmoves
  refine ends_decodeRecord_bind hE (· .rewardsDistributionRegistry) fun last _ =>
    ends_failIf_bind (hE.plain rfl) fun _ => ends_rejectReserved_bind (fun _ => hE.plain rfl)
      fun husers => (drainAndCreditAtomic_ends hR.permits hE.plain hmoves fun c hc =>
        moves_user (husers c.1 (List.mem_map_of_mem hc))).bind_of_zero fun _ _ _ =>
          writeRecord_ends hR hrec (n := 0) ?_
  cases ring with
  | authority => exact ⟨rfl, epoch, last.2, rfl⟩
  | validator => exact ⟨rfl, last.1, epoch, rfl⟩

omit hres in
theorem applyCommitL2StateRoot_ends (hrec : fp.record = some .l2Registry) (batchId : UInt64)
    (root : Bytes32) (proof inputs : List UInt8) (vkHash : Bytes32) :
    Ends R E supplyInt 0 (applyCommitL2StateRoot blake3 batchId root proof inputs vkHash) s := by
  refine ends_fetch_bind (fun e he => ?_) fun _ _ =>
    ends_decodeRecord_bind hE (· .l2Registry) fun _ _ => ends_failIf_bind (hE.plain rfl) fun _ =>
      writeRecord_ends hR hrec (tableOf_encode trivial)
  obtain ⟨e', -, rfl⟩ := mapError_eq_error_iff.mp he
  exact hE.plain rfl

theorem applyL2BurnProven_ends (hrec : fp.record = some .burnNullifierRegistry)
    (hpools : [.bridgeEscrow] ⊆ fp.pools) (batchId : UInt64) (recipient : Address) (amount : Balance)
    (path : List UInt8) (assetId : Option Bytes32) (chain : Bytes32) :
    Ends R E supplyInt 0 (applyL2BurnProven blake3 batchId recipient amount path assetId chain) s :=
  ends_ite (fun _ => ends_pure ()) fun _ => ends_failIf_bind (hE.plain rfl) fun hrecipient =>
    ends_fetch_bind (fun e he => hE.plain (assertBridgeAssetActive_plain e he)) fun _ _ =>
    ends_read_bind <| ends_failIf_bind (hE.plain rfl) fun _ =>
    ends_decodeRecord_bind hE (· .burnNullifierRegistry) fun _ _ =>
    ends_failIf_bind (hE.plain rfl) fun _ =>
      (writeRecord_ends hR hrec (tableOf_encode trivial)).bind_of_zero fun _ _ _ =>
        debitThenCredit_ends hR.permits hE.plain (moves_pool hres (hpools List.mem_cons_self))
          (moves_user hrecipient) amount

omit hres in
theorem settleObligation_ends (hrec : fp.record = some .forceIncludeRegistry) (id : Bytes32)
    (status : ObligationStatus) : Ends R E supplyInt 0 (settleObligation blake3 id status) s :=
  ends_decodeRecord_bind hE (· .forceIncludeRegistry) fun _ _ =>
    ends_getOr_bind (hE.plain rfl) fun _ _ => ends_failIf_bind (hE.plain rfl) fun _ =>
      (writeRecord_ends hR hrec (tableOf_encode trivial)).bind_of_zero fun _ _ _ => ends_pure _

theorem applySlashOffense_ends (hrec : fp.record = some .equivocationRegistry)
    (hpools : [.safetyBond, .insurancePool, .treasury] ⊆ fp.pools) (kind : OffenseKind)
    (hash : Bytes32) : Ends R E supplyInt 0 (applySlashOffense blake3 kind hash) s := by
  refine ends_decodeRecord_bind hE (· .equivocationRegistry) fun map _ =>
    ends_fetch_bind (fun e he => ?_) fun _ _ =>
      (writeRecord_ends hR hrec (tableOf_encode trivial)).bind_of_zero fun _ _ _ =>
        forfeitSafetyBond_ends hR.permits hE.plain
          (moves_pool hres (a := .insurancePool) (hpools (by simp)))
          (moves_pool hres (a := .treasury) (hpools (by simp)))
          (moves_pool hres (a := .safetyBond) (hpools (by simp)))
  unfold checkUnrecorded at he
  split at he
  · cases he
    exact hE.plain rfl
  · cases he

theorem applyEjectSequencer_ends (hrec : fp.record = some .ejectionRegistry)
    (hpools : [.treasury] ⊆ fp.pools) (id : Bytes32) (ejector : Address) :
    Ends R E supplyInt 0 (applyEjectSequencer blake3 id ejector) s :=
  ends_failIf_bind (hE.plain rfl) fun hejector =>
    ends_decodeRecord_bind hE (· .forceIncludeRegistry) fun _ _ =>
    ends_getOr_bind (hE.plain rfl) fun _ _ => ends_failIf_bind (hE.plain rfl) fun _ =>
    ends_decodeRecord_bind hE (· .ejectionRegistry) fun _ _ =>
    ends_failIf_bind (hE.plain rfl) fun _ =>
      (writeRecord_ends hR hrec (tableOf_encode trivial)).bind_of_zero fun _ _ _ =>
        ends_read_bind <| payBounty_ends hR.permits hE.plain
          (moves_pool hres (a := .treasury) (hpools List.mem_cons_self)) (moves_user hejector) _

omit hres in
theorem applyPoolMove_ends {user source dest : Address}
    (hmoves : ¬ isReserved blake3 user = true → fp.Moves blake3 source ∧ fp.Moves blake3 dest)
    (amount : Balance) : Ends R E supplyInt 0 (applyPoolMove blake3 user source dest amount) s :=
  ends_ite (fun _ => ends_pure ()) fun _ => ends_failIf_bind (hE.plain rfl) fun huser =>
    debitThenCredit_ends hR.permits hE.plain (hmoves huser).1 (hmoves huser).2 amount

theorem applyDistributeSlashedFunds_ends (hpools : [.insurancePool, .treasury] ⊆ fp.pools)
    (counterparties : List (Address × Balance)) (i t : Balance) :
    Ends R E supplyInt (creditSum counterparties + i.toNat + t.toNat : ℕ)
      (applyDistributeSlashedFunds blake3 counterparties i t) s := by
  have hsum : creditSum (slashedFundsCredits blake3 counterparties i t) =
      creditSum counterparties + i.toNat + t.toNat := by
    simp [creditSum, slashedFundsCredits, add_assoc]
  rw [← hsum]
  refine ends_rejectReserved_bind (fun _ => hE.plain rfl) fun husers =>
    creditEach_ends hR.permits hE.plain fun c hc => ?_
  rcases List.mem_append.mp hc with hc | hc
  · exact moves_user (husers c.1 (List.mem_map_of_mem hc))
  · simp only [List.mem_cons, List.not_mem_nil, or_false] at hc
    rcases hc with rfl | rfl
    · exact moves_pool hres (a := .insurancePool) (hpools (by simp))
    · exact moves_pool hres (a := .treasury) (hpools (by simp))

omit hres in
theorem applyAddBridgeAsset_ends (hrec : fp.record = some .assetRegistry) (chain : UInt64)
    (contract : List UInt8) (decimals : UInt8) (name symbol : List UInt8) :
    Ends R E supplyInt 0 (applyAddBridgeAsset blake3 chain contract decimals name symbol) s :=
  ends_failIf_bind (hE.plain rfl) fun hcontract => ends_failIf_bind (hE.plain rfl) fun hname =>
    ends_failIf_bind (hE.plain rfl) fun hsymbol =>
    ends_decodeRecord_bind hE (· .assetRegistry) fun _ hassets =>
    ends_failIf_bind (hE.plain rfl) fun _ => writeAsset_ends hR hrec hassets _
      ⟨not_lt.mp hcontract, not_lt.mp hname, not_lt.mp hsymbol⟩

omit hres in
theorem setAssetStatus_ends (hrec : fp.record = some .assetRegistry) (id : Bytes32)
    (status : AssetStatus) : Ends R E supplyInt 0 (setAssetStatus blake3 id status) s :=
  ends_decodeRecord_bind hE (· .assetRegistry) fun _ hassets =>
    ends_getOr_bind (hE.plain rfl) fun asset hasset => by
      have hcap : AssetRegistry.Capped asset := AssetRegistry.decode_capped hassets id asset hasset
      exact writeAsset_ends hR hrec hassets id hcap

end Contracts

/-! ## Every intent -/

/-- What an intent creates when it succeeds. -/
def minted : Intent → Nat
  | .genesisAllocation allocations => creditSum allocations
  | .mintInflation _ authorityShare validatorShare treasuryShare =>
    authorityShare.toNat + validatorShare.toNat + treasuryShare.toNat
  | .distributeSlashedFunds _ counterparties insuranceShare treasuryShare =>
    creditSum counterparties + insuranceShare.toNat + treasuryShare.toNat
  | _ => 0

section Intents

variable {blake3 : List UInt8 → Bytes32} {s : InMemorySubstrate}

/-- **Every intent**: its footprint, its errors and what it mints, one case per arm. -/
theorem applyIntent_ends (hres : ReservedDistinct blake3)
    {R : InMemorySubstrate → InMemorySubstrate → Prop} [IsPreorder InMemorySubstrate R]
    {E : ExecutionError → Prop} (intent : Intent) (hR : Allows blake3 intent.footprint R)
    (hE : Admits blake3 s E) : Ends R E supplyInt (minted intent) (applyIntent blake3 intent) s := by
  have hgate : ∀ {fp : Footprint} {user : Address} (a : Account), a ∈ fp.pools →
      ¬ isReserved blake3 user = true →
      fp.Moves blake3 user ∧ fp.Moves blake3 (a.address blake3) :=
    fun a hpool huser => ⟨moves_user huser, moves_pool hres hpool⟩
  have hall : ∀ {l : List Account}, l ⊆ l := fun h => h
  cases intent with
  | transfer source dest amount =>
    exact ends_failIf_bind (hE.plain rfl) fun hsource => ends_failIf_bind (hE.plain rfl) fun hdest =>
      move_ends hR.permits hE.plain (moves_user hsource) (moves_user hdest) amount rfl
  | genesisAllocation allocations =>
    exact ends_read_bind <| ends_failIf_bind (hE.plain rfl) fun _ =>
      creditManyAtomic_ends hR.permits hE.plain fun c hc => moves_ungated (List.mem_map_of_mem hc)
  | mintInflation epoch a v t => exact applyMintInflation_ends hR hres hE rfl hall epoch a v t
  | distributeRewards epoch ring recipients =>
    exact applyDistributeRewards_ends hR hres hE rfl hall epoch recipients
  | delegate source id amount => exact applyDelegate_ends hR hres hE rfl hall source id amount
  | admitAuthority id stake mldsa bls => exact applyAdmit_ends hR hE rfl id stake mldsa bls
  | exitAuthority id => exact applyExit_ends hR hE rfl id
  | ejectAuthority id proof => exact applyEject_ends hR hres hE rfl hall id
  | admitValidator id stake mldsa bls => exact applyAdmit_ends hR hE rfl id stake mldsa bls
  | exitValidator id => exact applyExit_ends hR hE rfl id
  | ejectValidator id proof => exact applyEject_ends hR hres hE rfl hall id
  | commitL2StateRoot batchId root proof inputs vk =>
    exact applyCommitL2StateRoot_ends hR hE rfl batchId root proof inputs vk
  | setL2VerifyingKey chain agg range =>
    exact ends_failIf_bind (hE.plain rfl) fun _ =>
      ends_decodeRecord_bind hE (· .l2Registry) fun _ _ =>
        writeRecord_ends hR rfl (tableOf_encode trivial)
  | l1Lock user l2 amount assetId =>
    exact ends_ite (fun _ => ends_pure ()) fun _ =>
      ends_fetch_bind (fun e he => hE.plain (assertBridgeAssetActive_plain e he)) fun _ _ =>
        debitThenCredit_ends hR.permits hE.plain (moves_ungated List.mem_cons_self)
          (moves_pool hres (a := .bridgeEscrow) List.mem_cons_self) amount
  | l2BurnProven batchId recipient amount path assetId chain =>
    exact applyL2BurnProven_ends hR hres hE rfl hall batchId recipient amount path assetId chain
  | l2ForceInclude tx deadline submitter nonce =>
    exact ends_decodeRecord_bind hE (· .forceIncludeRegistry) fun _ _ =>
      ends_failIf_bind (hE.plain rfl) fun _ => writeRecord_ends hR rfl (tableOf_encode trivial)
  | slashSequencer reason hash =>
    cases reason with
    | missedForceInclude =>
      have hpool : ∀ a ∈ [Account.sequencerBond, .insurancePool, .treasury],
          (Intent.slashSequencer .missedForceInclude hash).footprint.Moves blake3 (a.address blake3) :=
        fun a ha => moves_pool hres (hall ha)
      exact (settleObligation_ends hR hE rfl hash .slashed).bind_of_zero fun _ _ _ =>
        slashLivenessBond_ends hR.permits hE.plain (hpool .insurancePool (by simp))
          (hpool .treasury (by simp)) (hpool .sequencerBond (by simp)) moves_user
    | equivocation => exact applySlashOffense_ends hR hres hE rfl hall .equivocation hash
    | invalidBatch => exact applySlashOffense_ends hR hres hE rfl hall .invalidBatch hash
    | downtime => exact ends_pure ()
  | markForceIncludeHonored id =>
    exact (settleObligation_ends hR hE rfl id .honored).bind_of_zero fun _ _ _ => ends_pure ()
  | ejectSequencer id ejector => exact applyEjectSequencer_ends hR hres hE rfl hall id ejector
  | depositSequencerBond source amount =>
    exact applyPoolMove_ends hR hE (hgate .sequencerBond List.mem_cons_self) amount
  | depositSafetyBond source amount =>
    exact applyPoolMove_ends hR hE (hgate .safetyBond List.mem_cons_self) amount
  | depositAuthorityStake source id amount =>
    exact applyDepositStake_ends hR hres hE rfl hall source id amount
  | depositValidatorStake source id amount =>
    exact applyDepositStake_ends hR hres hE rfl hall source id amount
  | withdrawAuthorityStake dest id amount =>
    exact applyWithdrawStake_ends hR hres hE rfl hall dest id amount
  | withdrawValidatorStake dest id amount =>
    exact applyWithdrawStake_ends hR hres hE rfl hall dest id amount
  | disburseTreasury recipient amount tag =>
    exact applyPoolMove_ends hR hE (fun h => (hgate .treasury List.mem_cons_self h).symm) amount
  | claimInsurance claimant amount ref =>
    exact applyPoolMove_ends hR hE (fun h => (hgate .insurancePool List.mem_cons_self h).symm) amount
  | postL2DA batchId blob => exact ends_pure ()
  | distributeSlashedFunds event counterparties i t =>
    exact applyDistributeSlashedFunds_ends hR hres hE hall counterparties i t
  | addBridgeAsset chain contract decimals name symbol =>
    exact applyAddBridgeAsset_ends hR hE rfl chain contract decimals name symbol
  | pauseBridgeAsset id => exact setAssetStatus_ends hR hE rfl id .paused
  | removeBridgeAsset id => exact setAssetStatus_ends hR hE rfl id .removed

theorem admits_all : Admits blake3 s fun _ => True := ⟨fun _ => trivial, fun _ _ => trivial⟩

/-- **An intent makes writes of its footprint only**, whatever the state and however it ends. -/
theorem applyIntent_leads (hres : ReservedDistinct blake3)
    {R : InMemorySubstrate → InMemorySubstrate → Prop} [IsPreorder InMemorySubstrate R]
    (intent : Intent) (hR : Allows blake3 intent.footprint R) (s : InMemorySubstrate) :
    Leads R (applyIntent blake3 intent) s := (applyIntent_ends hres intent hR admits_all).leads

/-- **An intent stays inside its footprint.** -/
theorem applyIntent_touches (hres : ReservedDistinct blake3) (s : InMemorySubstrate)
    (intent : Intent) : intent.footprint.Touches blake3 s (applyIntent blake3 intent s).2 :=
  applyIntent_leads hres intent (allows_touches blake3 intent.footprint) s

/-- **Where every registry can be read, no intent fails for a corrupt record.** -/
theorem applyIntent_plain (hres : ReservedDistinct blake3) (h : Readable blake3 s)
    (intent : Intent) : Errs Plain (applyIntent blake3 intent) s :=
  (applyIntent_ends hres intent (allows_touches blake3 intent.footprint)
    ⟨id, fun hnot => absurd h hnot⟩).errs

theorem applyIntent_shifts (hres : ReservedDistinct blake3) (intent : Intent) :
    Shifts supplyInt (applyIntent blake3 intent) (minted intent) := fun _ =>
  (applyIntent_ends hres intent (allows_touches blake3 intent.footprint) admits_all).shifts

end Intents

end SuwappuDag.Execution
