/-
  What an intent leaves alone.

  Every arm that works on one slot, chain, asset, obligation or delegation pair reads a WHOLE registry,
  changes one entry and writes the whole registry back.  That all the other entries survive is
  a matter of the codec (what is written reads back as what was meant), and that no other account pays
  is a matter of the arm.  Both are said here per intent:

    * `Intent.confinement` names, for each of these intents, the record and the entry in it that may
      change, and the accounts whose balance may;
    * `Rewritten` is the change of a record: none, or the encoding of a table that agrees with the one
      read everywhere but at the entry, and that reads back as itself if it reads back at all;
    * `Confined` puts the three together, for the states before and after, whether the intent went
      through or not.

  The arms come in three shapes (write; move, then write; write, then move), one lemma each.
-/
import SuwappuDag.Execution.Slots

namespace SuwappuDag.Execution

open Words Command Reserved InMemorySubstrate
open Footprint (OnlyMoves permits_onlyMoves)
open Std (ExtTreeMap)

/-! ## Rewriting a record -/

section Rewriting

/-- The tables agree everywhere but at the key. -/
def OffKey {κ ν : Type} [Ord κ] [Std.TransOrd κ] (key : κ) (m m' : ExtTreeMap κ ν) : Prop :=
  ∀ k, k ≠ key → m'[k]? = m[k]?

theorem offKey_insert {κ ν : Type} [Ord κ] [Std.TransOrd κ] [Std.LawfulEqOrd κ] (key : κ)
    (m : ExtTreeMap κ ν) (v : ν) : OffKey key m (m.insert key v) := by
  intro k hk
  rw [ExtTreeMap.getElem?_insert, if_neg fun h => hk (Std.LawfulEqCmp.eq_of_compare h).symm]

/-- The record is what it was, or a table that agrees with the one read is written in its place. -/
def Rewritten {μ : Type} (encode : μ → List UInt8) (decode : List UInt8 → Except String μ)
    (Agree : μ → μ → Prop) (before after : List UInt8) : Prop :=
  after = before ∨ ∃ m m', decode before = .ok m ∧ Agree m m' ∧ after = encode m' ∧
    ∀ m'', decode after = .ok m'' → m'' = m'

end Rewriting

/-- A record, and the change of one entry in it. -/
structure Entry where
  record : Account
  rewritten : List UInt8 → List UInt8 → Prop
  rewritten_refl : ∀ bytes, rewritten bytes bytes

/-- The entry of a registry that is a map. -/
def Entry.ofMap {κ ν : Type} [Ord κ] [Std.TransOrd κ] (record : Account)
    (encode : ExtTreeMap κ ν → List UInt8) (decode : List UInt8 → Except String (ExtTreeMap κ ν))
    (key : κ) : Entry :=
  ⟨record, Rewritten encode decode (OffKey key), fun _ => Or.inl rfl⟩

def Ring.entry (ring : Ring) (id : UInt32) : Entry :=
  .ofMap ring.registry ring.encode ring.decode id

def delegationEntry (id : UInt32) (source : Address) : Entry :=
  .ofMap .validatorDelegationRegistry DelegationRegistry.encode DelegationRegistry.decode
    (toLex (id, source))

def obligationEntry (id : Bytes32) : Entry :=
  .ofMap .forceIncludeRegistry ForceInclude.encodeMap ForceInclude.decodeMap id

def ejectionEntry (id : Bytes32) : Entry :=
  .ofMap .ejectionRegistry EjectRegistry.encode EjectRegistry.decode id

def assetEntry (id : Bytes32) : Entry :=
  .ofMap .assetRegistry AssetRegistry.encode AssetRegistry.decode id

/-- One batch of a chain; the keys of all chains stay. -/
def batchEntry (chain : Bytes32) (batchId : UInt64) : Entry where
  record := .l2Registry
  rewritten := Rewritten L2Registry.encode L2Registry.decode fun reg reg' =>
    reg'.chainVks = reg.chainVks ∧ OffKey (toLex (chain, batchId)) reg.stateRoots reg'.stateRoots
  rewritten_refl _ := Or.inl rfl

/-- The keys of a chain; all batches stay. -/
def chainEntry (chain : Bytes32) : Entry where
  record := .l2Registry
  rewritten := Rewritten L2Registry.encode L2Registry.decode fun reg reg' =>
    reg'.stateRoots = reg.stateRoots ∧ OffKey chain reg.chainVks reg'.chainVks
  rewritten_refl _ := Or.inl rfl

/-! ## What each intent may change -/

section Confinement
variable (blake3 : List UInt8 → Bytes32)

/-- The accounts an operation on a slot may move. -/
def SlotOp.accounts (ring : Ring) : SlotOp → List Address
  | .admission .. => []
  | .exit => []
  | .ejection => [ring.stakePoolAddress blake3, insurancePoolAddress blake3, treasuryAddress blake3]
  | .deposit source _ => [source, ring.stakePoolAddress blake3]
  | .withdrawal dest _ => [ring.stakePoolAddress blake3, dest]

/-- The entry and the accounts of the intents that work on one entry. -/
def Intent.confinement (s : InMemorySubstrate) : Intent → Option (Entry × List Address)
  | .delegate source id _ => some (delegationEntry id source, [source, validatorStakePoolAddress blake3])
  | .commitL2StateRoot batchId _ _ inputs _ => some (batchEntry (provenChain inputs) batchId, [])
  | .setL2VerifyingKey chain _ _ => some (chainEntry chain, [])
  | .l2ForceInclude tx deadline submitter nonce =>
    some (obligationEntry (ForceInclude.obligationId blake3 tx deadline submitter nonce), [])
  | .slashSequencer .missedForceInclude id => some (obligationEntry id,
      [sequencerBondAddress blake3, insurancePoolAddress blake3, treasuryAddress blake3] ++
        ((forceIncludeObligation blake3 s id).map (·.submitter)).toList)
  | .markForceIncludeHonored id => some (obligationEntry id, [])
  | .ejectSequencer id ejector => some (ejectionEntry id, [treasuryAddress blake3, ejector])
  | .addBridgeAsset chain contract _ _ _ =>
    some (assetEntry (AssetRegistry.assetId blake3 chain contract), [])
  | .pauseBridgeAsset id => some (assetEntry id, [])
  | .removeBridgeAsset id => some (assetEntry id, [])
  | intent => intent.slotOp.map fun (ring, id, op) => (ring.entry id, op.accounts blake3 ring)

/-- At most the entry's record changes, in it at most the entry, and no balance outside the accounts. -/
structure Confined (entry : Entry) (accounts : List Address) (s t : InMemorySubstrate) : Prop where
  records : ∀ addr, addr ≠ entry.record.address blake3 → recordAt t addr = recordAt s addr
  entry : entry.rewritten (recordAt s (entry.record.address blake3))
    (recordAt t (entry.record.address blake3))
  balance : ∀ addr, addr ∉ accounts → t.balance addr = s.balance addr

end Confinement

/-! ## The three shapes -/

section Shapes
variable {blake3 : List UInt8 → Bytes32} {entry : Entry} {A : List Address} {s t u : InMemorySubstrate}

theorem confined_of_onlyMoves (h : OnlyMoves (· ∈ A) s t) : Confined blake3 entry A s t where
  records addr _ := h.recordAt_eq addr
  entry := by
    rw [h.recordAt_eq]
    exact entry.rewritten_refl _
  balance := h.balance

theorem confined_self : Confined blake3 entry A s s := confined_of_onlyMoves (refl s)

/-- Moves, the write of the record, and moves again. -/
theorem confined_write {bytes : List UInt8} (h : OnlyMoves (· ∈ A) s t)
    (hbytes : entry.rewritten (recordAt s (entry.record.address blake3)) bytes)
    (hu : OnlyMoves (· ∈ A) (t.writeBytesUnchecked (entry.record.address blake3) bytes) u) :
    Confined blake3 entry A s u where
  records addr hne := by rw [hu.recordAt_eq, recordAt_write_of_ne hne, h.recordAt_eq]
  entry := by
    rw [hu.recordAt_eq, recordAt_write]
    exact hbytes
  balance addr hout := by
    rw [hu.balance addr hout, balance_writeBytesUnchecked, h.balance addr hout]

/-- Money is moved, and then the record written. -/
theorem confined_move_write {c : Exec Unit} {bytes : List UInt8} (hc : Leads (OnlyMoves (· ∈ A)) c s)
    (hbytes : entry.rewritten (recordAt s (entry.record.address blake3)) bytes) :
    Confined blake3 entry A s
      ((c >>= fun _ => writeRecord (entry.record.address blake3) bytes) s).2 := by
  rw [Leads] at hc
  rcases hrun : c s with ⟨e | ⟨⟨⟩⟩, t⟩ <;> rw [hrun] at hc
  · rw [bind_run_error hrun]
    exact confined_of_onlyMoves hc
  · rw [bind_run_ok hrun]
    exact confined_write hc hbytes (refl _)

/-- A guarded command is confined when what it does behind the guards is. -/
theorem confined_of_guarded {c : Exec Unit} {Q : Except ExecutionError Unit × InMemorySubstrate → Prop}
    (h : Guarded c s Q) (hQ : ∀ r, Q r → Confined blake3 entry A s r.2) :
    Confined blake3 entry A s (c s).2 := by
  rcases h with h | ⟨-, e, h⟩
  · exact hQ _ h
  · rw [h]
    exact confined_self

/-- An entry written into a map that was read. -/
theorem rewritten_insert {κ ν : Type} [Ord κ] [Std.TransOrd κ] [Std.LawfulEqOrd κ]
    {encode : ExtTreeMap κ ν → List UInt8} {decode : List UInt8 → Except String (ExtTreeMap κ ν)}
    {m : ExtTreeMap κ ν} {before : List UInt8} (hdec : decode before = .ok m) {key : κ} {v : ν}
    (hread : ∀ m', decode (encode (m.insert key v)) = .ok m' → m' = m.insert key v) :
    Rewritten encode decode (OffKey key) before (encode (m.insert key v)) :=
  Or.inr ⟨m, _, hdec, offKey_insert key m v, rfl, hread⟩

end Shapes

/-! ## The arms -/

section Arms
variable {blake3 : List UInt8 → Bytes32} {s : InMemorySubstrate}

theorem transferInternal_onlyMoves (source dest : Address) (amount : Balance) :
    Leads (OnlyMoves (· ∈ [source, dest])) (transferInternal source dest amount) s :=
  (transferInternal_ends (permits_onlyMoves _) (E := fun _ => True) (fun _ => trivial) (by simp)
    (by simp) amount).leads

section Slots
variable {ring : Ring} {id : UInt32} {map : RingMap} {slot : SlotRecord} {A : List Address}

/-- Money is moved, and a slot written into the table of its ring. -/
theorem confined_slot (hdec : ring.decode (ringBytes blake3 ring s) = .ok map)
    (hcap : RingRegistry.Capped slot) {c : Exec Unit} (hc : Leads (OnlyMoves (· ∈ A)) c s) :
    Confined blake3 (ring.entry id) A s ((c >>= fun _ =>
      writeRecord (ring.registryAddress blake3) (ring.encode (map.insert id slot))) s).2 := by
  rw [ringBytes] at hdec
  rw [← ring.address_registry] at hdec ⊢
  refine confined_move_write hc (rewritten_insert hdec fun m' h => ?_)
  rw [ring.decode_eq, ring.encode_eq] at h
  exact RingRegistry.ringDecode_ringEncode_eq_ok (Ring.capped_insert hdec hcap) h

/-- The same for a slot that keeps the keys of the one read. -/
theorem confined_reslot (hdec : ring.decode (ringBytes blake3 ring s) = .ok map) {old : SlotRecord}
    (hslot : map[id]? = some old)
    (hkeys : slot.mldsaPublicKey = old.mldsaPublicKey ∧ slot.blsPublicKey = old.blsPublicKey)
    {c : Exec Unit} (hc : Leads (OnlyMoves (· ∈ A)) c s) :
    Confined blake3 (ring.entry id) A s ((c >>= fun _ =>
      writeRecord (ring.registryAddress blake3) (ring.encode (map.insert id slot))) s).2 := by
  refine confined_slot hdec ?_ hc
  rw [RingRegistry.Capped, hkeys.1, hkeys.2]
  exact RingRegistry.ringDecode_capped (ring.decode_eq ▸ hdec) hslot

theorem slotOp_confined (ring : Ring) (id : UInt32) (op : SlotOp) :
    Confined blake3 (ring.entry id) (op.accounts blake3 ring) s (op.run blake3 ring id s).2 := by
  have hnone : Leads (OnlyMoves (· ∈ ([] : List Address))) (pure () : Exec Unit) s := leads_pure ()
  cases op with
  | admission stake mldsa bls =>
    refine confined_of_guarded (applyAdmit_guarded stake mldsa bls) ?_
    rintro r ⟨map, hdec, -, hcap, rfl⟩
    exact confined_slot hdec hcap hnone
  | exit =>
    refine confined_of_guarded applyExit_guarded ?_
    rintro r ⟨map, slot, hdec, hslot, -, rfl⟩
    exact confined_reslot hdec hslot (by exact ⟨rfl, rfl⟩) hnone
  | ejection =>
    refine confined_of_guarded applyEject_guarded ?_
    rintro r ⟨map, slot, hdec, hslot, rfl⟩
    refine confined_reslot hdec hslot (by exact ⟨rfl, rfl⟩) (leads_ite (fun _ => ?_) fun _ => leads_pure ())
    exact (drainAndCreditAtomic_ends (permits_onlyMoves _) (E := fun _ => True) (fun _ => trivial)
      (by simp [SlotOp.accounts]) (permits_waterfall (by simp [SlotOp.accounts])
        (by simp [SlotOp.accounts]) _)).leads
  | deposit source amount =>
    by_cases h0 : amount = 0
    · rw [SlotOp.run, applyDepositStake, if_pos h0]
      exact confined_self
    refine confined_of_guarded (applyDepositStake_guarded h0 source) ?_
    rintro r ⟨map, slot, hdec, hslot, -, -, -, rfl⟩
    exact confined_reslot hdec hslot (by exact ⟨rfl, rfl⟩) (transferInternal_onlyMoves source _ amount)
  | withdrawal dest amount =>
    by_cases h0 : amount = 0
    · rw [SlotOp.run, applyWithdrawStake, read_bind_run, if_pos h0]
      exact confined_self
    refine confined_of_guarded (applyWithdrawStake_guarded h0 dest) ?_
    rintro r ⟨map, slot, hdec, hslot, -, -, -, -, rfl⟩
    exact confined_reslot hdec hslot (by exact ⟨rfl, rfl⟩) (transferInternal_onlyMoves _ dest amount)

end Slots

theorem delegate_confined (source : Address) (id : UInt32) (amount : Balance) :
    Confined blake3 (delegationEntry id source) [source, validatorStakePoolAddress blake3] s
      (applyDelegate blake3 source id amount s).2 := by
  by_cases h0 : amount = 0
  · rw [applyDelegate, if_pos h0]
    exact confined_self
  refine confined_of_guarded (applyDelegate_guarded h0 source) ?_
  rintro r ⟨reg, hdec, -, -, hfit, rfl⟩
  refine confined_move_write (transferInternal_onlyMoves source _ amount)
    (rewritten_insert hdec fun m' h => DelegationRegistry.decode_encode ?_ h)
  refine (DelegationRegistry.decode_pos hdec).insert _ (UInt64.lt_iff_toNat_lt.mpr ?_)
  have hpos : amount.toNat ≠ 0 := fun h => h0 (BitVec.eq_of_toNat_eq h)
  rw [toNat_deposit hfit]
  show 0 < _
  omega

/-- An obligation written into the table. -/
theorem rewritten_obligation {bytes : List UInt8} {map : ExtTreeMap Bytes32 ForceIncludeObligation}
    (hdec : ForceInclude.decodeMap bytes = .ok map) (id : Bytes32) (o : ForceIncludeObligation) :
    (obligationEntry id).rewritten bytes (ForceInclude.encodeMap (map.insert id o)) :=
  rewritten_insert hdec fun _ h => ForceInclude.storage.decode_encode trivial h

theorem settle_confined (id : Bytes32) (status : ObligationStatus) {A : List Address}
    {k : ForceIncludeObligation → Exec Unit}
    (hk : ∀ o u, forceIncludeObligation blake3 s id = some o → Leads (OnlyMoves (· ∈ A)) (k o) u) :
    Confined blake3 (obligationEntry id) A s ((settleObligation blake3 id status >>= k) s).2 := by
  have hguarded : Guarded (settleObligation blake3 id status) s _ := settleObligation_guarded id status
  rcases hguarded with ⟨map, o, hdec, hfind, -, hr⟩ | ⟨-, e, hr⟩
  · have hfound : forceIncludeObligation blake3 s id = some o := by
      rw [forceIncludeObligation, ← recordAt, hdec, Except.toOption, Option.bind_some, hfind]
    rw [bind_run_ok hr]
    exact confined_write (refl s) (rewritten_obligation hdec id _) (hk o _ hfound)
  · rw [bind_run_error hr]
    exact confined_self

/-- An asset written into the table. -/
theorem rewritten_asset {bytes : List UInt8} {assets : ExtTreeMap Bytes32 AssetRecord}
    (hdec : AssetRegistry.decode bytes = .ok assets) (id : Bytes32) {asset : AssetRecord}
    (hcap : AssetRegistry.Capped asset) :
    (assetEntry id).rewritten bytes (AssetRegistry.encode (assets.insert id asset)) :=
  rewritten_insert hdec fun _ h => AssetRegistry.decode_encode
    (Codec.forall_toList_insert (AssetRegistry.decode_capped hdec) hcap) h

theorem setAssetStatus_confined (id : Bytes32) (status : AssetStatus) :
    Confined blake3 (assetEntry id) [] s (setAssetStatus blake3 id status s).2 := by
  refine confined_of_guarded (setAssetStatus_guarded status) ?_
  rintro r ⟨assets, asset, hdec, hasset, rfl⟩
  have hcap : AssetRegistry.Capped { asset with status } :=
    AssetRegistry.decode_capped hdec id asset hasset
  exact confined_write (refl s) (rewritten_asset hdec id hcap) (refl _)

/-- **Isolation**: an intent on one slot, chain, asset, obligation or delegation pair changes at most
    the record of its registry, in that record at most its own entry, and no balance but those of its
    accounts; whether it succeeds or fails, and in whatever state. -/
theorem intents_isolated (s : InMemorySubstrate) (intent : Intent) (entry : Entry)
    (accounts : List Address) (h : intent.confinement blake3 s = some (entry, accounts)) :
    Confined blake3 entry accounts s (applyIntent blake3 intent s).2 := by
  have hslot : ∀ ring id op, intent.slotOp = some (ring, id, op) →
      Confined blake3 (ring.entry id) (op.accounts blake3 ring) s (applyIntent blake3 intent s).2 := by
    intro ring id op hop
    rw [applyIntent_of_slotOp hop]
    exact slotOp_confined ring id op
  cases intent with
  | delegate source id amount =>
    cases h
    exact delegate_confined source id amount
  | commitL2StateRoot batchId root proof inputs vk =>
    cases h
    refine confined_of_guarded applyCommitL2StateRoot_guarded ?_
    rintro r ⟨reg, hdec, -, -, rfl⟩
    exact confined_write (refl s) (Or.inr ⟨reg, reg.commit batchId root inputs vk, hdec,
      ⟨rfl, offKey_insert _ _ _⟩, rfl, fun _ h => L2Registry.decode_encode h⟩) (refl _)
  | setL2VerifyingKey chain agg range =>
    cases h
    refine confined_of_guarded (applySetL2VerifyingKey_guarded chain agg range) ?_
    rintro r ⟨reg, hdec, -, rfl⟩
    exact confined_write (refl s) (Or.inr ⟨reg, reg.setChainVks chain agg range, hdec,
      ⟨rfl, offKey_insert _ _ _⟩, rfl, fun _ h => L2Registry.decode_encode h⟩) (refl _)
  | l2ForceInclude tx deadline submitter nonce =>
    cases h
    refine confined_of_guarded (applyL2ForceInclude_guarded tx deadline submitter nonce) ?_
    rintro r ⟨map, hdec, -, rfl⟩
    exact confined_write (refl s) (rewritten_obligation hdec _ _) (refl _)
  | slashSequencer reason id =>
    cases reason with
    | missedForceInclude =>
      cases h
      refine settle_confined id .slashed fun o u hfound => ?_
      rw [hfound]
      exact (slashLivenessBond_ends (permits_onlyMoves _) (E := fun _ => True) (fun _ => trivial)
        (by simp) (by simp) (by simp) fun _ => by simp).leads
    | equivocation => cases h
    | invalidBatch => cases h
    | downtime => cases h
  | markForceIncludeHonored id =>
    cases h
    exact settle_confined id .honored fun _ _ _ => leads_pure ()
  | ejectSequencer id ejector =>
    cases h
    refine confined_of_guarded (applyEjectSequencer_guarded id ejector) ?_
    rintro r ⟨map, hdec, -, -, -, rfl⟩
    refine confined_write (refl s) (rewritten_insert hdec fun _ h =>
      EjectRegistry.decode_encode h) (leads_read_bind ?_)
    exact (payBounty_ends (permits_onlyMoves _) (E := fun _ => True) (fun _ => trivial) (by simp)
      (by simp) _).leads
  | addBridgeAsset chain contract decimals name symbol =>
    cases h
    refine confined_of_guarded (applyAddBridgeAsset_guarded chain contract decimals name symbol) ?_
    rintro r ⟨assets, hdec, -, hcap, rfl⟩
    exact confined_write (refl s) (rewritten_asset hdec _ hcap) (refl _)
  | pauseBridgeAsset id =>
    cases h
    exact setAssetStatus_confined id .paused
  | removeBridgeAsset id =>
    cases h
    exact setAssetStatus_confined id .removed
  | _ => first | cases h; exact hslot _ _ _ rfl | cases h

/-- A key is pinned for a chain, in an empty state. -/
theorem intents_isolated_setKey :
    (applyIntent Blake3.hash (.setL2VerifyingKey 1 2 3) new).1 = .ok () ∧
      Confined Blake3.hash (chainEntry 1) [] new
        (applyIntent Blake3.hash (.setL2VerifyingKey 1 2 3) new).2 :=
  ⟨by decide +kernel, intents_isolated new (.setL2VerifyingKey 1 2 3) (chainEntry 1) [] rfl⟩

end Arms

end SuwappuDag.Execution
