/-
  The lifecycle of a bridge asset after `RemoveBridgeAsset`.

  `AddBridgeAsset` refuses an id that is registered, whatever its status, and the two other intents
  only ever write `Paused` and `Removed`.  So an asset that has been removed is never active again, and
  no lock and no burn of a positive amount that names it goes through.  Its status, however, does not
  stay `Removed`: `PauseBridgeAsset` looks at the registration only, and writes `Paused` over it.

  `StatusIn S id` is the invariant: if the registry can be read, the asset is in it, with a status in
  `S`.  Every application keeps it for a set that holds `Removed` and, unless no pause of the asset
  succeeds, `Paused`.
-/
import SuwappuDag.Execution.Isolation

namespace SuwappuDag.Execution

open Words Command Reserved InMemorySubstrate
open Std (ExtTreeMap)

section Lifecycle
variable {blake3 : List UInt8 → Bytes32} {s : InMemorySubstrate} {id : Bytes32}
  {S : AssetStatus → Prop}

/-- Where the asset registry can be read, the asset is in it, with a status in `S`. -/
def StatusIn (blake3 : List UInt8 → Bytes32) (S : AssetStatus → Prop) (id : Bytes32)
    (s : InMemorySubstrate) : Prop :=
  ∀ assets, AssetRegistry.decode (recordAt s (assetRegistryAddress blake3)) = .ok assets →
    ∃ asset, assets[id]? = some asset ∧ S asset.status

/-- One asset is written, into a table that was read. -/
theorem statusIn_write {assets : ExtTreeMap Bytes32 AssetRecord} {key : Bytes32} {asset : AssetRecord}
    (hdec : AssetRegistry.decode (recordAt s (assetRegistryAddress blake3)) = .ok assets)
    (hcap : AssetRegistry.Capped asset)
    (h : if key = id then S asset.status else StatusIn blake3 S id s) :
    StatusIn blake3 S id (s.writeBytesUnchecked (assetRegistryAddress blake3)
      (AssetRegistry.encode (assets.insert key asset))) := by
  intro assets' hdec'
  rw [recordAt_write] at hdec'
  rw [AssetRegistry.decode_encode (Codec.forall_toList_insert (AssetRegistry.decode_capped hdec) hcap)
    hdec', ExtTreeMap.getElem?_insert]
  split_ifs at h with hkey
  · rw [if_pos (compare_eq_iff_eq.mpr hkey)]
    exact ⟨asset, rfl, h⟩
  · rw [if_neg (hkey ∘ compare_eq_iff_eq.mp)]
    exact h assets hdec

theorem statusIn_setAssetStatus {key : Bytes32} {status : AssetStatus}
    (hS : key = id → (setAssetStatus blake3 key status s).1 = .ok () → S status)
    (h : StatusIn blake3 S id s) : StatusIn blake3 S id (setAssetStatus blake3 key status s).2 := by
  have hguarded : Guarded (setAssetStatus blake3 key status) s _ := setAssetStatus_guarded status
  rcases hguarded with ⟨assets, asset, hdec, hasset, hr⟩ | ⟨-, e, hr⟩ <;> rw [hr] at hS ⊢
  · refine statusIn_write hdec (AssetRegistry.decode_capped hdec key asset hasset) ?_
    split_ifs with hkey
    · exact hS hkey rfl
    · exact h
  · exact h

/-- A registered asset is not registered again. -/
theorem statusIn_addBridgeAsset (chain : UInt64) (contract : List UInt8) (decimals : UInt8)
    (name symbol : List UInt8) (h : StatusIn blake3 S id s) :
    StatusIn blake3 S id (applyAddBridgeAsset blake3 chain contract decimals name symbol s).2 := by
  have hguarded : Guarded (applyAddBridgeAsset blake3 chain contract decimals name symbol) s _ :=
    applyAddBridgeAsset_guarded chain contract decimals name symbol
  rcases hguarded with ⟨assets, hdec, hnew, hcap, hr⟩ | ⟨-, e, hr⟩ <;> rw [hr]
  · refine statusIn_write hdec hcap ?_
    rw [if_neg]
    · exact h
    · rintro rfl
      obtain ⟨asset, hasset, -⟩ := h assets hdec
      exact hnew (ExtTreeMap.mem_iff_isSome_getElem?.mpr (by simp [hasset]))
  · exact h

/-- One application. -/
theorem statusIn_step (hres : ReservedDistinct blake3) {intent : Intent} (hremoved : S .removed)
    (hpaused : intent = .pauseBridgeAsset id → (applyIntent blake3 intent s).1 = .ok () → S .paused)
    (h : StatusIn blake3 S id s) : StatusIn blake3 S id (applyIntent blake3 intent s).2 := by
  have hframe : intent.footprint.record ≠ some .assetRegistry →
      StatusIn blake3 S id (applyIntent blake3 intent s).2 := by
    intro hrec assets hdec
    rw [show assetRegistryAddress blake3 = Account.assetRegistry.address blake3 from rfl,
      (applyIntent_touches hres s intent).record_eq hres hrec] at hdec
    exact h assets hdec
  cases intent
  case addBridgeAsset chain contract decimals name symbol =>
    exact statusIn_addBridgeAsset chain contract decimals name symbol h
  case pauseBridgeAsset key =>
    exact statusIn_setAssetStatus (fun hkey hok => hpaused (hkey ▸ rfl) hok) h
  case removeBridgeAsset key => exact statusIn_setAssetStatus (fun _ _ => hremoved) h
  case slashSequencer reason hash => cases reason <;> exact hframe (by simp [Intent.footprint])
  all_goals exact hframe (by simp [Intent.footprint, Ring.footprint, Ring.registry])

/-- A run, in which the asset may or may not be paused. -/
theorem statusIn_runCalls (hres : ReservedDistinct blake3) (hremoved : S .removed)
    (h : StatusIn blake3 S id s) (calls : List SubstrateCall) :
    (∀ a ∈ history blake3 calls s, a.intent = .pauseBridgeAsset id → a.Succeeds blake3 → S .paused) →
      StatusIn blake3 S id (runCalls blake3 calls s) :=
  history_invariant (P := fun l t => (∀ a ∈ l, a.intent = .pauseBridgeAsset id →
      a.Succeeds blake3 → S .paused) → StatusIn blake3 S id t) (fun _ => h) (fun _ _ _ h => h)
    (fun l t intent ih hl => statusIn_step hres hremoved
      (hl ⟨intent, t⟩ (by simp)) (ih fun a ha => hl a (List.mem_append_left _ ha))) calls

/-- An asset that is not active does not pass the gate of locks and burns. -/
theorem not_active_of_statusIn (h : StatusIn blake3 (· ≠ .active) id s) :
    assertBridgeAssetActive blake3 (some id) s ≠ .ok () := by
  unfold assertBridgeAssetActive assetRegistry
  cases hdec : AssetRegistry.decode ((s.readBytes (assetRegistryAddress blake3)).getD []) with
  | error e => simp
  | ok assets =>
    obtain ⟨asset, hasset, hstatus⟩ := h assets hdec
    simp [hasset, hstatus]

/-- **A removed asset is never active again.**  After a successful removal, in every later state whose
    registry can be read, the asset is registered and not active, and it is `Removed` if no
    `PauseBridgeAsset` of it has succeeded since; and no lock or burn of a positive amount that names it
    succeeds. -/
theorem removed_never_active (hres : ReservedDistinct blake3) (s : InMemorySubstrate) (id : Bytes32)
    (hok : (applyIntent blake3 (.removeBridgeAsset id) s).1 = .ok ()) (later : List SubstrateCall) :
    let after := (applyIntent blake3 (.removeBridgeAsset id) s).2
    let t := runCalls blake3 later after
    (∀ assets, AssetRegistry.decode (recordAt t (assetRegistryAddress blake3)) = .ok assets →
      ∃ asset, assets[id]? = some asset ∧ asset.status ≠ .active ∧
        ((∀ a ∈ history blake3 later after, a.intent = .pauseBridgeAsset id → ¬ a.Succeeds blake3) →
          asset.status = .removed)) ∧
    ∀ amount : Balance, amount ≠ 0 →
      (∀ user l2, (applyIntent blake3 (.l1Lock user l2 amount (some id)) t).1 ≠ .ok ()) ∧
      ∀ batchId recipient path chain,
        (applyIntent blake3 (.l2BurnProven batchId recipient amount path (some id) chain) t).1
          ≠ .ok () := by
  intro after t
  have hafter : StatusIn blake3 (· = .removed) id after := by
    have hguarded : Guarded (setAssetStatus blake3 id .removed) s _ := setAssetStatus_guarded .removed
    have hrun : setAssetStatus blake3 id .removed s = (.ok (), after) :=
      Prod.ext (show (setAssetStatus blake3 id .removed s).1 = .ok () from hok) rfl
    obtain ⟨assets, asset, hdec, hasset, hr⟩ := hguarded.ok hrun
    rw [(Prod.mk.inj hr).2]
    refine statusIn_write hdec (AssetRegistry.decode_capped hdec id asset hasset) ?_
    rw [if_pos rfl]
  have hidle : StatusIn blake3 (· ≠ .active) id t :=
    statusIn_runCalls hres (by decide) (fun assets hdec => (hafter assets hdec).imp fun asset h =>
      ⟨h.1, by rw [h.2]; decide⟩) later fun _ _ _ _ => by decide
  refine ⟨fun assets hdec => ?_, fun amount h0 =>
    ⟨fun user l2 h => ?_, fun batchId recipient path chain h => ?_⟩⟩
  · obtain ⟨asset, hasset, hstatus⟩ := hidle assets hdec
    refine ⟨asset, hasset, hstatus, fun hnever => ?_⟩
    obtain ⟨asset', hasset', hremoved⟩ := statusIn_runCalls hres (S := (· = .removed)) rfl hafter later
      (fun a ha hpause hok => absurd hok (hnever a ha hpause)) assets hdec
    cases hasset.symm.trans hasset'
    exact hremoved
  · have hrun : applyL1Lock blake3 user amount (some id) t = (.ok (), _) := Prod.ext h rfl
    rw [applyL1Lock, if_neg h0] at hrun
    obtain ⟨_, _, hgate, -⟩ := bind_eq_ok_iff.mp hrun
    exact not_active_of_statusIn hidle (fetch_eq_ok_iff.mp hgate).1
  · have hguarded : Guarded (applyIntent blake3 (Burn.intent ⟨batchId, recipient, amount, path, some id,
        chain⟩)) t _ := Burn.guarded h0
    obtain ⟨-, -, -, -, hgate, -⟩ := hguarded.ok (Prod.ext h rfl)
    exact not_active_of_statusIn hidle hgate

/-- An asset is registered. -/
def listedAsset : InMemorySubstrate := (applyIntent Blake3.hash (.addBridgeAsset 1 [] 6 [] []) new).2

def listedAssetId : Bytes32 := AssetRegistry.assetId Blake3.hash 1 []

theorem removed_never_active_listed :
    (applyIntent Blake3.hash (.l1Lock 7 8 1 (some listedAssetId))
      (applyIntent Blake3.hash (.removeBridgeAsset listedAssetId) listedAsset).2).1 ≠ .ok () :=
  ((removed_never_active blake3_reservedDistinct listedAsset listedAssetId (by decide +kernel) []).2 1
    (by decide)).1 7 8

/-- A pause after the removal: the asset is `Paused`. -/
theorem removed_then_paused :
    (applyIntent Blake3.hash (.removeBridgeAsset listedAssetId) listedAsset).1 = .ok () ∧
      ((assetRegistry Blake3.hash (runCalls Blake3.hash [.applyIntent (.pauseBridgeAsset listedAssetId)]
        (applyIntent Blake3.hash (.removeBridgeAsset listedAssetId) listedAsset).2))[listedAssetId]?.map
          (·.status)) = some .paused := by
  decide +kernel

end Lifecycle

end SuwappuDag.Execution
