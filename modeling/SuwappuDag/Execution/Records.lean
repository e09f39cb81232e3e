/-
  NO RUN CORRUPTS A REGISTRY.

  1. **Held tables** — every registry record of a reachable state is the encoding of a table
     (`held_run`): nothing else is ever written.  This holds also where the decoder has stopped to accept
     the record, because a count of 2^32 or more was truncated.
  2. **Errors** — an intent answers `CorruptStateRecord` only where a record it reads does not decode
     (`applyIntent_plain`): all its other errors are its own.
  3. **Crux** — `registry_codecs_sound`: a table that fits decodes, so while every registry has fewer than
     2^32 entries no intent finds a corrupt record.
-/
import SuwappuDag.Execution.History

namespace SuwappuDag.Execution

open Words Command Reserved Codec InMemorySubstrate
open Std (ExtTreeMap)

variable {blake3 : List UInt8 → Bytes32} {s t : InMemorySubstrate}

/-! ## Held tables -/

/-- The bytes of an account's record are those of a table of `n` entries; no bytes are an empty one. -/
def Account.Holds (n : Nat) (bytes : List UInt8) (account : Account) : Prop :=
  (bytes = [] ∧ n = 0) ∨ account.Encodes n bytes

/-- Every record holds a table of the given number of entries. -/
def Held (blake3 : List UInt8 → Bytes32) (n : Account → Nat) (s : InMemorySubstrate) : Prop :=
  ∀ account : Account, account.Holds (n account) (recordAt s (account.address blake3))

/-- The step keeps the records in order. -/
def KeepsHeld (blake3 : List UInt8 → Bytes32) (s t : InMemorySubstrate) : Prop :=
  (∃ n, Held blake3 n s) → ∃ n, Held blake3 n t

instance : IsPreorder InMemorySubstrate (KeepsHeld blake3) where
  refl _ h := h
  trans _ _ _ hst htu h := htu (hst h)

theorem keepsHeld_of_records (h : t.bytesState = s.bytesState) : KeepsHeld blake3 s t := by
  rintro ⟨n, hn⟩
  refine ⟨n, fun account => ?_⟩
  rw [recordAt, readBytes, h]
  exact hn account

theorem Held.write (hres : ReservedDistinct blake3) {n : Account → Nat} (h : Held blake3 n s)
    {account : Account} {k : Nat} {bytes : List UInt8} (hbytes : account.Encodes k bytes) :
    Held blake3 (Function.update n account k)
      (s.writeBytesUnchecked (account.address blake3) bytes) := by
  intro other
  rw [recordAt, readBytes_writeBytesUnchecked]
  by_cases heq : other = account
  · subst heq
    rw [if_pos rfl, Function.update_self]
    exact Or.inr hbytes
  · rw [if_neg (Account.address_ne hres heq), Function.update_of_ne heq]
    exact h other

theorem allows_keepsHeld (hres : ReservedDistinct blake3) (fp : Footprint) :
    Footprint.Allows blake3 fp (KeepsHeld blake3) where
  record _ _ _ hbytes := fun ⟨n, hn⟩ => ⟨_, hn.write hres hbytes⟩
  insert _ _ _ := keepsHeld_of_records rfl
  store _ _ := keepsHeld_of_records (bytesState_storeBalance _ _ _)
  staged _ := keepsHeld_of_records rfl

theorem bytesState_fromBalances (entries : List (Address × Balance)) :
    (fromBalances entries).bytesState = ∅ := by
  have hgen : ∀ (entries : List (Address × Balance)) (s : InMemorySubstrate), s.bytesState = ∅ →
      (entries.foldl (fun s e =>
        if e.2 > 0 then { s with balances := s.balances.insert e.1 e.2 } else s) s).bytesState = ∅ := by
    intro entries
    induction entries with
    | nil => exact fun s h => h
    | cons e entries ih =>
      intro s h
      rw [List.foldl_cons]
      refine ih _ ?_
      by_cases hpos : e.2 > 0
      · rw [if_pos hpos]
        exact h
      · rw [if_neg hpos]
        exact h
  exact hgen entries new rfl

/-- **Every record of a reachable state holds a table.** -/
theorem held_run (hres : ReservedDistinct blake3) (entries : List (Address × Balance))
    (calls : List SubstrateCall) :
    ∃ n, Held blake3 n (runCalls blake3 calls (fromBalances entries)) := by
  refine history_invariant (P := fun _ s => ∃ n, Held blake3 n s) ?_ ?_ ?_ calls
  · refine ⟨fun _ => 0, fun account => Or.inl ⟨?_, rfl⟩⟩
    rw [recordAt, readBytes, bytesState_fromBalances, ExtTreeMap.getElem?_empty]
    rfl
  · exact fun _ _ _ h => h
  · exact fun _ s intent h => applyIntent_leads hres intent (allows_keepsHeld hres _) s h

/-! ## What decodes -/

theorem TableOf.decodes {μ : Type} {encode : μ → List UInt8} {decode : List UInt8 → Except String μ}
    {Fits Valid : μ → Prop} {size : μ → Nat} {n : Nat} {bytes : List UInt8}
    (hlaw : Lawful encode decode Fits) (hfits : ∀ m, Valid m → size m < 2 ^ 32 → Fits m)
    (hn : n < 2 ^ 32) (h : TableOf encode Valid size n bytes) : ∃ m, decode bytes = .ok m := by
  obtain ⟨m, hvalid, rfl, rfl⟩ := h
  exact ⟨m, hlaw.decode_encode m (hfits m hvalid hn)⟩

/-- A held table decodes when it fits. -/
theorem Account.Holds.decodes {account : Account} {n : Nat} {bytes : List UInt8}
    (h : account.Holds n bytes) (hn : n < 2 ^ 32) : account.Decodes bytes := by
  rcases h with ⟨rfl, -⟩ | h
  · cases account <;> first | exact ⟨_, rfl⟩ | exact trivial
  have hplain : ∀ {μ : Type} {m : μ} {size : μ → Nat}, True → size m < 2 ^ 32 → size m < 2 ^ 32 :=
    fun _ h => h
  cases account with
  | l2Registry =>
    exact TableOf.decodes L2Registry.lawful (fun _ _ hlt => max_lt_iff.mp hlt) hn h
  | forceIncludeRegistry => exact TableOf.decodes ForceInclude.lawful (fun _ => hplain) hn h
  | assetRegistry => exact TableOf.decodes AssetRegistry.lawful (fun _ hcap hlt => ⟨hlt, hcap⟩) hn h
  | ejectionRegistry => exact TableOf.decodes EjectRegistry.lawful (fun _ => hplain) hn h
  | burnNullifierRegistry => exact TableOf.decodes BurnNullifier.lawful (fun _ => hplain) hn h
  | equivocationRegistry => exact TableOf.decodes EquivocationRegistry.lawful (fun _ => hplain) hn h
  | authorityRegistry =>
    exact TableOf.decodes AuthorityRegistry.lawful (fun _ hcap hlt => ⟨hlt, hcap⟩) hn h
  | validatorRegistry =>
    exact TableOf.decodes ValidatorRegistry.lawful (fun _ hcap hlt => ⟨hlt, hcap⟩) hn h
  | validatorDelegationRegistry =>
    exact TableOf.decodes DelegationRegistry.lawful (fun _ hpos hlt => ⟨hlt, hpos⟩) hn h
  | inflationRegistry =>
    obtain ⟨-, epoch, rfl⟩ := h
    have hlen : (beBytes 8 epoch.toNat).length = 8 := length_beBytes 8 _
    have hne : beBytes 8 epoch.toNat ≠ [] := fun hnil => by simp [hnil] at hlen
    exact ⟨_, by rw [decodeInflation, if_neg hne, if_pos hlen]⟩
  | rewardsDistributionRegistry =>
    obtain ⟨-, authority, validator, rfl⟩ := h
    have hlen : (beBytes 8 authority.toNat ++ beBytes 8 validator.toNat).length = 16 := by
      rw [List.length_append, length_beBytes, length_beBytes]
    have hne : beBytes 8 authority.toNat ++ beBytes 8 validator.toNat ≠ [] :=
      fun hnil => by simp [hnil] at hlen
    exact ⟨_, by rw [decodeRewards, if_neg hne, if_pos hlen]⟩
  | _ => exact trivial

/-! ## The codecs of the registries -/

/-- What the nine codecs owe, each on the tables that fit. -/
structure RegistryCodecs : Prop where
  authority : Lawful AuthorityRegistry.encode AuthorityRegistry.decode fun map =>
    map.size < 2 ^ 32 ∧ ∀ e ∈ map.toList, RingRegistry.Capped e.2
  validator : Lawful ValidatorRegistry.encode ValidatorRegistry.decode fun map =>
    map.size < 2 ^ 32 ∧ ∀ e ∈ map.toList, RingRegistry.Capped e.2
  l2 : Lawful L2Registry.encode L2Registry.decode fun reg =>
    reg.chainVks.size < 2 ^ 32 ∧ reg.stateRoots.size < 2 ^ 32
  asset : Lawful AssetRegistry.encode AssetRegistry.decode fun assets =>
    assets.size < 2 ^ 32 ∧ ∀ e ∈ assets.toList, AssetRegistry.Capped e.2
  delegation : Lawful DelegationRegistry.encode DelegationRegistry.decode fun map =>
    map.size < 2 ^ 32 ∧ DelegationRegistry.Positive map
  forceInclude : Lawful ForceInclude.encodeMap ForceInclude.decodeMap fun map => map.size < 2 ^ 32
  burnNullifier : Lawful BurnNullifier.encode BurnNullifier.decode fun set => set.size < 2 ^ 32
  ejection : Lawful EjectRegistry.encode EjectRegistry.decode fun map => map.size < 2 ^ 32
  equivocation : Lawful EquivocationRegistry.encode EquivocationRegistry.decode fun map =>
    map.size < 2 ^ 32

theorem registryCodecs : RegistryCodecs where
  authority := AuthorityRegistry.lawful
  validator := ValidatorRegistry.lawful
  l2 := L2Registry.lawful
  asset := AssetRegistry.lawful
  delegation := DelegationRegistry.lawful
  forceInclude := ForceInclude.lawful
  burnNullifier := BurnNullifier.lawful
  ejection := EjectRegistry.lawful
  equivocation := EquivocationRegistry.lawful

/-- What older bytes decode to: a ring's slots with no exit height (version 2) and no deposit either
    (version 1), the batches of an L2 registry under the keys of its one chain. -/
structure OlderVersions : Prop where
  ringV2 : ∀ (ring : Ring) (map : RingMap), map.size < 2 ^ 32 →
    (∀ e ∈ map.toList, RingRegistry.Capped e.2) →
    ring.decode (RingRegistry.ringEncodeAs 2 RingRegistry.layoutV2 map) =
      .ok (map.map fun _ slot => { slot with exitBlockHeight := 0 })
  ringV1 : ∀ (ring : Ring) (map : RingMap), map.size < 2 ^ 32 →
    (∀ e ∈ map.toList, RingRegistry.Capped e.2) →
    ring.decode (RingRegistry.ringEncodeAs 1 RingRegistry.layoutV1 map) =
      .ok (map.map fun _ slot => { slot with depositedStake := 0, exitBlockHeight := 0 })
  l2V1 : ∀ (agg range : Bytes32) (roots : ExtTreeMap L2BatchKey L2StateRootRecord),
    roots.size < 2 ^ 32 → L2Registry.decode (L2Registry.encodeV1 agg range roots) =
      .ok ⟨if agg = 0 ∧ range = 0 then ∅
        else (∅ : ExtTreeMap Bytes32 ChainVks).insert 0 ⟨agg, range⟩, roots⟩

theorem olderVersions : OlderVersions where
  ringV2 ring map hlt hcap := by
    rw [ring.decode_eq]
    exact RingRegistry.ringDecode_ringEncodeAs rfl hcap hlt
  ringV1 ring map hlt hcap := by
    rw [ring.decode_eq]
    exact RingRegistry.ringDecode_ringEncodeAs rfl hcap hlt
  l2V1 agg range roots hlt := by
    rw [L2Registry.decode_encodeV1 agg range hlt, L2Registry.liftedVks]
    by_cases hzero : agg = 0 ∧ range = 0
    · rw [if_pos hzero, if_neg (by tauto)]
    · rw [if_neg hzero, if_pos (by tauto)]

/-- A delegation of nothing, which no intent makes. -/
def zeroDelegation : DelegationRegistry.DelegationMap :=
  (∅ : DelegationRegistry.DelegationMap).insert (toLex (7, 1)) 0

/-- It is not read back: the encoder leaves the entry out. -/
theorem zero_delegation_dropped : zeroDelegation.size < 2 ^ 32 ∧
    DelegationRegistry.decode (DelegationRegistry.encode zeroDelegation) ≠ .ok zeroDelegation := by
  refine ⟨by decide +kernel, fun h => ?_⟩
  have hsize : (DelegationRegistry.decode (DelegationRegistry.encode zeroDelegation)).toOption.map
      (·.size) ≠ some zeroDelegation.size := by decide +kernel
  rw [h] at hsize
  exact hsize rfl

/-- **The registry codecs are sound**: the nine round trips, in range on every input, older versions
    with their defaults; and in every run each record holds a table, so that an intent that finds
    every registry below 2^32 entries does not fail for a corrupt record. -/
theorem registry_codecs_sound (hres : ReservedDistinct blake3) :
    RegistryCodecs ∧ OlderVersions ∧
    ∀ entries calls, ∀ a ∈ history blake3 calls (fromBalances entries),
      (∃ n, Held blake3 n a.before) ∧
      ∀ n, Held blake3 n a.before → (∀ account, n account < 2 ^ 32) → ∀ addr reason,
        (applyIntent blake3 a.intent a.before).1 ≠ .error (.corruptStateRecord addr reason) := by
  refine ⟨registryCodecs, olderVersions, fun entries calls a ha => ⟨?_, ?_⟩⟩
  · obtain ⟨earlier, later, -, hbefore⟩ := cut_of_mem_history ha
    rw [← hbefore]
    exact held_run hres entries earlier
  · intro n hn hlt addr reason herr
    have hread : Readable blake3 a.before := fun account => (hn account).decodes (hlt account)
    cases applyIntent_plain hres hread a.intent _ herr

/-- Two forced transactions: the second finds the first one recorded. -/
def twoForced : List SubstrateCall :=
  [.applyIntent (.l2ForceInclude [1] 5 7 0), .applyIntent (.l2ForceInclude [2] 5 7 1)]

theorem registry_codecs_sound_twoForced :
    let s := runCalls Blake3.hash [.applyIntent (.l2ForceInclude [1] 5 7 0)] (fromBalances [])
    Held Blake3.hash (fun account => if account = .forceIncludeRegistry then 1 else 0) s ∧
      ∀ addr reason, (applyIntent Blake3.hash (.l2ForceInclude [2] 5 7 1) s).1 ≠
        .error (.corruptStateRecord addr reason) := by
  intro s
  have hheld : Held Blake3.hash (fun account => if account = .forceIncludeRegistry then 1 else 0) s := by
    intro account
    by_cases hforce : account = .forceIncludeRegistry
    · subst hforce
      refine Or.inr ⟨(∅ : ExtTreeMap Bytes32 ForceIncludeObligation).insert
        (ForceInclude.obligationId Blake3.hash [1] 5 7 0) ⟨Blake3.hash [1], 5, 7, 0, .pending⟩,
        trivial, ?_, ?_⟩ <;> decide +kernel
    · refine Or.inl ⟨?_, if_neg hforce⟩
      have hempty : ∀ account ∈ Account.all, account ≠ .forceIncludeRegistry →
          recordAt s (account.address Blake3.hash) = [] := by decide +kernel
      exact hempty account account.mem_all hforce
  refine ⟨hheld, ((registry_codecs_sound blake3_reservedDistinct).2.2 [] twoForced
    ⟨.l2ForceInclude [2] 5 7 1, s⟩ ?_).2 _ hheld fun account => ?_⟩
  · exact List.mem_cons_of_mem _ List.mem_cons_self
  · show (if account = _ then 1 else 0) < _
    split <;> decide

end SuwappuDag.Execution
