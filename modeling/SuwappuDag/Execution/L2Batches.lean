/-
  COMMITTED L2 BATCHES.

  1. **Step** — two intents write the registry of batches: `CommitL2StateRoot` puts one record into it,
     `SetL2VerifyingKey` one pair of keys.  What they write is read back as long as the counts fit into
     32 bits (`l2Registry_write`); otherwise the registry is shown EMPTY from then on.
  2. **What is recorded** — the chain, the anchor height and the DA commitment of a record come from the
     public inputs that were verified, the batch id and the state root from the intent itself, and
     nothing compares the two (`commit_as_proven_iff`).
  3. **How long it stays** — a commit overwrites.  A run keeps every record exactly as long as no commit
     meets a record with other contents and no count runs over (`batches_kept_iff`).
-/
import SuwappuDag.Execution.Arms
import SuwappuDag.Execution.History

namespace SuwappuDag.Execution

open Words Command Reserved InMemorySubstrate
open Std (ExtTreeMap)

variable {blake3 : List UInt8 → Bytes32} {s t : InMemorySubstrate}

/-! ## Reading the registry back -/

theorem l2Registry_of_decode {reg : L2Registry}
    (h : L2Registry.decode (recordAt s (l2RegistryAddress blake3)) = .ok reg) :
    l2Registry blake3 s = reg := by
  have hread : L2Registry.decode ((s.readBytes (l2RegistryAddress blake3)).getD []) = .ok reg := h
  rw [l2Registry, hread]

theorem l2Registry_congr
    (h : recordAt t (l2RegistryAddress blake3) = recordAt s (l2RegistryAddress blake3)) :
    l2Registry blake3 t = l2Registry blake3 s := by
  have hbytes : (t.readBytes (l2RegistryAddress blake3)).getD [] =
    (s.readBytes (l2RegistryAddress blake3)).getD [] := h
  rw [l2Registry, hbytes, l2Registry]

theorem l2Registry_write {reg : L2Registry} (hfits : reg.Fits) :
    l2Registry blake3 (s.writeBytesUnchecked (l2RegistryAddress blake3) reg.encode) = reg := by
  apply l2Registry_of_decode
  rw [recordAt, readBytes_writeBytesUnchecked, if_pos rfl]
  exact L2Registry.decode_encode_of_fits hfits

/-- A registry whose counts do not fit is not shown any more. -/
theorem l2Registry_write_overflow {reg : L2Registry} (hfits : ¬ reg.Fits) :
    l2Registry blake3 (s.writeBytesUnchecked (l2RegistryAddress blake3) reg.encode) =
      L2Registry.empty := by
  have hread : ((s.writeBytesUnchecked (l2RegistryAddress blake3) reg.encode).readBytes
      (l2RegistryAddress blake3)).getD [] = reg.encode := by
    rw [readBytes_writeBytesUnchecked, if_pos rfl]
  rw [l2Registry, hread]
  cases hdec : L2Registry.decode reg.encode with
  | error e => rfl
  | ok reg' => exact absurd (L2Registry.fits_of_decode_encode hdec) hfits

/-! ## What is recorded -/

section Recorded

/-- The batch id in a blob of public inputs. -/
def provenBatch (inputs : List UInt8) : UInt64 :=
  UInt64.ofNat (publicInputAt inputs L2Verifier.batchIdOffset 8)

/-- The new state root in a blob of public inputs. -/
def provenRoot (inputs : List UInt8) : Bytes32 :=
  BitVec.ofNat 256 (publicInputAt inputs L2Verifier.newL2StateRootOffset 32)

/-- The registry has the batch, or takes another one without running its count over. -/
def L2Registry.HasRoom (reg : L2Registry) (key : L2BatchKey) : Prop :=
  key ∈ reg.stateRoots ∨ reg.stateRoots.size + 1 < 2 ^ 32

/-- A commit of `batchId` recorded what the public inputs say: under their chain and batch, with their
    state root, anchor height and DA commitment, and the key that was pinned; and it touched no other
    record. -/
structure RecordsProven (blake3 : List UInt8 → Bytes32) (batchId : UInt64) (inputs : List UInt8)
    (s t : InMemorySubstrate) : Prop where
  batch : batchId = provenBatch inputs
  record : ∃ record,
    (l2Registry blake3 t).stateRoots[(toLex (provenChain inputs, batchId) : L2BatchKey)]? =
      some record ∧
    record.stateRoot = provenRoot inputs ∧
    record.committedAtL1Height =
      UInt64.ofNat (publicInputAt inputs L2Verifier.l1AnchorHeightOffset 8) ∧
    record.daCommitment = BitVec.ofNat 256 (publicInputAt inputs L2Verifier.daCommitmentOffset 32) ∧
    record.vkHash = (l2Registry blake3 s).aggregationVkHash (provenChain inputs)
  others : ∀ key : L2BatchKey, key ≠ toLex (provenChain inputs, batchId) →
    (l2Registry blake3 t).stateRoots[key]? = (l2Registry blake3 s).stateRoots[key]?

variable {batchId : UInt64} {root vkHash : Bytes32} {proof inputs : List UInt8}

theorem commit_fits_iff {reg : L2Registry} (hfits : reg.Fits) :
    (reg.commit batchId root inputs vkHash).Fits ↔ reg.HasRoom (toLex (provenChain inputs, batchId)) := by
  unfold L2Registry.Fits L2Registry.HasRoom L2Registry.commit at *
  simp only [ExtTreeMap.size_insert]
  split
  · next hmem => exact iff_of_true hfits (Or.inl hmem)
  · next hmem =>
    constructor
    · exact fun h => Or.inr h.2
    · rintro (h | h)
      · exact absurd h hmem
      · exact ⟨hfits.1, h⟩

/-- **What a commit records.**  In any state, for any `CommitL2StateRoot` that succeeds: the record is
    what was proven EXACTLY when the batch id and the state root of the intent are those of the public
    inputs, and the registry has room for the batch. -/
theorem commit_as_proven_iff (s : InMemorySubstrate) (batchId : UInt64) (root : Bytes32)
    (proof inputs : List UInt8) (vkHash : Bytes32)
    (hok : (applyIntent blake3 (.commitL2StateRoot batchId root proof inputs vkHash) s).1 = .ok ()) :
    RecordsProven blake3 batchId inputs s
        (applyIntent blake3 (.commitL2StateRoot batchId root proof inputs vkHash) s).2 ↔
      batchId = provenBatch inputs ∧ root = provenRoot inputs ∧
        (l2Registry blake3 s).HasRoom (toLex (provenChain inputs, batchId)) := by
  have hguarded : Guarded (applyCommitL2StateRoot blake3 batchId root proof inputs vkHash) s _ :=
    applyCommitL2StateRoot_guarded
  have hok' : (applyCommitL2StateRoot blake3 batchId root proof inputs vkHash s).1 = .ok () := hok
  rcases hguarded with ⟨reg, hdec, -, hpin, hr⟩ | ⟨-, e, hr⟩
  swap
  · rw [hr] at hok'
    cases hok'
  have hstate : (applyIntent blake3 (.commitL2StateRoot batchId root proof inputs vkHash) s).2 =
      s.writeBytesUnchecked (l2RegistryAddress blake3)
        (reg.commit batchId root inputs vkHash).encode := congrArg Prod.snd hr
  rw [hstate, l2Registry_of_decode hdec, ← commit_fits_iff (L2Registry.fits_of_decode hdec)]
  constructor
  · rintro ⟨hbatch, ⟨record, hrecord, hroot, -⟩, -⟩
    by_cases hfits : (reg.commit batchId root inputs vkHash).Fits
    · rw [l2Registry_write hfits, L2Registry.commit, ExtTreeMap.getElem?_insert_self] at hrecord
      cases hrecord
      exact ⟨hbatch, hroot, hfits⟩
    · rw [l2Registry_write_overflow hfits] at hrecord
      cases hrecord
  · rintro ⟨hbatch, hroot, hfits⟩
    refine ⟨hbatch, ⟨committedRecord root inputs vkHash, ?_, hroot, rfl, rfl, ?_⟩, fun key hkey => ?_⟩
    · rw [l2Registry_write hfits, L2Registry.commit, ExtTreeMap.getElem?_insert_self]
    · rw [l2Registry_of_decode hdec, hpin]
      rfl
    · rw [l2Registry_write hfits, l2Registry_of_decode hdec, L2Registry.commit,
        ExtTreeMap.getElem?_insert, if_neg]
      exact fun heq => hkey (compare_eq_iff_eq.mp heq).symm

/-- A chain with a pinned key. -/
def pinnedChain : InMemorySubstrate :=
  runCalls Blake3.hash [.applyIntent (.setL2VerifyingKey 0 1 0)] new

/-- Public inputs that are zero throughout: chain 0, batch 0, state root 0. -/
def zeroInputs : List UInt8 := List.replicate 240 0

def someProof : List UInt8 := List.replicate 260 0

/-- A commit of batch 0 with state root 0 records what these inputs say. -/
theorem commit_as_proven_iff_zero :
    (applyIntent Blake3.hash (.commitL2StateRoot 0 0 someProof zeroInputs 1) pinnedChain).1 = .ok () ∧
      RecordsProven Blake3.hash 0 zeroInputs pinnedChain
        (applyIntent Blake3.hash (.commitL2StateRoot 0 0 someProof zeroInputs 1) pinnedChain).2 := by
  have hok : (applyIntent Blake3.hash (.commitL2StateRoot 0 0 someProof zeroInputs 1)
      pinnedChain).1 = .ok () := by decide +kernel
  have hsize : (l2Registry Blake3.hash pinnedChain).stateRoots.size + 1 < 2 ^ 32 := by decide +kernel
  refine ⟨hok, (commit_as_proven_iff pinnedChain 0 0 someProof zeroInputs 1 hok).mpr ⟨?_, ?_, ?_⟩⟩
  · decide +kernel
  · decide +kernel
  · exact Or.inr hsize

/-- The same inputs are accepted for batch 7 with state root 9, and recorded as that. -/
theorem commit_of_unproven_batch :
    (applyIntent Blake3.hash (.commitL2StateRoot 7 9 someProof zeroInputs 1) pinnedChain).1 = .ok () ∧
      provenBatch zeroInputs = 0 ∧ provenRoot zeroInputs = 0 ∧
      ((l2Registry Blake3.hash (applyIntent Blake3.hash
        (.commitL2StateRoot 7 9 someProof zeroInputs 1) pinnedChain).2).stateRoots[
          (toLex (provenChain zeroInputs, 7) : L2BatchKey)]?.map L2StateRootRecord.stateRoot) =
        some 9 := by
  decide +kernel

end Recorded

/-! ## How long it stays -/

section Kept

variable {a : Applied}

theorem l2_of_record {intent : Intent} (h : intent.footprint.record = some .l2Registry) :
    (∃ batchId root proof inputs vkHash,
      intent = .commitL2StateRoot batchId root proof inputs vkHash) ∨
    ∃ chain agg range, intent = .setL2VerifyingKey chain agg range := by
  cases intent with
  | commitL2StateRoot batchId root proof inputs vkHash =>
    exact Or.inl ⟨batchId, root, proof, inputs, vkHash, rfl⟩
  | setL2VerifyingKey chain agg range => exact Or.inr ⟨chain, agg, range, rfl⟩
  | slashSequencer reason hash => cases reason <;> cases h
  | _ => cases h

/-- Every record that is shown in `s` is shown in `t`. -/
def BatchesKept (blake3 : List UInt8 → Bytes32) (s t : InMemorySubstrate) : Prop :=
  ∀ (key : L2BatchKey) (record : L2StateRootRecord),
    (l2Registry blake3 s).stateRoots[key]? = some record →
    (l2Registry blake3 t).stateRoots[key]? = some record

/-- The registry has the chain, or takes another one without running its count over. -/
def L2Registry.HasVkRoom (reg : L2Registry) (chain : Bytes32) : Prop :=
  chain ∈ reg.chainVks ∨ reg.chainVks.size + 1 < 2 ^ 32

/-- The application is an accepted commit that meets other contents under its key or finds the batches
    full; or an accepted rotation that finds the chains full while batches are shown. -/
def Applied.Destroys (blake3 : List UInt8 → Bytes32) (a : Applied) : Prop :=
  match a.intent with
  | .commitL2StateRoot batchId root proof inputs vkHash =>
    L2Verifier.verifyL2Batch proof inputs vkHash = .ok () ∧
      (l2Registry blake3 a.before).aggregationVkHash (provenChain inputs) = vkHash ∧
      ((∃ old, (l2Registry blake3 a.before).stateRoots[
          (toLex (provenChain inputs, batchId) : L2BatchKey)]? = some old ∧
          old ≠ committedRecord root inputs vkHash) ∨
        ¬ (l2Registry blake3 a.before).HasRoom (toLex (provenChain inputs, batchId)))
  | .setL2VerifyingKey chain agg range =>
    ¬ (agg = 0 ∧ range = 0) ∧ (l2Registry blake3 a.before).stateRoots.size ≠ 0 ∧
      ¬ (l2Registry blake3 a.before).HasVkRoom chain
  | _ => False

/-- Nothing is kept of a table that is not shown, unless there was nothing. -/
theorem batchesKept_empty_iff (h : l2Registry blake3 t = L2Registry.empty) :
    BatchesKept blake3 s t ↔ (l2Registry blake3 s).stateRoots.size = 0 := by
  rw [MapSum.size_eq_zero_iff]
  constructor
  · intro hkept key hkey
    obtain ⟨record, hrecord⟩ := Option.isSome_iff_exists.mp (ExtTreeMap.isSome_getElem?_iff_mem.mpr hkey)
    have hgone := hkept key record hrecord
    rw [h] at hgone
    cases hgone
  · intro hnone key record hrecord
    exact absurd (ExtTreeMap.isSome_getElem?_iff_mem.mp (Option.isSome_of_eq_some hrecord)) (hnone key)

theorem batchesKept_refl (s : InMemorySubstrate) : BatchesKept blake3 s s := fun _ _ h => h

theorem BatchesKept.trans {u : InMemorySubstrate} (hst : BatchesKept blake3 s t)
    (htu : BatchesKept blake3 t u) : BatchesKept blake3 s u :=
  fun key record h => htu key record (hst key record h)

/-- A record that is unreadable shows nothing, so there is nothing to destroy. -/
theorem l2Registry_of_error {e : String}
    (h : L2Registry.decode (recordAt s (l2RegistryAddress blake3)) = .error e) :
    l2Registry blake3 s = L2Registry.empty := by
  have hread : L2Registry.decode ((s.readBytes (l2RegistryAddress blake3)).getD []) = .error e := h
  rw [l2Registry, hread]

/-- Inserting a record keeps the others, and its own key if it was there with the same contents. -/
theorem commit_kept_of_fits {reg : L2Registry} {batchId : UInt64} {root vkHash : Bytes32}
    {inputs : List UInt8} (hs : l2Registry blake3 s = reg)
    (ht : l2Registry blake3 t = reg.commit batchId root inputs vkHash) :
    BatchesKept blake3 s t ↔
      ¬ ∃ old, reg.stateRoots[(toLex (provenChain inputs, batchId) : L2BatchKey)]? = some old ∧
        old ≠ committedRecord root inputs vkHash := by
  rw [BatchesKept, hs, ht]
  simp only [L2Registry.commit, ExtTreeMap.getElem?_insert]
  constructor
  · rintro hkept ⟨old, hold, hne⟩
    have hnew := hkept _ old hold
    rw [if_pos (compare_eq_iff_eq.mpr rfl)] at hnew
    exact hne (Option.some.inj hnew).symm
  · intro hnone key record hrecord
    split
    · next heq =>
      rw [compare_eq_iff_eq] at heq
      subst heq
      by_contra hne
      exact hnone ⟨record, hrecord, fun h => hne (congrArg some h.symm)⟩
    · exact hrecord

theorem commit_kept_iff (s : InMemorySubstrate) (batchId : UInt64) (root : Bytes32)
    (proof inputs : List UInt8) (vkHash : Bytes32) :
    BatchesKept blake3 s
        (applyIntent blake3 (.commitL2StateRoot batchId root proof inputs vkHash) s).2 ↔
      ¬ Applied.Destroys blake3 ⟨.commitL2StateRoot batchId root proof inputs vkHash, s⟩ := by
  have hguarded : Guarded (applyCommitL2StateRoot blake3 batchId root proof inputs vkHash) s _ :=
    applyCommitL2StateRoot_guarded
  rcases hguarded with ⟨reg, hdec, hverify, hpin, hr⟩ | ⟨hnone, e, hr⟩
  · have hstate : (applyIntent blake3 (.commitL2StateRoot batchId root proof inputs vkHash) s).2 =
        s.writeBytesUnchecked (l2RegistryAddress blake3)
          (reg.commit batchId root inputs vkHash).encode := congrArg Prod.snd hr
    have hs := l2Registry_of_decode hdec
    have hroom : (reg.commit batchId root inputs vkHash).Fits ↔ _ :=
      commit_fits_iff (L2Registry.fits_of_decode hdec)
    rw [hstate, Applied.Destroys]
    simp only [hs, hverify, hpin, true_and]
    by_cases hfits : (reg.commit batchId root inputs vkHash).Fits
    · rw [commit_kept_of_fits hs (l2Registry_write hfits)]
      simp only [hroom.mp hfits, not_true_eq_false, or_false]
    · rw [batchesKept_empty_iff (l2Registry_write_overflow hfits), hs]
      have hfull : ¬ reg.HasRoom (toLex (provenChain inputs, batchId)) := mt hroom.mpr hfits
      have hmany : ¬ reg.stateRoots.size + 1 < 2 ^ 32 := fun h => hfull (Or.inr h)
      exact iff_of_false (by omega) (not_not.mpr (Or.inr hfull))
  · have hstate : (applyIntent blake3 (.commitL2StateRoot batchId root proof inputs vkHash) s).2 = s :=
      congrArg Prod.snd hr
    rw [hstate]
    refine iff_of_true (batchesKept_refl s) ?_
    rintro ⟨hverify, hpin, hclash⟩
    cases hdec : L2Registry.decode (recordAt s (l2RegistryAddress blake3)) with
    | ok reg =>
      rw [l2Registry_of_decode hdec] at hpin
      exact hnone _ ⟨reg, hdec, hverify, hpin, rfl⟩
    | error e' =>
      have hempty := l2Registry_of_error hdec
      rcases hclash with ⟨old, hold, -⟩ | hfull
      · rw [hempty] at hold
        cases hold
      · rw [hempty] at hfull
        exact hfull (Or.inr (by decide))

theorem setChainVks_fits_iff {reg : L2Registry} (hfits : reg.Fits) (chain agg range : Bytes32) :
    (reg.setChainVks chain agg range).Fits ↔ reg.HasVkRoom chain := by
  unfold L2Registry.Fits L2Registry.HasVkRoom L2Registry.setChainVks at *
  simp only [ExtTreeMap.size_insert]
  split
  · next hmem => exact iff_of_true hfits (Or.inl hmem)
  · next hmem =>
    constructor
    · exact fun h => Or.inr h.1
    · rintro (h | h)
      · exact absurd h hmem
      · exact ⟨h, hfits.2⟩

theorem rotation_kept_iff (s : InMemorySubstrate) (chain agg range : Bytes32) :
    BatchesKept blake3 s (applyIntent blake3 (.setL2VerifyingKey chain agg range) s).2 ↔
      ¬ Applied.Destroys blake3 ⟨.setL2VerifyingKey chain agg range, s⟩ := by
  have hguarded : Guarded (applySetL2VerifyingKey blake3 chain agg range) s _ :=
    applySetL2VerifyingKey_guarded chain agg range
  rcases hguarded with ⟨reg, hdec, hkeys, hr⟩ | ⟨hnone, e, hr⟩
  · have hstate : (applyIntent blake3 (.setL2VerifyingKey chain agg range) s).2 =
        s.writeBytesUnchecked (l2RegistryAddress blake3)
          (reg.setChainVks chain agg range).encode := congrArg Prod.snd hr
    have hs := l2Registry_of_decode hdec
    have hroom := setChainVks_fits_iff (L2Registry.fits_of_decode hdec) chain agg range
    rw [hstate, Applied.Destroys]
    simp only [hs, hkeys, not_false_eq_true, true_and]
    by_cases hfits : (reg.setChainVks chain agg range).Fits
    · refine iff_of_true (fun key record hrecord => ?_) fun h => h.2 (hroom.mp hfits)
      rw [l2Registry_write hfits]
      rwa [hs] at hrecord
    · rw [batchesKept_empty_iff (l2Registry_write_overflow hfits), hs]
      simp only [mt hroom.mpr hfits, not_false_eq_true, and_true, ne_eq, not_not]
  · have hstate : (applyIntent blake3 (.setL2VerifyingKey chain agg range) s).2 = s :=
      congrArg Prod.snd hr
    rw [hstate]
    refine iff_of_true (batchesKept_refl s) ?_
    rintro ⟨hkeys, hsome, -⟩
    cases hdec : L2Registry.decode (recordAt s (l2RegistryAddress blake3)) with
    | ok reg => exact hnone _ ⟨reg, hdec, hkeys, rfl⟩
    | error e' =>
      have hempty : (l2Registry blake3 s).stateRoots.size ≠ 0 := hsome
      rw [l2Registry_of_error hdec] at hempty
      exact hempty rfl

/-- **One application**: it keeps every record exactly when it destroys none. -/
theorem kept_iff_not_destroys (hres : ReservedDistinct blake3) (a : Applied) :
    BatchesKept blake3 a.before (a.after blake3) ↔ ¬ a.Destroys blake3 := by
  obtain ⟨intent, s⟩ := a
  by_cases hrec : intent.footprint.record = some .l2Registry
  · rcases l2_of_record hrec with ⟨batchId, root, proof, inputs, vkHash, rfl⟩ | ⟨chain, agg, range, rfl⟩
    · exact commit_kept_iff s batchId root proof inputs vkHash
    · exact rotation_kept_iff s chain agg range
  · have hsame := (applyIntent_touches hres s intent).record_eq hres hrec
    refine iff_of_true (fun key record hrecord => ?_) fun hdestroys => ?_
    · rwa [Applied.after, l2Registry_congr hsame]
    · cases intent with
      | commitL2StateRoot batchId root proof inputs vkHash => exact hrec rfl
      | setL2VerifyingKey chain agg range => exact hrec rfl
      | _ => exact hdestroys

/-- The run lemma, by induction over the calls. -/
theorem batchesKept_runCalls (hres : ReservedDistinct blake3) {calls : List SubstrateCall}
    (h : ∀ a ∈ history blake3 calls s, ¬ a.Destroys blake3) :
    BatchesKept blake3 s (runCalls blake3 calls s) := by
  induction calls generalizing s with
  | nil => exact batchesKept_refl s
  | cons call calls ih =>
    cases call with
    | setCurrentBlockHeight height => exact ih (s := s.setCurrentBlockHeight height) h
    | applyIntent intent =>
      rw [history, List.forall_mem_cons] at h
      exact ((kept_iff_not_destroys hres _).mpr h.1).trans (ih h.2)

/-- **Committed batches.**  In a run from the empty substrate, every record that is shown at some point
    is shown, unchanged, at every later point, EXACTLY when no application of the run is an accepted
    commit that meets other contents under its key, or one that runs a count of the registry over. -/
theorem batches_kept_iff (hres : ReservedDistinct blake3) (calls : List SubstrateCall) :
    (∀ earlier middle later, calls = earlier ++ middle ++ later →
      ∀ (key : L2BatchKey) (record : L2StateRootRecord),
        (l2Registry blake3 (runCalls blake3 earlier new)).stateRoots[key]? = some record →
        (l2Registry blake3 (runCalls blake3 (earlier ++ middle) new)).stateRoots[key]? =
          some record) ↔
      ∀ a ∈ history blake3 calls new, ¬ a.Destroys blake3 := by
  constructor
  · intro hkept a ha
    obtain ⟨earlier, later, hcut, hbefore⟩ := cut_of_mem_history ha
    have hstep := hkept earlier [.applyIntent a.intent] later (by rw [hcut]; simp)
    rw [runCalls_append, hbefore] at hstep
    exact (kept_iff_not_destroys hres a).mp hstep
  · rintro h earlier middle later rfl key record hrecord
    rw [history_append, history_append] at h
    have hmiddle : ∀ a ∈ history blake3 middle (runCalls blake3 earlier new), ¬ a.Destroys blake3 :=
      fun a ha => h a (List.mem_append_left _ (List.mem_append_right _ ha))
    rw [runCalls_append]
    exact batchesKept_runCalls hres hmiddle key record hrecord

/-- Batch 0 is committed with state root 5. -/
def committedOnce : List SubstrateCall :=
  [ .applyIntent (.setL2VerifyingKey 0 1 0),
    .applyIntent (.commitL2StateRoot 0 5 someProof zeroInputs 1) ]

/-- Batch 0 is committed again, with state root 6. -/
def committedTwice : List SubstrateCall :=
  committedOnce ++ [.applyIntent (.commitL2StateRoot 0 6 someProof zeroInputs 1)]

/-- A run that commits its batch once keeps it. -/
theorem batches_kept_iff_once :
    ReservedDistinct Blake3.hash ∧
    ∀ earlier middle later, committedOnce = earlier ++ middle ++ later →
      ∀ (key : L2BatchKey) (record : L2StateRootRecord),
        (l2Registry Blake3.hash (runCalls Blake3.hash earlier new)).stateRoots[key]? = some record →
        (l2Registry Blake3.hash (runCalls Blake3.hash (earlier ++ middle) new)).stateRoots[key]? =
          some record := by
  refine ⟨blake3_reservedDistinct, (batches_kept_iff blake3_reservedDistinct committedOnce).mpr ?_⟩
  have hempty : (l2Registry Blake3.hash new).stateRoots.size = 0 ∧
      (l2Registry Blake3.hash pinnedChain).stateRoots[(toLex (provenChain zeroInputs, 0) : L2BatchKey)]? =
        none ∧ (l2Registry Blake3.hash pinnedChain).stateRoots.size + 1 < 2 ^ 32 := by
    decide +kernel
  show ∀ a ∈ [⟨.setL2VerifyingKey 0 1 0, new⟩,
    ⟨.commitL2StateRoot 0 5 someProof zeroInputs 1, pinnedChain⟩], ¬ Applied.Destroys Blake3.hash a
  rw [List.forall_mem_cons, List.forall_mem_singleton]
  refine ⟨fun h => h.2.1 hempty.1, fun h => ?_⟩
  rcases h.2.2 with ⟨old, hold, -⟩ | hfull
  · rw [hempty.2.1] at hold
    cases hold
  · exact hfull (Or.inr hempty.2.2)

/-- The second commit succeeds and replaces the state root of the first. -/
theorem commit_overwrites :
    ((l2Registry Blake3.hash (runCalls Blake3.hash committedOnce new)).stateRoots[
        (toLex (0, 0) : L2BatchKey)]?.map L2StateRootRecord.stateRoot) = some 5 ∧
      (applyIntent Blake3.hash (.commitL2StateRoot 0 6 someProof zeroInputs 1)
        (runCalls Blake3.hash committedOnce new)).1 = .ok () ∧
      ((l2Registry Blake3.hash (runCalls Blake3.hash committedTwice new)).stateRoots[
        (toLex (0, 0) : L2BatchKey)]?.map L2StateRootRecord.stateRoot) = some 6 := by
  decide +kernel

end Kept

end SuwappuDag.Execution
