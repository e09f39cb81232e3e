/-
  THE BRIDGE REGISTRIES (`asset_registry.rs`, `l2_state.rs`) and the gates of the L2 batch verifier
  (`suwappu-l2-verifier-precompile`).

  * **Assets** — variable-width entries: truncation is checked field by field, trailing bytes at the
    end.
  * **L2 state** — two maps in one record: the verifying keys of each chain and the state root of
    each batch.  Version 2 is written; a version-1 record with its single pair of keys is still
    read, and lifted to the entry of chain 0 unless both keys are zero.
  * **Verifier** — three format gates and nothing else: the pairing check is not wired.
-/
import SuwappuDag.Lib.Bounds
import SuwappuDag.Execution.Reserved

namespace SuwappuDag.Execution

open Words Command Codec
open Std (ExtTreeMap)

/-! ## Bridge assets -/

inductive AssetStatus where
  | active
  | paused
  | removed
deriving DecidableEq, Repr

structure AssetRecord where
  sourceChain : UInt64
  sourceContract : List UInt8
  decimals : UInt8
  name : List UInt8
  symbol : List UInt8
  status : AssetStatus
deriving DecidableEq

namespace AssetRegistry

def maxSourceContractBytes : Nat := 64
def maxAssetNameBytes : Nat := 64
def maxAssetSymbolBytes : Nat := 16

def asByte : AssetStatus → UInt8
  | .active => 0
  | .paused => 1
  | .removed => 2

def fromByte (b : UInt8) : Except String AssetStatus :=
  if b = 0 then .ok .active
  else if b = 1 then .ok .paused
  else if b = 2 then .ok .removed
  else .error "asset status out of range"

/-- The identifier of a bridged asset. -/
def assetId (blake3 : List UInt8 → Bytes32) (sourceChain : UInt64) (sourceContract : List UInt8) :
    Bytes32 :=
  blake3 (asciiBytes "suwappu-asset-v1" ++ beBytes 8 sourceChain.toNat
    ++ beBytes 4 sourceContract.length ++ sourceContract)

def putEntry (e : Bytes32 × AssetRecord) : List UInt8 :=
  beBytes 32 e.1.toNat ++ (beBytes 8 e.2.sourceChain.toNat ++ (beBytes 1 e.2.decimals.toNat
    ++ (beBytes 1 (asByte e.2.status).toNat
    ++ (beBytes 4 e.2.sourceContract.length ++ (e.2.sourceContract
    ++ (beBytes 4 e.2.name.length ++ (e.2.name
    ++ (beBytes 4 e.2.symbol.length ++ e.2.symbol))))))))

def encode (assets : ExtTreeMap Bytes32 AssetRecord) : List UInt8 :=
  beBytes 4 1 ++ (beBytes 4 assets.toList.length ++ assets.toList.flatMap putEntry)

def readLengthPrefixed (maxLen : Nat) : Reader (List UInt8) := do
  need 4 "asset registry field length-prefix truncated"
  let len ← word 4
  reject (len > maxLen) "asset registry field exceeds maximum length"
  need len "asset registry field data truncated"
  take len

def getEntry : Reader (Bytes32 × AssetRecord) := do
  need (42 + 4) "asset registry entry truncated (fixed header)"
  let id ← array 256
  let sourceChain ← u64
  let decimals ← u8
  let b ← u8
  let status ← fetch fun _ => fromByte b
  let sourceContract ← readLengthPrefixed maxSourceContractBytes
  let name ← readLengthPrefixed maxAssetNameBytes
  let symbol ← readLengthPrefixed maxAssetSymbolBytes
  return (id, { sourceChain, sourceContract, decimals, name, symbol, status })

/-- The decoder behind the header check. -/
def body : Reader (ExtTreeMap Bytes32 AssetRecord) := do
  let version ← u32
  reject (version ≠ 1) "asset registry version mismatch"
  let count ← word 4
  let assets ← entries getEntry (some "asset registry has duplicate ids") count ∅
  let rest ← read id
  reject (rest ≠ []) "asset registry has trailing bytes"
  return assets

def decode (bytes : List UInt8) : Except String (ExtTreeMap Bytes32 AssetRecord) :=
  if bytes = [] then .ok ∅
  else if bytes.length < 4 + 4 then .error "asset registry header missing"
  else (body bytes).1

/-! ### Round trip -/

/-- The texts are within the limits that admission and the decoder enforce. -/
def Capped (asset : AssetRecord) : Prop :=
  asset.sourceContract.length ≤ maxSourceContractBytes ∧ asset.name.length ≤ maxAssetNameBytes ∧
    asset.symbol.length ≤ maxAssetSymbolBytes

theorem fromByte_asByte (status : AssetStatus) : fromByte (asByte status) = .ok status := by
  cases status <;> rfl

theorem readLengthPrefixed_reads {maxLen : Nat} (hmax : maxLen < 256 ^ 4) {xs : List UInt8}
    (hlen : xs.length ≤ maxLen) :
    Reads (readLengthPrefixed maxLen) (beBytes 4 xs.length ++ xs) xs := by
  intro rest
  unfold readLengthPrefixed
  rw [List.append_assoc, bind_run_ok (need_run (by simp)), bind_run_ok (reads_word (by omega) _),
    bind_run_ok (reject_run (not_lt.mpr hlen)), bind_run_ok (need_run (by simp)), reads_take xs rest]

theorem getEntry_reads {e : Bytes32 × AssetRecord} (hcap : Capped e.2) :
    Reads getEntry (putEntry e) e := by
  intro rest
  have hlen : 42 + 4 ≤ (putEntry e ++ rest).length := by
    simp only [putEntry, List.length_append, length_beBytes]
    omega
  obtain ⟨hcontract, hname, hsymbol⟩ := hcap
  have hstatus : ∀ bs, (fetch fun _ => fromByte (asByte e.2.status) : Reader AssetStatus) bs =
      (.ok e.2.status, bs) := fun bs => by rw [fetch_run, fromByte_asByte]
  have htexts : putEntry e ++ rest = beBytes 32 e.1.toNat ++ (beBytes 8 e.2.sourceChain.toNat
      ++ (beBytes 1 e.2.decimals.toNat ++ (beBytes 1 (asByte e.2.status).toNat
      ++ ((beBytes 4 e.2.sourceContract.length ++ e.2.sourceContract)
      ++ ((beBytes 4 e.2.name.length ++ e.2.name)
      ++ ((beBytes 4 e.2.symbol.length ++ e.2.symbol) ++ rest)))))) := by
    simp only [putEntry, List.append_assoc]
  unfold getEntry
  rw [bind_run_ok (need_run hlen), htexts, bind_run_ok (reads_array (k := 32) _ _),
    bind_run_ok (reads_u64 _ _), bind_run_ok (reads_u8 _ _), bind_run_ok (reads_u8 _ _),
    bind_run_ok (hstatus _), bind_run_ok (readLengthPrefixed_reads (by decide) hcontract _),
    bind_run_ok (readLengthPrefixed_reads (by decide) hname _),
    bind_run_ok (readLengthPrefixed_reads (by decide) hsymbol _)]
  rfl

/-- The decoder lets no longer texts through. -/
theorem readLengthPrefixed_length (maxLen : Nat) :
    Gives (·.length ≤ maxLen) (readLengthPrefixed maxLen) :=
  gives_bind fun _ => gives_bind fun len => (gives_reject _ _).bind fun _ hcap =>
    gives_bind fun _ => (gives_take len).mono fun _ hxs => hxs.trans (not_lt.mp hcap)

theorem getEntry_capped : Gives (fun e => Capped e.2) getEntry := by
  unfold getEntry
  iterate 6 refine gives_bind fun _ => ?_
  exact (readLengthPrefixed_length _).bind fun _ hcontract =>
    (readLengthPrefixed_length _).bind fun _ hname =>
    (readLengthPrefixed_length _).bind fun _ hsymbol => gives_pure ⟨hcontract, hname, hsymbol⟩

theorem decode_capped {bytes : List UInt8} {assets : ExtTreeMap Bytes32 AssetRecord}
    (h : decode bytes = .ok assets) (id : Bytes32) (asset : AssetRecord)
    (hasset : assets[id]? = some asset) : Capped asset := by
  unfold decode at h
  split at h
  · cases h
    simp at hasset
  split at h
  · cases h
  have hbody : Gives (fun m => ∀ (k : Bytes32) v, m[k]? = some v → Capped v) body :=
    gives_bind fun _ => gives_bind fun _ => gives_bind fun count =>
      (entries_gives getEntry_capped count fun k v hk => by simp at hk).bind fun m hm =>
        gives_bind fun _ => gives_bind fun _ => gives_pure hm
  exact hbody.fst h id asset hasset

theorem getEntry_inRange : InRange 0 getEntry := by
  have hstatus : ∀ b, Exact 0 (fetch fun _ => fromByte b : Reader AssetStatus) := by
    refine fun b => exact_fetch fun _ h => ?_
    unfold fromByte at h
    split_ifs at h
    exact absurd (Except.error.inj h) (by decide)
  have htext : ∀ maxLen, InRange 0 (readLengthPrefixed maxLen) := fun maxLen =>
    inRange_need_bind (by decide) ((exact_word 4).inRange.bind fun len =>
      (exact_reject (by decide)).inRange.bind fun _ =>
        inRange_need_bind (by decide) (exact_take len).inRange)
  -- the first check supplies the fixed fields, each text is checked for itself
  refine inRange_need_bind (by decide) (InRange.mono ((exact_array 256).bind_inRange fun _ =>
    exact_u64.bind_inRange fun _ => exact_u8.bind_inRange fun _ => exact_u8.bind_inRange fun b =>
    (hstatus b).inRange.bind fun _ => (htext _).bind fun _ => (htext _).bind fun _ =>
    (htext _).bind fun _ => inRange_pure 0 _) (by decide))

/-- The header passed, the counted entries are left. -/
theorem decode_encode_eq (assets : ExtTreeMap Bytes32 AssetRecord) :
    decode (encode assets) = (counted getEntry (some "asset registry has duplicate ids")
      "asset registry has trailing bytes"
      (beBytes 4 assets.toList.length ++ assets.toList.flatMap putEntry)).1 := by
  have hlen : ¬ (encode assets).length < 4 + 4 := by
    simp only [encode, List.length_append, length_beBytes]
    omega
  have hne : encode assets ≠ [] := by
    intro hnil
    rw [hnil] at hlen
    exact hlen (by decide)
  have hversion : Reads u32 (beBytes 4 1) 1 := reads_u32 1
  rw [decode, if_neg hne, if_neg hlen]
  unfold body
  rw [encode, bind_run_ok (hversion _), bind_run_ok (reject_run (fun hne => hne rfl))]
  rfl

/-- A table that can be read back at all is read back as it was. -/
theorem decode_encode {assets assets' : ExtTreeMap Bytes32 AssetRecord}
    (hcap : ∀ e ∈ assets.toList, Capped e.2) (h : decode (encode assets) = .ok assets') :
    assets' = assets := by
  have hput : ∀ e, putEntry e ≠ [] := by
    intro e he
    have hlen := congrArg List.length he
    simp [putEntry] at hlen
  rw [decode_encode_eq] at h
  rw [counted_eq_ok hput (fun e he => getEntry_reads (hcap e he)) (nodup_keys_toList assets) h,
    insertAll_toList]

theorem lawful : Lawful encode decode fun assets =>
    assets.size < 2 ^ 32 ∧ ∀ e ∈ assets.toList, Capped e.2 where
  decode_encode assets h := by
    rw [decode_encode_eq, counted_of_lt (fun e he => getEntry_reads (h.2 e he))
      (nodup_keys_toList assets) (by rw [ExtTreeMap.length_toList]; exact h.1), insertAll_toList]
  inRange bytes := by
    unfold decode
    split
    · exact nofun
    split
    · exact fun h => absurd (Except.error.inj h) (by decide)
    · next hlen =>
      have hbody : InRange (4 + (0 + 4)) body :=
        exact_u32.bind_inRange fun version => (exact_reject (by decide)).bind_inRange fun _ =>
          counted_inRange getEntry_inRange (by rintro why ⟨⟩; decide) (by decide)
      exact fun h => hbody bytes (not_lt.mp hlen) outOfRange h rfl

end AssetRegistry

/-! ## L2 batches -/

structure ChainVks where
  aggregationVkHash : Bytes32
  rangeVkCommitment : Bytes32
deriving DecidableEq

structure L2StateRootRecord where
  stateRoot : Bytes32
  committedAtL1Height : UInt64
  vkHash : Bytes32
  daCommitment : Bytes32
deriving DecidableEq

/-- `L2BatchKey`: chain first, batch second. -/
abbrev L2BatchKey := Bytes32 ×ₗ UInt64

structure L2Registry where
  chainVks : ExtTreeMap Bytes32 ChainVks
  stateRoots : ExtTreeMap L2BatchKey L2StateRootRecord

namespace L2Registry

def empty : L2Registry := ⟨∅, ∅⟩

def aggregationVkHash (reg : L2Registry) (chainIdHash : Bytes32) : Bytes32 :=
  (reg.chainVks[chainIdHash]?.map (·.aggregationVkHash)).getD 0

def rangeVkCommitment (reg : L2Registry) (chainIdHash : Bytes32) : Bytes32 :=
  (reg.chainVks[chainIdHash]?.map (·.rangeVkCommitment)).getD 0

def setChainVks (reg : L2Registry) (chainIdHash aggregationVkHash rangeVkCommitment : Bytes32) :
    L2Registry :=
  { reg with
    chainVks := reg.chainVks.insert chainIdHash ⟨aggregationVkHash, rangeVkCommitment⟩ }

def putVks (e : Bytes32 × ChainVks) : List UInt8 :=
  beBytes 32 e.1.toNat
    ++ (beBytes 32 e.2.aggregationVkHash.toNat ++ beBytes 32 e.2.rangeVkCommitment.toNat)

def putRoot (e : L2BatchKey × L2StateRootRecord) : List UInt8 :=
  beBytes 32 (ofLex e.1).1.toNat ++ (beBytes 8 (ofLex e.1).2.toNat
    ++ (beBytes 32 e.2.stateRoot.toNat ++ (beBytes 8 e.2.committedAtL1Height.toNat
    ++ (beBytes 32 e.2.vkHash.toNat ++ beBytes 32 e.2.daCommitment.toNat))))

def encode (reg : L2Registry) : List UInt8 :=
  beBytes 4 2 ++ (beBytes 4 reg.chainVks.toList.length ++ (reg.chainVks.toList.flatMap putVks
    ++ (beBytes 4 reg.stateRoots.toList.length ++ reg.stateRoots.toList.flatMap putRoot)))

def getVks : Reader (Bytes32 × ChainVks) := do
  let chain ← array 256
  let aggregationVkHash ← array 256
  let rangeVkCommitment ← array 256
  return (chain, { aggregationVkHash, rangeVkCommitment })

def getRoot : Reader (L2BatchKey × L2StateRootRecord) := do
  let l2ChainIdHash ← array 256
  let batchId ← u64
  let stateRoot ← array 256
  let committedAtL1Height ← u64
  let vkHash ← array 256
  let daCommitment ← array 256
  return (toLex (l2ChainIdHash, batchId), { stateRoot, committedAtL1Height, vkHash, daCommitment })

def decodeStateRoots (count : Nat) : Reader (ExtTreeMap L2BatchKey L2StateRootRecord) :=
  entries getRoot (some "L2 registry has duplicate keys") count ∅

/-- Insist that exactly `k` bytes are left. -/
def exactly (k : Nat) (why : String) : Reader Unit := fetch fun bs =>
  if bs.length ≠ k then .error why else .ok ()

/-- Behind the version word.  `usize` has 64 bits, so no product of a `u32` count overflows. -/
def decodeV2 : Reader L2Registry := do
  need 4 "L2 registry v2 header missing"
  let chainVkCount ← word 4
  need (chainVkCount * (32 + 32 + 32) + 4) "L2 registry chain_vks truncated"
  let chainVks ← entries getVks (some "L2 registry has duplicate chain_vks") chainVkCount ∅
  let stateRootCount ← word 4
  exactly (stateRootCount * (32 + 8 + (32 + 8 + 32 + 32))) "L2 registry size mismatch"
  let stateRoots ← decodeStateRoots stateRootCount
  return { chainVks, stateRoots }

def decodeV1 : Reader L2Registry := do
  need (32 + 32 + 4) "L2 registry v1 header missing"
  let aggregationVkHash ← array 256
  let rangeVkCommitment ← array 256
  let stateRootCount ← word 4
  exactly (stateRootCount * (32 + 8 + (32 + 8 + 32 + 32))) "L2 registry v1 size mismatch"
  let stateRoots ← decodeStateRoots stateRootCount
  -- a pair of zero keys is the "nothing pinned" sentinel of version 1
  if aggregationVkHash ≠ 0 ∨ rangeVkCommitment ≠ 0 then
    return ⟨(∅ : ExtTreeMap Bytes32 ChainVks).insert 0 ⟨aggregationVkHash, rangeVkCommitment⟩,
      stateRoots⟩
  else
    return ⟨∅, stateRoots⟩

/-- The decoder behind the header check. -/
def body : Reader L2Registry := do
  let version ← u32
  if version = 2 then decodeV2
  else if version = 1 then decodeV1
  else fail "L2 registry version mismatch"

def decode (bytes : List UInt8) : Except String L2Registry :=
  if bytes = [] then .ok empty
  else if bytes.length < 4 then .error "L2 registry header missing"
  else (body bytes).1

/-! ### Round trip -/

/-- Both tables have fewer than 2^32 entries: their counts are written without loss. -/
def Fits (reg : L2Registry) : Prop := reg.chainVks.size < 2 ^ 32 ∧ reg.stateRoots.size < 2 ^ 32

theorem getVks_reads (e : Bytes32 × ChainVks) : Reads getVks (putVks e) e := by
  intro rest
  simp only [getVks, putVks, List.append_assoc]
  rw [bind_run_ok (reads_array (k := 32) _ _), bind_run_ok (reads_array (k := 32) _ _),
    bind_run_ok (reads_array (k := 32) _ _)]
  rfl

theorem getRoot_reads (e : L2BatchKey × L2StateRootRecord) : Reads getRoot (putRoot e) e := by
  intro rest
  simp only [getRoot, putRoot, List.append_assoc]
  rw [bind_run_ok (reads_array (k := 32) _ _), bind_run_ok (reads_u64 _ _),
    bind_run_ok (reads_array (k := 32) _ _), bind_run_ok (reads_u64 _ _),
    bind_run_ok (reads_array (k := 32) _ _), bind_run_ok (reads_array (k := 32) _ _)]
  rfl

theorem length_putVks (l : List (Bytes32 × ChainVks)) :
    (l.flatMap putVks).length = l.length * (32 + 32 + 32) := by
  induction l with
  | nil => rfl
  | cons e l ih =>
    simp only [List.flatMap_cons, List.length_append, ih, putVks, length_beBytes, List.length_cons]
    omega

theorem length_putRoot (l : List (L2BatchKey × L2StateRootRecord)) :
    (l.flatMap putRoot).length = l.length * (32 + 8 + (32 + 8 + 32 + 32)) := by
  induction l with
  | nil => rfl
  | cons e l ih =>
    simp only [List.flatMap_cons, List.length_append, ih, putRoot, length_beBytes, List.length_cons]
    omega

theorem encode_ne_nil (reg : L2Registry) : encode reg ≠ [] := by
  intro h
  have := congrArg List.length h
  simp [encode] at this

theorem exactly_run {k : Nat} {why : String} {bs : List UInt8} (h : bs.length = k) :
    exactly k why bs = (.ok (), bs) := by
  rw [exactly, fetch_run, if_neg (not_not.mpr h)]

theorem exactly_eq_ok {k : Nat} {why : String} {bs bs' : List UInt8} {u : Unit}
    (h : exactly k why bs = (.ok u, bs')) : bs.length = k ∧ bs = bs' := by
  obtain ⟨hlen, rfl⟩ := fetch_eq_ok_iff.mp h
  refine ⟨?_, rfl⟩
  by_contra hne
  rw [if_pos hne] at hlen
  cases hlen

/-- The part of `decodeV2` behind the chains. -/
def decodeBatches (chainVks : ExtTreeMap Bytes32 ChainVks) : Reader L2Registry := do
  let stateRootCount ← word 4
  exactly (stateRootCount * (32 + 8 + (32 + 8 + 32 + 32))) "L2 registry size mismatch"
  let stateRoots ← decodeStateRoots stateRootCount
  return { chainVks, stateRoots }

/-- It accounts for every byte behind the number of batches, which it reads from four bytes. -/
theorem decodeBatches_eq_ok {chainVks : ExtTreeMap Bytes32 ChainVks} {bs rest : List UInt8}
    {reg : L2Registry} (h : decodeBatches chainVks bs = (.ok reg, rest)) :
    ∃ n < 256 ^ 4, bs.length - 4 = n * (32 + 8 + (32 + 8 + 32 + 32)) := by
  obtain ⟨n, bs', hword, h⟩ := bind_eq_ok_iff.mp h
  obtain ⟨_, _, hexact, -⟩ := bind_eq_ok_iff.mp h
  refine ⟨n, gives_word 4 _ _ _ hword, ?_⟩
  rw [← (exactly_eq_ok hexact).1, (word_eq_ok hword).2, List.length_drop]

/-- The decoder on an encoding: behind the version and the TRUNCATED number of chains, it reads the
    first so many of them. -/
theorem decode_encode_eq (reg : L2Registry) :
    let count := reg.chainVks.toList.length % 256 ^ 4
    decode (encode reg) = (decodeBatches (insertAll (reg.chainVks.toList.take count) ∅)
      ((reg.chainVks.toList.drop count).flatMap putVks
        ++ (beBytes 4 reg.stateRoots.toList.length ++ reg.stateRoots.toList.flatMap putRoot))).1 := by
  intro count
  have hle : count ≤ reg.chainVks.toList.length := Nat.mod_le _ _
  have hsplit : reg.chainVks.toList.flatMap putVks =
      (reg.chainVks.toList.take count).flatMap putVks
        ++ (reg.chainVks.toList.drop count).flatMap putVks := by
    rw [← List.flatMap_append, List.take_append_drop]
  have htake : (reg.chainVks.toList.take count).length = count := by
    rw [List.length_take, min_eq_left hle]
  have hcount : Reads (word 4) (beBytes 4 reg.chainVks.toList.length) count := by
    have h := (reads_take (beBytes 4 reg.chainVks.toList.length)).map ofBeBytes
    rwa [length_beBytes, ofBeBytes_beBytes] at h
  have hentries : Reads (entries getVks (some "L2 registry has duplicate chain_vks") count ∅)
      ((reg.chainVks.toList.take count).flatMap putVks)
      (insertAll (reg.chainVks.toList.take count) ∅) := by
    have hkeys : ((reg.chainVks.toList.take count).map Prod.fst).Nodup := by
      rw [List.map_take]
      exact (nodup_keys_toList _).sublist (List.take_sublist _ _)
    have h : Reads (entries getVks (some "L2 registry has duplicate chain_vks")
        (reg.chainVks.toList.take count).length ∅) _ _ :=
      entries_reads (fun e _ => getVks_reads e) hkeys fun e _ => ExtTreeMap.not_mem_empty
    rwa [htake] at h
  have hlen : ¬ (encode reg).length < 4 := by
    simp only [encode, List.length_append, length_beBytes]
    omega
  have hversion : Reads u32 (beBytes 4 2) 2 := reads_u32 2
  rw [decode, if_neg (encode_ne_nil reg), if_neg hlen]
  unfold body
  rw [encode, hsplit, bind_run_ok (hversion _), if_pos rfl, decodeV2,
    bind_run_ok (need_run (by simp)), bind_run_ok (hcount _), List.append_assoc,
    bind_run_ok (need_run (by
      simp only [List.length_append, length_putVks, htake, length_beBytes]
      omega)),
    bind_run_ok (hentries _)]
  rfl

/-- **Round trip**, as long as both counts are written without loss. -/
theorem decode_encode_of_fits {reg : L2Registry} (h : reg.Fits) : decode (encode reg) = .ok reg := by
  obtain ⟨hvks, hroots⟩ := h
  rw [← ExtTreeMap.length_toList] at hvks hroots
  have hmod : reg.chainVks.toList.length % 256 ^ 4 = reg.chainVks.toList.length :=
    Nat.mod_eq_of_lt (by omega)
  have hentries : Reads (decodeStateRoots reg.stateRoots.toList.length)
      (reg.stateRoots.toList.flatMap putRoot) (insertAll reg.stateRoots.toList ∅) :=
    entries_reads (fun e _ => getRoot_reads e) (nodup_keys_toList _)
      fun e _ => ExtTreeMap.not_mem_empty
  have hread := hentries []
  rw [List.append_nil] at hread
  rw [decode_encode_eq, hmod, List.drop_length, List.flatMap_nil, List.nil_append,
    List.take_length, decodeBatches, bind_run_ok (reads_word (by omega) _),
    bind_run_ok (exactly_run (length_putRoot _)), bind_run_ok hread, insertAll_toList,
    insertAll_toList]
  rfl

/-- `n` batches cannot account for the bytes of 2^32 chains or batches. -/
theorem counts_lt_of_bytes {chains batches n : Nat} (hn : n < 256 ^ 4)
    (hlen : (chains - chains % 256 ^ 4) * (32 + 32 + 32)
      + (4 + batches * (32 + 8 + (32 + 8 + 32 + 32))) - 4 = n * (32 + 8 + (32 + 8 + 32 + 32))) :
    chains < 2 ^ 32 ∧ batches < 2 ^ 32 := by
  obtain ⟨q, m, hm, rfl⟩ : ∃ q m, m < 2 ^ 32 ∧ chains = 2 ^ 32 * q + m :=
    ⟨chains / 2 ^ 32, chains % 2 ^ 32, Nat.mod_lt _ (by decide), (Nat.div_add_mod _ _).symm⟩
  have hpow : 256 ^ 4 = 2 ^ 32 := by decide
  rw [hpow] at hn hlen
  rw [Nat.mul_add_mod, Nat.mod_eq_of_lt hm, Nat.add_sub_cancel] at hlen
  -- 2^33 * q = 3 * (n - batches), so q is a multiple of 3, and then it is 0
  have hbytes : 2 ^ 33 * q + 3 * batches = 3 * n := by omega
  have hdvd : 3 ∣ 2 ^ 33 * q := (Nat.dvd_add_left (Dvd.intro batches rfl)).mp (hbytes ▸ Dvd.intro n rfl)
  obtain ⟨k, rfl⟩ := (show Nat.Coprime 3 (2 ^ 33) by decide).dvd_of_dvd_mul_left hdvd
  rcases Nat.eq_zero_or_pos k with rfl | hk
  · omega
  · have := Nat.le_mul_of_pos_right (2 ^ 33) hk
    have : 2 ^ 33 * (3 * k) = 3 * (2 ^ 33 * k) := Nat.mul_left_comm _ _ _
    omega

/-- An encoding that decodes at all had lossless counts.  A truncated number of CHAINS would be read
    with a piece of a chain's key as the number of batches; that number would have to account for
    all the bytes left over, and is too small to. -/
theorem fits_of_decode_encode {reg reg' : L2Registry} (h : decode (encode reg) = .ok reg') :
    reg.Fits := by
  rw [decode_encode_eq] at h
  rcases hrun : decodeBatches _ _ with ⟨r, rest⟩
  rw [hrun] at h
  have hr : r = .ok reg' := h
  subst hr
  obtain ⟨n, hn, hlen⟩ := decodeBatches_eq_ok hrun
  simp only [List.length_append, length_putVks, length_putRoot, length_beBytes,
    List.length_drop] at hlen
  rw [Fits, ← ExtTreeMap.length_toList, ← ExtTreeMap.length_toList]
  exact counts_lt_of_bytes hn hlen

theorem decode_encode {reg reg' : L2Registry} (h : decode (encode reg) = .ok reg') : reg' = reg := by
  rw [decode_encode_of_fits (fits_of_decode_encode h)] at h
  exact (Except.ok.inj h).symm

/-- A registry of version 1: one pair of keys, and the batches. -/
def encodeV1 (aggregationVkHash rangeVkCommitment : Bytes32)
    (stateRoots : ExtTreeMap L2BatchKey L2StateRootRecord) : List UInt8 :=
  beBytes 4 1 ++ (beBytes 32 aggregationVkHash.toNat ++ (beBytes 32 rangeVkCommitment.toNat
    ++ (beBytes 4 stateRoots.toList.length ++ stateRoots.toList.flatMap putRoot)))

/-- What version 1 pins: its keys under chain 0, or nothing when both are zero. -/
def liftedVks (aggregationVkHash rangeVkCommitment : Bytes32) : ExtTreeMap Bytes32 ChainVks :=
  if aggregationVkHash ≠ 0 ∨ rangeVkCommitment ≠ 0 then
    (∅ : ExtTreeMap Bytes32 ChainVks).insert 0 ⟨aggregationVkHash, rangeVkCommitment⟩
  else ∅

/-- **Version 1** is read with the same batches. -/
theorem decode_encodeV1 (aggregationVkHash rangeVkCommitment : Bytes32)
    {stateRoots : ExtTreeMap L2BatchKey L2StateRootRecord} (hlt : stateRoots.size < 2 ^ 32) :
    decode (encodeV1 aggregationVkHash rangeVkCommitment stateRoots) =
      .ok ⟨liftedVks aggregationVkHash rangeVkCommitment, stateRoots⟩ := by
  rw [← ExtTreeMap.length_toList] at hlt
  have hentries : Reads (decodeStateRoots stateRoots.toList.length)
      (stateRoots.toList.flatMap putRoot) (insertAll stateRoots.toList ∅) :=
    entries_reads (fun e _ => getRoot_reads e) (nodup_keys_toList _)
      fun e _ => ExtTreeMap.not_mem_empty
  have hread := hentries []
  rw [List.append_nil] at hread
  have hversion : Reads u32 (beBytes 4 1) 1 := reads_u32 1
  have hlen : ¬ (encodeV1 aggregationVkHash rangeVkCommitment stateRoots).length < 4 := by
    simp only [encodeV1, List.length_append, length_beBytes]
    omega
  have hne : encodeV1 aggregationVkHash rangeVkCommitment stateRoots ≠ [] := by
    intro hnil
    rw [hnil] at hlen
    exact hlen (by decide)
  rw [decode, if_neg hne, if_neg hlen]
  unfold body
  rw [encodeV1, bind_run_ok (hversion _), if_neg (by decide), if_pos rfl, decodeV1,
    bind_run_ok (need_run (by
      simp only [List.length_append, length_beBytes]
      omega)),
    bind_run_ok (reads_array (k := 32) _ _), bind_run_ok (reads_array (k := 32) _ _),
    bind_run_ok (reads_word (by omega) _), bind_run_ok (exactly_run (length_putRoot _)),
    bind_run_ok hread, insertAll_toList, liftedVks]
  split <;> rfl

theorem inRange_exactly_bind {β : Type} {f : Unit → Reader β} {k n : Nat} {why : String}
    (hwhy : why ≠ outOfRange) (h : InRange k (f ())) : InRange n (exactly k why >>= f) := by
  intro bs _
  refine errs_fetch_bind (fun e he => ?_) fun _ hpass => h bs ?_
  · split at he
    · cases he
      exact hwhy
    · cases he
  · split at hpass
    · cases hpass
    · next hlen => exact (not_not.mp hlen).ge

theorem getVks_exact : Exact (32 + 32 + 32) getVks :=
  (exact_array 256).bind fun _ => (exact_array 256).bind fun _ => (exact_array 256).bind fun _ =>
    exact_pure _

theorem getRoot_exact : Exact (32 + 8 + (32 + 8 + 32 + 32)) getRoot :=
  (exact_array 256).bind fun _ => exact_u64.bind fun _ => (exact_array 256).bind fun _ =>
    exact_u64.bind fun _ => (exact_array 256).bind fun _ => (exact_array 256).bind fun _ =>
    exact_pure _

theorem decodeStateRoots_inRange (count : Nat) :
    InRange (count * (32 + 8 + (32 + 8 + 32 + 32))) (decodeStateRoots count) :=
  (entries_exact getRoot_exact (by rintro why ⟨⟩; decide) count ∅).inRange

theorem decodeV2_inRange : InRange 0 decodeV2 :=
  inRange_need_bind (by decide) <| (exact_word 4).inRange.bind fun chainVkCount =>
    inRange_need_bind (by decide) <|
      (entries_exact getVks_exact (by rintro why ⟨⟩; decide) chainVkCount ∅).bind_inRange fun _ =>
        (exact_word 4).inRange.bind fun count => inRange_exactly_bind (by decide) <|
          (decodeStateRoots_inRange count).bind fun _ => inRange_pure 0 _

theorem decodeV1_inRange : InRange 0 decodeV1 :=
  inRange_need_bind (by decide) <| (exact_array 256).bind_inRange fun agg =>
    (exact_array 256).bind_inRange fun range => (exact_word 4).inRange.bind fun count =>
      inRange_exactly_bind (by decide) <| (decodeStateRoots_inRange count).bind fun _ bs _ =>
        errs_ite (fun _ => errs_pure _) fun _ => errs_pure _

/-- Both tables are read back as long as their counts are written without loss. -/
theorem lawful : Lawful encode decode Fits where
  decode_encode _ h := decode_encode_of_fits h
  inRange bytes := by
    unfold decode
    split
    · exact nofun
    split
    · exact fun h => absurd (Except.error.inj h) (by decide)
    · next hlen =>
      have hbody : InRange 4 body := exact_u32.inRange.bind fun version bs hbs =>
        errs_ite (fun _ => decodeV2_inRange bs hbs) fun _ =>
          errs_ite (fun _ => decodeV1_inRange bs hbs) fun _ e he => by
            cases he
            decide
      exact fun h => hbody bytes (not_lt.mp hlen) outOfRange h rfl

/-- As many entries as a four-byte count announces, at most. -/
theorem gives_counted {κ ν : Type} [Ord κ] [Std.TransOrd κ] {get : Reader (κ × ν)}
    {dup : Option String} {n : Nat} (hn : n < 256 ^ 4) :
    Gives (·.size < 2 ^ 32) (entries get dup n ∅) := by
  refine (entries_size_le n).mono fun m hm => ?_
  rw [ExtTreeMap.size_empty] at hm
  omega

/-- Whatever is read has lossless counts. -/
theorem fits_of_decode {bytes : List UInt8} {reg : L2Registry} (h : decode bytes = .ok reg) :
    reg.Fits := by
  have hv2 : Gives Fits decodeV2 :=
    gives_bind fun _ => (gives_word 4).bind fun n hn => gives_bind fun _ =>
      (gives_counted hn).bind fun vks hvks => (gives_word 4).bind fun k hk => gives_bind fun _ =>
        (gives_counted hk).bind fun roots hroots => gives_pure ⟨hvks, hroots⟩
  have hv1 : Gives Fits decodeV1 := by
    refine gives_bind fun _ => gives_bind fun agg => gives_bind fun range =>
      (gives_word 4).bind fun k hk => gives_bind fun _ =>
        (gives_counted hk).bind fun roots hroots => ?_
    split
    · refine gives_pure ⟨?_, hroots⟩
      calc ((∅ : ExtTreeMap Bytes32 ChainVks).insert 0 ⟨agg, range⟩).size
          ≤ (∅ : ExtTreeMap Bytes32 ChainVks).size + 1 := ExtTreeMap.size_insert_le
        _ < 2 ^ 32 := by simp
    · exact gives_pure ⟨by simp, hroots⟩
  have hbody : Gives Fits body := by
    refine gives_bind fun version => ?_
    split
    · exact hv2
    split
    · exact hv1
    · exact fun _ _ _ hrun => by cases hrun
  unfold decode at h
  split at h
  · cases h
    constructor <;> simp [empty]
  split at h
  · cases h
  exact hbody.fst h

end L2Registry

/-! ## The batch verifier -/

namespace L2Verifier

def sp1Groth16Bn254ProofBytes : Nat := 260
def l2PublicInputsBytes : Nat := 240

def newL2StateRootOffset : Nat := 32
def batchIdOffset : Nat := 64
def daCommitmentOffset : Nat := 72
def l1AnchorHeightOffset : Nat := 104
def l2ChainIdHashOffset : Nat := 176

inductive VerifyError where
  | badProofLength (expected got : Nat)
  | badPublicInputsLength (expected got : Nat)
  | unpinnedVerifyingKey
deriving DecidableEq

/-- The text of a verifier error. -/
def VerifyError.toText : VerifyError → String
  | .badProofLength expected got =>
    "proof byte length mismatch: expected " ++ toString expected ++ ", got " ++ toString got
  | .badPublicInputsLength expected got =>
    "public inputs byte length mismatch: expected " ++ toString expected ++ ", got " ++ toString got
  | .unpinnedVerifyingKey => "vk_hash is all-zeros (no VK pinned in chain state)"

def verifyL2Batch (proof publicInputs : List UInt8) (vkHash : Bytes32) : Except VerifyError Unit :=
  if proof.length ≠ sp1Groth16Bn254ProofBytes then
    .error (.badProofLength sp1Groth16Bn254ProofBytes proof.length)
  else if publicInputs.length ≠ l2PublicInputsBytes then
    .error (.badPublicInputsLength l2PublicInputsBytes publicInputs.length)
  else if vkHash = 0 then .error .unpinnedVerifyingKey
  else .ok ()

end L2Verifier

end SuwappuDag.Execution
