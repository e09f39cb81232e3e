/-
  THE RING REGISTRIES (`authority_registry.rs`, `validator_registry.rs`).

  The two files are the same text with `authority` read as `validator`: a slot id maps to keys,
  declared stake, bonded stake, exit height and lifecycle status.  They are ONE definition here,
  with the ring's word as its parameter; each ring keeps its own names.

  1. **Program** — version 3 is written; versions 1 and 2 are still read, with the fields they lack
     lifted to 0.  Entries have variable width, so truncation is checked entry by entry and trailing
     bytes at the end.
  2. **Specification** — `ringDecode_ringEncode`: what `ringEncode` writes is read back, for every
     registry with fewer than 2^32 slots whose keys are within the caps that admission enforces.
     `ringEncodeAs` writes the older layouts down, and `ringDecode_ringEncodeAs` reads them.
-/
import SuwappuDag.Lib.Bounds
import SuwappuDag.Lib.Storage
import SuwappuDag.Execution.Reserved

namespace SuwappuDag.Execution

open Words Command Codec
open Std (ExtTreeMap)

/-- Lifecycle of a ring slot. -/
inductive SlotStatus where
  | active
  | exiting
  | ejected
deriving DecidableEq, Repr

/-- A ring slot. -/
structure SlotRecord where
  mldsaPublicKey : List UInt8
  blsPublicKey : List UInt8
  /-- Stake declared at admission. -/
  stakeSuwappu : UInt64
  /-- Stake actually bonded. -/
  depositedStake : UInt64
  /-- Height at which the slot began to exit. -/
  exitBlockHeight : UInt64
  status : SlotStatus
deriving DecidableEq

abbrev RingMap := ExtTreeMap UInt32 SlotRecord

namespace RingRegistry

def maxMldsaPkBytes : Nat := 2048
def maxBlsPkBytes : Nat := 128

def asByte : SlotStatus → UInt8
  | .active => 0
  | .exiting => 1
  | .ejected => 2

def fromByte (ring : String) (b : UInt8) : Except String SlotStatus :=
  if b = 0 then .ok .active
  else if b = 1 then .ok .exiting
  else if b = 2 then .ok .ejected
  else .error (ring ++ " status out of range")

def putEntry (e : UInt32 × SlotRecord) : List UInt8 :=
  beBytes 4 e.1.toNat ++ (beBytes 8 e.2.stakeSuwappu.toNat ++ (beBytes 8 e.2.depositedStake.toNat
    ++ (beBytes 8 e.2.exitBlockHeight.toNat ++ (beBytes 1 (asByte e.2.status).toNat
    ++ (beBytes 4 e.2.mldsaPublicKey.length ++ (e.2.mldsaPublicKey
    ++ (beBytes 4 e.2.blsPublicKey.length ++ e.2.blsPublicKey)))))))

/-- The canonical v3 byte sequence. -/
def ringEncode (map : RingMap) : List UInt8 :=
  beBytes 4 3 ++ (beBytes 4 map.toList.length ++ map.toList.flatMap putEntry)

/-- What a version's entries hold: the bonded stake, the exit height, and the fixed overhead. -/
structure Layout where
  hasDeposited : Bool
  hasExitHeight : Bool
  entryFixedBytes : Nat

def layout (ring : String) (version : UInt32) : Except String Layout :=
  if version = 3 then .ok ⟨true, true, 4 + 8 + 1 + 4 + 4 + 8 + 8⟩
  else if version = 2 then .ok ⟨true, false, 4 + 8 + 1 + 4 + 4 + 8⟩
  else if version = 1 then .ok ⟨false, false, 4 + 8 + 1 + 4 + 4⟩
  else .error (ring ++ " registry version mismatch")

/-- A field that older versions lack is lifted to 0. -/
def u64If (present : Bool) : Reader UInt64 := if present then u64 else pure 0

def getEntry (ring : String) (lay : Layout) : Reader (UInt32 × SlotRecord) := do
  need lay.entryFixedBytes (ring ++ " registry entry truncated")
  let id ← u32
  let stakeSuwappu ← u64
  let depositedStake ← u64If lay.hasDeposited
  let exitBlockHeight ← u64If lay.hasExitHeight
  let b ← u8
  let status ← fetch fun _ => fromByte ring b
  let mldsaLen ← word 4
  reject (mldsaLen > maxMldsaPkBytes) (ring ++ " mldsa_pk length invalid")
  need mldsaLen (ring ++ " mldsa_pk length invalid")
  let mldsaPublicKey ← take mldsaLen
  need 4 (ring ++ " bls_pk length missing")
  let blsLen ← word 4
  reject (blsLen > maxBlsPkBytes) (ring ++ " bls_pk length invalid")
  need blsLen (ring ++ " bls_pk length invalid")
  let blsPublicKey ← take blsLen
  return (id, { mldsaPublicKey, blsPublicKey, stakeSuwappu, depositedStake, exitBlockHeight, status })

/-- The decoder behind the header check. -/
def ringBody (ring : String) : Reader RingMap := do
  let version ← u32
  let lay ← fetch fun _ => layout ring version
  let count ← word 4
  let map ← entries (getEntry ring lay)
    (some (ring ++ " registry has duplicate " ++ ring ++ "_id")) count ∅
  let rest ← read id
  reject (rest ≠ []) (ring ++ " registry trailing bytes")
  return map

def ringDecode (ring : String) (bytes : List UInt8) : Except String RingMap :=
  if bytes = [] then .ok ∅
  else if bytes.length < 4 + 4 then .error (ring ++ " registry header missing")
  else (ringBody ring bytes).1

/-! ## Round trip -/

/-- The keys are within the caps that admission and the decoder enforce. -/
def Capped (slot : SlotRecord) : Prop :=
  slot.mldsaPublicKey.length ≤ maxMldsaPkBytes ∧ slot.blsPublicKey.length ≤ maxBlsPkBytes

/-- What version 3 writes. -/
def layoutV3 : Layout := ⟨true, true, 4 + 8 + 1 + 4 + 4 + 8 + 8⟩

/-- What version 2 wrote: no exit height. -/
def layoutV2 : Layout := ⟨true, false, 4 + 8 + 1 + 4 + 4 + 8⟩

/-- What version 1 wrote: no bonded stake either. -/
def layoutV1 : Layout := ⟨false, false, 4 + 8 + 1 + 4 + 4⟩

/-- An entry as a version with that layout wrote it. -/
def putEntryAs (lay : Layout) (e : UInt32 × SlotRecord) : List UInt8 :=
  beBytes 4 e.1.toNat ++ (beBytes 8 e.2.stakeSuwappu.toNat
    ++ ((if lay.hasDeposited then beBytes 8 e.2.depositedStake.toNat else [])
    ++ ((if lay.hasExitHeight then beBytes 8 e.2.exitBlockHeight.toNat else [])
    ++ (beBytes 1 (asByte e.2.status).toNat
    ++ (beBytes 4 e.2.mldsaPublicKey.length ++ (e.2.mldsaPublicKey
    ++ (beBytes 4 e.2.blsPublicKey.length ++ e.2.blsPublicKey)))))))

theorem putEntryAs_V3 : putEntryAs layoutV3 = putEntry := rfl

/-- A registry as the version wrote it. -/
def ringEncodeAs (version : UInt32) (lay : Layout) (map : RingMap) : List UInt8 :=
  beBytes 4 version.toNat ++ (beBytes 4 map.toList.length ++ map.toList.flatMap (putEntryAs lay))

theorem ringEncodeAs_V3 : ringEncodeAs 3 layoutV3 = ringEncode := rfl

/-- The slot with the fields that the layout lacks at 0. -/
def lifted (lay : Layout) (slot : SlotRecord) : SlotRecord :=
  { slot with
    depositedStake := if lay.hasDeposited then slot.depositedStake else 0
    exitBlockHeight := if lay.hasExitHeight then slot.exitBlockHeight else 0 }

theorem putEntryAs_lifted (lay : Layout) (e : UInt32 × SlotRecord) :
    putEntryAs lay (e.1, lifted lay e.2) = putEntryAs lay e := by
  have hskip : ∀ (present : Bool) (x : UInt64),
      (if present then beBytes 8 (if present then x else 0).toNat else []) =
        if present then beBytes 8 x.toNat else [] := by
    intro present x
    cases present <;> rfl
  simp only [putEntryAs, lifted, hskip]

theorem fromByte_asByte (ring : String) (status : SlotStatus) :
    fromByte ring (asByte status) = .ok status := by
  cases status <;> rfl

variable {lay : Layout} {ring : String} {version : UInt32}

/-- The fixed overhead counts both length words. -/
theorem entryFixedBytes_of_layout (h : layout ring version = .ok lay) : lay.entryFixedBytes =
      4 + 8 + 1 + 4 + 4 + (if lay.hasDeposited then 8 else 0) + (if lay.hasExitHeight then 8 else 0) := by
  unfold layout at h
  split_ifs at h <;> cases h <;> rfl

theorem length_putEntryAs (h : layout ring version = .ok lay) (e : UInt32 × SlotRecord) :
    (putEntryAs lay e).length =
      lay.entryFixedBytes + e.2.mldsaPublicKey.length + e.2.blsPublicKey.length := by
  rw [entryFixedBytes_of_layout h]
  simp only [putEntryAs, List.length_append, length_beBytes]
  split_ifs <;> simp only [length_beBytes, List.length_nil] <;> omega

theorem putEntry_ne_nil (e : UInt32 × SlotRecord) : putEntry e ≠ [] := by
  intro h
  have hlen := congrArg List.length h
  simp [putEntry] at hlen

theorem reads_u64If (present : Bool) (x : UInt64) :
    Reads (u64If present) (if present then beBytes 8 x.toNat else []) (if present then x else 0) := by
  cases present with
  | true => exact reads_u64 x
  | false => exact reads_pure 0

variable {e : UInt32 × SlotRecord}

/-- An entry of any supported version is read back, its missing fields at 0. -/
theorem getEntry_reads (hlay : layout ring version = .ok lay) (hcap : Capped e.2) :
    Reads (getEntry ring lay) (putEntryAs lay e) (e.1, lifted lay e.2) := by
  intro rest
  have hlen : lay.entryFixedBytes ≤ (putEntryAs lay e ++ rest).length := by
    rw [List.length_append, length_putEntryAs hlay]
    omega
  obtain ⟨hmldsa, hbls⟩ := hcap
  have hmldsa' : e.2.mldsaPublicKey.length < 256 ^ 4 := by
    unfold maxMldsaPkBytes at hmldsa
    omega
  have hbls' : e.2.blsPublicKey.length < 256 ^ 4 := by
    unfold maxBlsPkBytes at hbls
    omega
  have hstatus : ∀ bs, (fetch fun _ => fromByte ring (asByte e.2.status) : Reader SlotStatus) bs =
      (.ok e.2.status, bs) := fun bs => by rw [fetch_run, fromByte_asByte]
  -- field by field, in the order they were written
  unfold getEntry
  rw [bind_run_ok (need_run hlen)]
  simp only [putEntryAs, List.append_assoc]
  rw [bind_run_ok (reads_u32 _ _), bind_run_ok (reads_u64 _ _), bind_run_ok (reads_u64If _ _ _),
    bind_run_ok (reads_u64If _ _ _), bind_run_ok (reads_u8 _ _),
    bind_run_ok (hstatus _), bind_run_ok (reads_word hmldsa' _),
    bind_run_ok (reject_run (not_lt.mpr hmldsa)), bind_run_ok (need_run (by simp)),
    bind_run_ok (reads_take _ _), bind_run_ok (need_run (by simp)),
    bind_run_ok (reads_word hbls' _), bind_run_ok (reject_run (not_lt.mpr hbls)),
    bind_run_ok (need_run (by simp)), bind_run_ok (reads_take _ _)]
  rfl

theorem putEntry_reads (ring : String) (hcap : Capped e.2) :
    Reads (getEntry ring layoutV3) (putEntry e) e :=
  getEntry_reads (show layout ring 3 = .ok layoutV3 from rfl) hcap

/-- The decoder lets no longer keys through. -/
theorem getEntry_capped : Gives (fun e => Capped e.2) (getEntry ring lay) := by
  unfold getEntry
  iterate 8 refine gives_bind fun _ => ?_
  refine (gives_reject _ _).bind fun _ hmldsa => gives_bind fun _ => (gives_take _).bind
    fun mldsa hm => gives_bind fun _ => gives_bind fun _ => ?_
  refine (gives_reject _ _).bind fun _ hbls => gives_bind fun _ => (gives_take _).bind
    fun bls hb => gives_pure ?_
  exact ⟨hm.trans (not_lt.mp hmldsa), hb.trans (not_lt.mp hbls)⟩

variable {map : RingMap}

theorem ringDecode_capped {bytes : List UInt8} (h : ringDecode ring bytes = .ok map) {id : UInt32}
    {slot : SlotRecord} (hslot : map[id]? = some slot) : Capped slot := by
  unfold ringDecode at h
  split at h
  · cases h
    simp at hslot
  split at h
  · cases h
  have hbody : Gives (fun m => ∀ (k : UInt32) v, m[k]? = some v → Capped v) (ringBody ring) :=
    gives_bind fun _ => gives_bind fun _ => gives_bind fun count =>
      (entries_gives getEntry_capped count fun k v hk => by simp at hk).bind fun m hm =>
        gives_bind fun _ => gives_bind fun _ => gives_pure hm
  exact hbody.fst h id slot hslot

theorem ringEncode_ne_nil (map : RingMap) : ringEncode map ≠ [] := by
  intro h
  have := congrArg List.length h
  simp [ringEncode] at this

/-- Behind the version word, the number of entries and the entries. -/
theorem ringDecode_version (hlay : layout ring version = .ok lay) {bytes : List UInt8}
    (hlen : 4 ≤ bytes.length) :
    ringDecode ring (beBytes 4 version.toNat ++ bytes) = (counted (getEntry ring lay)
      (some (ring ++ " registry has duplicate " ++ ring ++ "_id"))
      (ring ++ " registry trailing bytes") bytes).1 := by
  have hlen' : ¬ (beBytes 4 version.toNat ++ bytes).length < 4 + 4 := by
    rw [List.length_append, length_beBytes]
    omega
  have hne : beBytes 4 version.toNat ++ bytes ≠ [] := by
    intro h
    rw [h] at hlen'
    exact hlen' (by decide)
  have hlayout : ∀ bs, (fetch fun _ => layout ring version : Reader Layout) bs = (.ok lay, bs) :=
    fun bs => by rw [fetch_run, hlay]
  rw [ringDecode, if_neg hne, if_neg hlen']
  unfold ringBody
  rw [bind_run_ok (reads_u32 version _), bind_run_ok (hlayout _)]
  rfl

/-- **Older versions** are read with the same entries, the fields they lack at 0. -/
theorem ringDecode_ringEncodeAs (hlay : layout ring version = .ok lay)
    (hcap : ∀ e ∈ map.toList, Capped e.2) (hlt : map.size < 2 ^ 32) :
    ringDecode ring (ringEncodeAs version lay map) =
      .ok (map.map fun _ slot => lifted lay slot) := by
  have hlist : (map.map fun _ slot => lifted lay slot).toList =
      map.toList.map fun e => (e.1, lifted lay e.2) := ExtTreeMap.toList_map
  have hbody : map.toList.flatMap (putEntryAs lay) =
      (map.map fun _ slot => lifted lay slot).toList.flatMap (putEntryAs lay) := by
    rw [hlist, List.flatMap_map]
    simp only [putEntryAs_lifted]
  have hlength : map.toList.length = (map.map fun _ slot => lifted lay slot).toList.length := by
    rw [hlist, List.length_map]
  have hread : ∀ e ∈ (map.map fun _ slot => lifted lay slot).toList,
      Reads (getEntry ring lay) (putEntryAs lay e) e := by
    rw [hlist]
    intro e' he'
    obtain ⟨e, he, rfl⟩ := List.mem_map.mp he'
    rw [putEntryAs_lifted]
    exact getEntry_reads hlay (hcap e he)
  rw [ringEncodeAs, ringDecode_version hlay (by simp), hbody, hlength,
    counted_of_lt hread (nodup_keys_toList _) (by rwa [← hlength, ExtTreeMap.length_toList]),
    insertAll_toList]

theorem map_lifted_V3 (map : RingMap) : (map.map fun _ slot => lifted layoutV3 slot) = map := by
  apply ExtTreeMap.ext_getElem?
  intro id
  rw [ExtTreeMap.getElem?_map]
  exact Option.map_id'

/-- **Round trip**, for fewer than 2^32 slots. -/
theorem ringDecode_ringEncode (ring : String) (hcap : ∀ e ∈ map.toList, Capped e.2)
    (hlt : map.size < 2 ^ 32) : ringDecode ring (ringEncode map) = .ok map := by
  have h := ringDecode_ringEncodeAs (show layout ring 3 = .ok layoutV3 from rfl) hcap hlt
  rwa [map_lifted_V3, ringEncodeAs_V3] at h

/-- What an encoding decodes to: the map it was made from, unless the count was truncated. -/
theorem ringDecode_ringEncode_run (hcap : ∀ e ∈ map.toList, Capped e.2) :
    ringDecode ring (ringEncode map) = if map.size < 2 ^ 32 then .ok map
      else .error (ring ++ " registry trailing bytes") := by
  split_ifs with hlt
  · exact ringDecode_ringEncode ring hcap hlt
  · have hversion : layout ring 3 = .ok layoutV3 := rfl
    rw [← ringEncodeAs_V3, ringEncodeAs, ringDecode_version hversion (by simp), putEntryAs_V3,
      counted_of_ge putEntry_ne_nil (fun e he => putEntry_reads ring (hcap e he))
        (nodup_keys_toList map) (by rw [ExtTreeMap.length_toList]; exact not_lt.mp hlt)]

/-- An encoding that decodes at all decodes to the map it was made from. -/
theorem ringDecode_ringEncode_eq_ok {map map' : RingMap} (hcap : ∀ e ∈ map.toList, Capped e.2)
    (h : ringDecode ring (ringEncode map) = .ok map') : map' = map := by
  rw [ringDecode_ringEncode_run hcap] at h
  split_ifs at h
  exact (Except.ok.inj h).symm

/-! ## In range -/

section InRange

variable {ring : String} (hring : ∀ x, ring ++ x ≠ outOfRange)

include hring

theorem getEntry_inRange {version : UInt32} {lay : Layout} (hlay : layout ring version = .ok lay) :
    InRange 0 (getEntry ring lay) := by
  have hu64 : ∀ present, Exact (if present then 8 else 0) (u64If present) := by
    intro present
    cases present with
    | true => exact exact_u64
    | false => exact exact_pure 0
  have hstatus : ∀ b, Exact 0 (fetch fun _ => fromByte ring b : Reader SlotStatus) := by
    refine fun b => exact_fetch fun _ h => ?_
    unfold fromByte at h
    split_ifs at h
    exact hring _ (Except.error.inj h)
  -- the first check supplies the fixed fields, each key is checked for itself
  refine inRange_need_bind (hring _) (InRange.mono (exact_u32.bind_inRange fun _ =>
    exact_u64.bind_inRange fun _ => (hu64 _).bind_inRange fun _ => (hu64 _).bind_inRange fun _ =>
    exact_u8.bind_inRange fun b => (hstatus b).bind_inRange fun _ =>
    (exact_word 4).inRange.bind fun mldsaLen => (exact_reject (hring _)).inRange.bind fun _ =>
    inRange_need_bind (hring _) ((exact_take mldsaLen).inRange.bind fun _ =>
    inRange_need_bind (hring _) ((exact_word 4).inRange.bind fun blsLen =>
    (exact_reject (hring _)).inRange.bind fun _ => inRange_need_bind (hring _)
      ((exact_take blsLen).inRange.bind fun _ => inRange_pure 0 _)))) ?_)
  rw [entryFixedBytes_of_layout hlay]
  split_ifs <;> omega

theorem ringDecode_inRange (bytes : List UInt8) : ringDecode ring bytes ≠ .error outOfRange := by
  have hlayout : ∀ version, layout ring version ≠ .error outOfRange := by
    intro version h
    unfold layout at h
    split_ifs at h
    exact hring _ (Except.error.inj h)
  have hdup : ∀ why ∈ some (ring ++ " registry has duplicate " ++ ring ++ "_id"),
      why ≠ outOfRange := by
    rintro why ⟨⟩
    rw [String.append_assoc, String.append_assoc]
    exact hring _
  unfold ringDecode
  split
  · exact nofun
  split
  · exact fun h => hring _ (Except.error.inj h)
  · next hlen =>
    have hbody : InRange (4 + 4) (ringBody ring) := by
      refine exact_u32.bind_inRange fun version => ?_
      intro bs hbs
      refine errs_fetch_bind (fun e he heq => hlayout version (heq ▸ he)) fun lay hlay => ?_
      exact counted_inRange (getEntry_inRange hring hlay) hdup (hring _) bs hbs
    exact fun h => hbody bytes (not_lt.mp hlen) outOfRange h rfl

end InRange

/-- The words of both rings start no reason like that of a slice past the end. -/
theorem ringLawful (hring : ∀ x, ring ++ x ≠ outOfRange) :
    Lawful ringEncode (ringDecode ring) fun map =>
      map.size < 2 ^ 32 ∧ ∀ e ∈ map.toList, Capped e.2 where
  decode_encode _ h := ringDecode_ringEncode ring h.2 h.1
  inRange := ringDecode_inRange hring

/-- A ring's table as storage. -/
def ringStorage (ring : String) : Storage RingMap where
  encode := ringEncode
  decode := ringDecode ring
  Valid map := ∀ e ∈ map.toList, Capped e.2
  empty := ∅
  decode_nil := rfl
  encode_ne_nil := ringEncode_ne_nil
  encode_inj {map map'} hcap hcap' h := by
    have hbody := (List.append_inj (List.append_inj h rfl).2
      (by rw [length_beBytes, length_beBytes])).2
    exact toList_injective (flatMap_injective putEntry_ne_nil
      (fun e he => putEntry_reads ring (hcap e he)) (fun e he => putEntry_reads ring (hcap' e he))
      hbody)
  decode_encode hcap h := ringDecode_ringEncode_eq_ok hcap h

end RingRegistry

namespace AuthorityRegistry

def encode (map : RingMap) : List UInt8 := RingRegistry.ringEncode map
def decode (bytes : List UInt8) : Except String RingMap := RingRegistry.ringDecode "authority" bytes

theorem lawful : Lawful encode decode fun map =>
    map.size < 2 ^ 32 ∧ ∀ e ∈ map.toList, RingRegistry.Capped e.2 := by
  refine RingRegistry.ringLawful fun x h => ?_
  have := congrArg String.toList h
  simp [outOfRange] at this

end AuthorityRegistry

namespace ValidatorRegistry

def encode (map : RingMap) : List UInt8 := RingRegistry.ringEncode map
def decode (bytes : List UInt8) : Except String RingMap := RingRegistry.ringDecode "validator" bytes

theorem lawful : Lawful encode decode fun map =>
    map.size < 2 ^ 32 ∧ ∀ e ∈ map.toList, RingRegistry.Capped e.2 := by
  refine RingRegistry.ringLawful fun x h => ?_
  have := congrArg String.toList h
  simp [outOfRange] at this

end ValidatorRegistry

end SuwappuDag.Execution
