/-
  THE FIXED-WIDTH REGISTRIES (`delegation_registry.rs`, `force_include.rs`, `burn_nullifier.rs`,
  `eject_registry.rs`, `equivocation_registry.rs`).

  Each registry is one byte record at a reserved address, a `Codec.Format`: a header, then one entry
  of a fixed width per key, in ascending key order.

  1. **Program** — the five formats differ in their entry layout, in the texts of their errors, and
     in three small ways: force-include writes NO version word, ejection and burn-nullifier accept
     repeated keys (the later one wins), and delegation leaves zero amounts out when it encodes and
     refuses them when it decodes.
  2. **Specification** — `Faithful`: an entry is read back from its own bytes, so the round trip of
     the library applies.  `Exact`: an entry takes its width, so the size check keeps it in range.
-/
import SuwappuDag.Lib.Bounds
import SuwappuDag.Lib.Storage
import SuwappuDag.Execution.Reserved

namespace SuwappuDag.Execution

open Words Command Codec
open Std (ExtTreeMap)

/-! ## Validator delegations -/

namespace DelegationRegistry

/-- Delegated amounts by validator and delegator. -/
abbrev DelegationMap := ExtTreeMap (UInt32 ×ₗ Address) UInt64

def format : Format (UInt32 ×ₗ Address) UInt64 where
  version := some (1, "delegation registry version mismatch")
  width := 4 + 20 + 8
  put e := beBytes 4 (ofLex e.1).1.toNat ++ (beBytes 20 (ofLex e.1).2.toNat ++ beBytes 8 e.2.toNat)
  get := do
    let vid ← u32
    let delegator ← array 160
    let amount ← u64
    reject (amount = 0) "delegation registry has zero-amount entry"
    return (toLex (vid, delegator), amount)
  headerMissing := "delegation registry header missing"
  sizeMismatch := "delegation registry length mismatch"
  duplicate := some "delegation registry has duplicate (validator, delegator) pair"

/-- Zero amounts are left out of the encoding. -/
def encode (map : DelegationMap) : List UInt8 :=
  format.encode (map.toList.filter fun e => 0 < e.2)

def decode (bytes : List UInt8) : Except String DelegationMap := format.decode bytes

/-- The decoder refuses zero amounts, and the encoder writes none. -/
theorem faithfulOn : format.FaithfulOn fun e => 0 < e.2 where
  reads e he := by
    have hpass : ∀ rest : List UInt8, reject (e.2 = 0) "delegation registry has zero-amount entry"
        rest = (.ok (), rest) := fun rest => reject_run (by rintro h; simp [h] at he)
    intro rest
    simp only [format, List.append_assoc]
    rw [bind_run_ok (reads_u32 _ _), bind_run_ok (reads_array (k := 20) _ _),
      bind_run_ok (reads_u64 _ _), bind_run_ok (hpass _)]
    rfl
  length_put e := by simp [format]

/-- The amounts are positive. -/
def Positive (map : DelegationMap) : Prop :=
  ∀ (key : UInt32 ×ₗ Address) (amount : UInt64), map[key]? = some amount → 0 < amount

theorem decode_pos {bytes : List UInt8} {map : DelegationMap} (h : decode bytes = .ok map) :
    Positive map := by
  have hget : Gives (fun e => 0 < e.2) format.get :=
    gives_bind fun _ => gives_bind fun _ => gives_bind fun _ =>
      (gives_reject _ _).bind fun _ hne => gives_pure (UInt64.pos_iff_ne_zero.mpr hne)
  unfold decode Format.decode at h
  split at h
  · cases h
    intro key amount hkey
    simp at hkey
  split at h
  · cases h
  refine Gives.fst (r := format.body bytes.length) ?_ h
  exact gives_bind fun _ => gives_bind fun count => gives_bind fun _ =>
    entries_gives hget count fun k v hk => by simp at hk

theorem Positive.insert {map : DelegationMap} (h : Positive map) (key : UInt32 ×ₗ Address)
    {amount : UInt64} (hpos : 0 < amount) : Positive (map.insert key amount) := by
  intro key' amount' hkey'
  rw [ExtTreeMap.getElem?_insert] at hkey'
  split at hkey'
  · cases hkey'
    exact hpos
  · exact h key' amount' hkey'

theorem Positive.toList {map : DelegationMap} (h : Positive map) : ∀ e ∈ map.toList, 0 < e.2 :=
  fun e he => h e.1 e.2 (ExtTreeMap.mem_toList_iff_getElem?_eq_some.mp he)

theorem Positive.encode_eq {map : DelegationMap} (h : Positive map) :
    encode map = format.encode map.toList := by
  rw [encode, List.filter_eq_self.mpr]
  intro e he
  simpa using h.toList e he

/-- A table without zero amounts that can be read back at all is read back as it was. -/
theorem decode_encode {map map' : DelegationMap} (hpos : Positive map)
    (h : decode (encode map) = .ok map') : map' = map := by
  rw [hpos.encode_eq] at h
  rw [faithfulOn.decode_encode_eq_ok hpos.toList (by decide) (nodup_keys_toList map) h,
    insertAll_toList]

theorem size_lt_of_decode {map map' : DelegationMap} (hpos : Positive map)
    (h : decode (encode map) = .ok map') : map.size < 2 ^ 32 := by
  rw [hpos.encode_eq] at h
  have hlt := faithfulOn.length_lt_of_decode (by decide) h
  rwa [ExtTreeMap.length_toList] at hlt

theorem get_exact : Exact format.width format.get :=
  exact_u32.bind fun _ => (exact_array 160).bind fun _ => exact_u64.bind fun _ =>
    (exact_reject (by decide)).bind fun _ => exact_pure _

def storage : Storage DelegationMap where
  encode := encode
  decode := decode
  Valid := Positive
  empty := ∅
  decode_nil := rfl
  encode_ne_nil map := format.encode_ne_nil _
  encode_inj h h' heq := by
    rw [h.encode_eq, h'.encode_eq] at heq
    exact toList_injective (faithfulOn.encode_injective (by decide) h.toList h'.toList heq)
  decode_encode h hdec := decode_encode h hdec

/-- Tables without zero amounts are read back. -/
theorem lawful : Lawful encode decode fun map => map.size < 2 ^ 32 ∧ Positive map where
  decode_encode map h := by
    rw [h.2.encode_eq]
    exact faithfulOn.decode_encode_toList_of_lt h.2.toList h.1
  inRange := Format.decode_inRange get_exact (by decide)

end DelegationRegistry

/-! ## Force-include obligations -/

inductive ObligationStatus where
  | pending
  | honored
  | slashed
deriving DecidableEq, Repr

structure ForceIncludeObligation where
  txHash : Bytes32
  deadlineL1Height : UInt64
  submitter : Address
  l2Nonce : UInt64
  status : ObligationStatus
deriving DecidableEq

namespace ForceInclude

def asByte : ObligationStatus → UInt8
  | .pending => 0
  | .honored => 1
  | .slashed => 2

def fromByte (b : UInt8) : Except String ObligationStatus :=
  if b = 0 then .ok .pending
  else if b = 1 then .ok .honored
  else if b = 2 then .ok .slashed
  else .error "force-include obligation status out of range"

/-- The identifier of an obligation. -/
def obligationId (blake3 : List UInt8 → Bytes32) (tx : List UInt8) (deadlineL1Height : UInt64)
    (submitter : Address) (l2Nonce : UInt64) : Bytes32 :=
  blake3 (asciiBytes "suwappu-force-include-v1" ++ beBytes 4 tx.length ++ tx
    ++ beBytes 8 deadlineL1Height.toNat ++ beBytes 20 submitter.toNat ++ beBytes 8 l2Nonce.toNat)

def format : Format Bytes32 ForceIncludeObligation where
  version := none
  width := 32 + (32 + 8 + 20 + 8 + 1)
  put e := beBytes 32 e.1.toNat ++ (beBytes 32 e.2.txHash.toNat
    ++ (beBytes 8 e.2.deadlineL1Height.toNat ++ (beBytes 20 e.2.submitter.toNat
    ++ (beBytes 8 e.2.l2Nonce.toNat ++ beBytes 1 (asByte e.2.status).toNat))))
  get := do
    let id ← array 256
    let txHash ← array 256
    let deadlineL1Height ← u64
    let submitter ← array 160
    let l2Nonce ← u64
    let b ← u8
    let status ← fetch fun _ => fromByte b
    return (id, { txHash, deadlineL1Height, submitter, l2Nonce, status })
  headerMissing := "force-include map header missing"
  sizeMismatch := "force-include map size mismatch"
  duplicate := some "force-include map has duplicate ids"

def encodeMap (map : ExtTreeMap Bytes32 ForceIncludeObligation) : List UInt8 :=
  format.encode map.toList

def decodeMap (bytes : List UInt8) : Except String (ExtTreeMap Bytes32 ForceIncludeObligation) :=
  format.decode bytes

theorem fromByte_asByte (status : ObligationStatus) : fromByte (asByte status) = .ok status := by
  cases status <;> rfl

theorem faithful : format.Faithful where
  reads e := by
    have hstatus : ∀ bs, (fetch fun _ => fromByte (asByte e.2.status) : Reader ObligationStatus) bs =
        (.ok e.2.status, bs) := fun bs => by rw [fetch_run, fromByte_asByte]
    intro rest
    simp only [format, List.append_assoc]
    rw [bind_run_ok (reads_array (k := 32) _ _), bind_run_ok (reads_array (k := 32) _ _),
      bind_run_ok (reads_u64 _ _), bind_run_ok (reads_array (k := 20) _ _),
      bind_run_ok (reads_u64 _ _), bind_run_ok (reads_u8 _ _), bind_run_ok (hstatus _)]
    rfl
  length_put e := by simp [format]

theorem get_exact : Exact format.width format.get := by
  have hstatus : ∀ b, Exact 0 (fetch fun _ => fromByte b : Reader ObligationStatus) := by
    refine fun b => exact_fetch fun _ h => ?_
    unfold fromByte at h
    split_ifs at h
    exact absurd (Except.error.inj h) (by decide)
  exact (exact_array 256).bind fun _ => (exact_array 256).bind fun _ => exact_u64.bind fun _ =>
    (exact_array 160).bind fun _ => exact_u64.bind fun _ => exact_u8.bind fun b =>
    (hstatus b).bind fun _ => exact_pure _

/-- The obligations as storage. -/
def storage : Storage (ExtTreeMap Bytes32 ForceIncludeObligation) :=
  format.storage faithful (by decide)

theorem decodeMap_encodeMap {map map' : ExtTreeMap Bytes32 ForceIncludeObligation}
    (h : decodeMap (encodeMap map) = .ok map') : map' = map :=
  faithful.decode_encode_toList (by decide) h

theorem lawful : Lawful encodeMap decodeMap fun map => map.size < 2 ^ 32 where
  decode_encode _ hlt := faithful.decode_encode_toList_of_lt hlt
  inRange := Format.decode_inRange get_exact (by decide)

end ForceInclude

/-! ## Claimed burns -/

namespace BurnNullifier

/-- The identifier of a burn: every field that tells one burn from another. -/
def burnId (blake3 : List UInt8 → Bytes32) (l2ChainIdHash : Bytes32) (batchId : UInt64)
    (recipient : Address) (amount : Balance) (merklePath : List UInt8)
    (assetId : Option Bytes32) : Bytes32 :=
  blake3 (asciiBytes "suwappu-burn-v1" ++ beBytes 32 l2ChainIdHash.toNat ++ beBytes 8 batchId.toNat
    ++ beBytes 20 recipient.toNat ++ beBytes 16 amount.toNat ++ beBytes 4 merklePath.length
    ++ merklePath ++ (match assetId with
      | some id => [1] ++ beBytes 32 id.toNat
      | none => [0]))

/-- A set of burn ids, as a map to nothing. -/
def format : Format Bytes32 Unit where
  version := some (1, "burn nullifier version mismatch")
  width := 32
  put e := beBytes 32 e.1.toNat
  get := do return (← array 256, ())
  headerMissing := "burn nullifier header missing"
  sizeMismatch := "burn nullifier size mismatch"
  duplicate := none

def encode (set : ExtTreeMap Bytes32 Unit) : List UInt8 := format.encode set.toList

def decode (bytes : List UInt8) : Except String (ExtTreeMap Bytes32 Unit) := format.decode bytes

theorem faithful : format.Faithful where
  reads e := (reads_array (k := 32) e.1).map fun id => (id, ())
  length_put e := length_beBytes 32 _

theorem get_exact : Exact format.width format.get := (exact_array 256).bind fun _ => exact_pure _

theorem decode_encode {set set' : ExtTreeMap Bytes32 Unit} (h : decode (encode set) = .ok set') :
    set' = set := faithful.decode_encode_toList (by decide) h

/-- A set that lacks `id` is never stored as the bytes of the set with `id`. -/
theorem encode_insert_ne {bytes : List UInt8} {set : ExtTreeMap Bytes32 Unit} {id : Bytes32}
    (hdec : decode bytes = .ok set) (hid : id ∉ set) : encode (set.insert id ()) ≠ bytes := by
  intro heq
  rw [← heq] at hdec
  rw [decode_encode hdec] at hid
  exact hid ExtTreeMap.mem_insert_self

theorem lawful : Lawful encode decode fun set => set.size < 2 ^ 32 where
  decode_encode _ hlt := faithful.decode_encode_toList_of_lt hlt
  inRange := Format.decode_inRange get_exact (by decide)

end BurnNullifier

/-! ## Sequencer ejections -/

structure EjectionRecord where
  ejector : Address
deriving DecidableEq

namespace EjectRegistry

def format : Format Bytes32 EjectionRecord where
  version := some (1, "ejection registry version mismatch")
  width := 32 + 20
  put e := beBytes 32 e.1.toNat ++ beBytes 20 e.2.ejector.toNat
  get := do
    let id ← array 256
    let ejector ← array 160
    return (id, { ejector })
  headerMissing := "ejection registry header missing"
  sizeMismatch := "ejection registry size mismatch"
  duplicate := none

def encode (map : ExtTreeMap Bytes32 EjectionRecord) : List UInt8 := format.encode map.toList

def decode (bytes : List UInt8) : Except String (ExtTreeMap Bytes32 EjectionRecord) :=
  format.decode bytes

theorem faithful : format.Faithful where
  reads e := by
    intro rest
    simp only [format, List.append_assoc]
    rw [bind_run_ok (reads_array (k := 32) _ _), bind_run_ok (reads_array (k := 20) _ _)]
    rfl
  length_put e := by simp [format]

theorem get_exact : Exact format.width format.get :=
  (exact_array 256).bind fun _ => (exact_array 160).bind fun _ => exact_pure _

theorem decode_encode {map map' : ExtTreeMap Bytes32 EjectionRecord}
    (h : decode (encode map) = .ok map') : map' = map :=
  faithful.decode_encode_toList (by decide) h

theorem lawful : Lawful encode decode fun map => map.size < 2 ^ 32 where
  decode_encode _ hlt := faithful.decode_encode_toList_of_lt hlt
  inRange := Format.decode_inRange get_exact (by decide)

end EjectRegistry

/-! ## Slashed offences -/

inductive OffenseKind where
  | equivocation
  | invalidBatch
deriving DecidableEq, Repr

structure EquivocationRecord where
  kind : OffenseKind
  slashedAtL1Height : UInt64
deriving DecidableEq

namespace EquivocationRegistry

def asByte : OffenseKind → UInt8
  | .equivocation => 0
  | .invalidBatch => 1

def fromByte (b : UInt8) : Except String OffenseKind :=
  if b = 0 then .ok .equivocation
  else if b = 1 then .ok .invalidBatch
  else .error "equivocation offense kind out of range"

def format : Format Bytes32 EquivocationRecord where
  version := some (1, "equivocation registry version mismatch")
  width := 32 + 1 + 8
  put e := beBytes 32 e.1.toNat
    ++ (beBytes 1 (asByte e.2.kind).toNat ++ beBytes 8 e.2.slashedAtL1Height.toNat)
  get := do
    let id ← array 256
    let b ← u8
    let kind ← fetch fun _ => fromByte b
    let slashedAtL1Height ← u64
    return (id, { kind, slashedAtL1Height })
  headerMissing := "equivocation registry header missing"
  sizeMismatch := "equivocation registry size mismatch"
  duplicate := some "equivocation registry has duplicate keys"

def encode (map : ExtTreeMap Bytes32 EquivocationRecord) : List UInt8 := format.encode map.toList

def decode (bytes : List UInt8) : Except String (ExtTreeMap Bytes32 EquivocationRecord) :=
  format.decode bytes

theorem fromByte_asByte (kind : OffenseKind) : fromByte (asByte kind) = .ok kind := by
  cases kind <;> rfl

theorem faithful : format.Faithful where
  reads e := by
    have hkind : ∀ bs, (fetch fun _ => fromByte (asByte e.2.kind) : Reader OffenseKind) bs =
        (.ok e.2.kind, bs) := fun bs => by rw [fetch_run, fromByte_asByte]
    intro rest
    simp only [format, List.append_assoc]
    rw [bind_run_ok (reads_array (k := 32) _ _), bind_run_ok (reads_u8 _ _),
      bind_run_ok (hkind _), bind_run_ok (reads_u64 _ _)]
    rfl
  length_put e := by simp [format]

theorem get_exact : Exact format.width format.get := by
  have hkind : ∀ b, Exact 0 (fetch fun _ => fromByte b : Reader OffenseKind) := by
    refine fun b => exact_fetch fun _ h => ?_
    unfold fromByte at h
    split_ifs at h
    exact absurd (Except.error.inj h) (by decide)
  exact (exact_array 256).bind fun _ => exact_u8.bind fun b => (hkind b).bind fun _ =>
    exact_u64.bind fun _ => exact_pure _

theorem decode_encode {map map' : ExtTreeMap Bytes32 EquivocationRecord}
    (h : decode (encode map) = .ok map') : map' = map :=
  faithful.decode_encode_toList (by decide) h

theorem lawful : Lawful encode decode fun map => map.size < 2 ^ 32 where
  decode_encode _ hlt := faithful.decode_encode_toList_of_lt hlt
  inRange := Format.decode_inRange get_exact (by decide)

end EquivocationRegistry

end SuwappuDag.Execution
