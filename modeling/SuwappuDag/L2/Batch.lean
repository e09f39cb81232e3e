/-
  L2 BATCHES and their public inputs (`suwappu-l2-sequencer/src/lib.rs`,
  `suwappu-l2-verifier-precompile/src/lib.rs`).

  A batch reaches L1 as 240 bytes, the public inputs of its proof.  L1 never sees the transactions;
  what it accepts, it accepts for these bytes.

  1. **Program** — `BatchBuilder.build` puts the transactions into a blob, hashes it, and copies the
     header field by field into a buffer of zeros.
  2. **The header can be read back** — the nine fields lie apart from each other and fill the buffer.
  3. **The transactions are bound** — the blob has no count of its transactions, only a length in front
     of each.  A transaction that `PendingTx::new` has let through is at most 256 KiB long, so its
     length is not truncated, and two blobs are equal only if the lists are (`encodeDaBlob_inj`).
-/
import SuwappuDag.Lib.Layout
import SuwappuDag.Execution.Arms
import SuwappuDag.L2.Sequencer

namespace SuwappuDag.L2

open Words Layout Execution

/-! ## The header -/

def prevL2StateRootOffset : Nat := 0
def rangeVkCommitmentOffset : Nat := 112
def prevL1StateRootOffset : Nat := 144
def confidentialRootOffset : Nat := 208

@[ext] structure BatchHeader where
  prevL2StateRoot : Bytes32
  newL2StateRoot : Bytes32
  batchId : UInt64
  /-- BLAKE3 of the blob. -/
  daCommitment : Bytes32
  l1AnchorHeight : UInt64
  rangeVkCommitment : Bytes32
  prevL1StateRoot : Bytes32
  l2ChainIdHash : Bytes32
  confidentialRoot : Bytes32
deriving DecidableEq

namespace BatchHeader

/-- The fields with their offsets, in the order they are copied. -/
def fields (header : BatchHeader) : List (Nat × List UInt8) :=
  [(prevL2StateRootOffset, beBytes 32 header.prevL2StateRoot.toNat),
    (L2Verifier.newL2StateRootOffset, beBytes 32 header.newL2StateRoot.toNat),
    (L2Verifier.batchIdOffset, beBytes 8 header.batchId.toNat),
    (L2Verifier.daCommitmentOffset, beBytes 32 header.daCommitment.toNat),
    (L2Verifier.l1AnchorHeightOffset, beBytes 8 header.l1AnchorHeight.toNat),
    (rangeVkCommitmentOffset, beBytes 32 header.rangeVkCommitment.toNat),
    (prevL1StateRootOffset, beBytes 32 header.prevL1StateRoot.toNat),
    (L2Verifier.l2ChainIdHashOffset, beBytes 32 header.l2ChainIdHash.toNat),
    (confidentialRootOffset, beBytes 32 header.confidentialRoot.toNat)]

def toPublicInputs (header : BatchHeader) : List UInt8 :=
  copyAll (List.replicate L2Verifier.l2PublicInputsBytes 0) header.fields

theorem fields_placed (header : BatchHeader) :
    Placed L2Verifier.l2PublicInputsBytes header.fields := by
  simp [Placed, fields, L2Verifier.l2PublicInputsBytes, prevL2StateRootOffset,
    L2Verifier.newL2StateRootOffset, L2Verifier.batchIdOffset, L2Verifier.daCommitmentOffset,
    L2Verifier.l1AnchorHeightOffset, rangeVkCommitmentOffset, prevL1StateRootOffset,
    L2Verifier.l2ChainIdHashOffset, confidentialRootOffset]

/-- A field at its offset, as L1 reads it. -/
theorem publicInputAt_field (header : BatchHeader) {offset k n : Nat}
    (hf : (offset, beBytes k n) ∈ header.fields) (hn : n < 256 ^ k) :
    publicInputAt header.toPublicInputs offset k = n := by
  have hplaced : Placed (List.replicate L2Verifier.l2PublicInputsBytes (0 : UInt8)).length
      header.fields := by
    rw [List.length_replicate]
    exact header.fields_placed
  have hread := readAt_copyAll hplaced _ hf
  rw [length_beBytes] at hread
  show ofBeBytes (readAt header.toPublicInputs offset k) = n
  rw [toPublicInputs, hread, ofBeBytes_beBytes, Nat.mod_eq_of_lt hn]

theorem publicInputAt_u64 (header : BatchHeader) {offset : Nat} {x : UInt64}
    (hf : (offset, beBytes 8 x.toNat) ∈ header.fields) :
    UInt64.ofNat (publicInputAt header.toPublicInputs offset 8) = x := by
  rw [header.publicInputAt_field hf x.toNat_lt, UInt64.ofNat_toNat]

theorem publicInputAt_bytes32 (header : BatchHeader) {offset : Nat} {x : Bytes32}
    (hf : (offset, beBytes 32 x.toNat) ∈ header.fields) :
    BitVec.ofNat 256 (publicInputAt header.toPublicInputs offset 32) = x := by
  rw [header.publicInputAt_field hf x.isLt, BitVec.ofNat_toNat, BitVec.setWidth_eq]

/-- The public inputs determine the header. -/
theorem toPublicInputs_inj {header header' : BatchHeader}
    (h : header.toPublicInputs = header'.toPublicInputs) : header = header' := by
  have hword : ∀ (offset : Nat) {x y : Bytes32}, (offset, beBytes 32 x.toNat) ∈ header.fields →
      (offset, beBytes 32 y.toNat) ∈ header'.fields → x = y := by
    intro offset x y hx hy
    rw [← header.publicInputAt_bytes32 hx, ← header'.publicInputAt_bytes32 hy, h]
  have hu64 : ∀ (offset : Nat) {x y : UInt64}, (offset, beBytes 8 x.toNat) ∈ header.fields →
      (offset, beBytes 8 y.toNat) ∈ header'.fields → x = y := by
    intro offset x y hx hy
    rw [← header.publicInputAt_u64 hx, ← header'.publicInputAt_u64 hy, h]
  exact BatchHeader.ext
    (hword prevL2StateRootOffset (by simp [fields]) (by simp [fields]))
    (hword L2Verifier.newL2StateRootOffset (by simp [fields]) (by simp [fields]))
    (hu64 L2Verifier.batchIdOffset (by simp [fields]) (by simp [fields]))
    (hword L2Verifier.daCommitmentOffset (by simp [fields]) (by simp [fields]))
    (hu64 L2Verifier.l1AnchorHeightOffset (by simp [fields]) (by simp [fields]))
    (hword rangeVkCommitmentOffset (by simp [fields]) (by simp [fields]))
    (hword prevL1StateRootOffset (by simp [fields]) (by simp [fields]))
    (hword L2Verifier.l2ChainIdHashOffset (by simp [fields]) (by simp [fields]))
    (hword confidentialRootOffset (by simp [fields]) (by simp [fields]))

end BatchHeader

/-! ## Batches -/

structure Batch where
  header : BatchHeader
  /-- The transactions in their order. -/
  txs : List PendingTx
  daBlob : List UInt8
deriving DecidableEq

def Batch.publicInputs (batch : Batch) : List UInt8 := batch.header.toPublicInputs

/-- What the caller supplies, the root behind the transactions included. -/
structure BuildContext where
  prevL2StateRoot : Bytes32
  batchId : UInt64
  l1AnchorHeight : UInt64
  rangeVkCommitment : Bytes32
  prevL1StateRoot : Bytes32
  l2ChainIdHash : Bytes32
  confidentialRoot : Bytes32
  newL2StateRoot : Bytes32

/-- One transaction in the blob; `bytes.len() as u32` truncates. -/
def daEntry (tx : PendingTx) : List UInt8 := beBytes 4 tx.bytes.length ++ tx.bytes

def encodeDaBlob (batchId : UInt64) (txs : List PendingTx) : List UInt8 :=
  beBytes 8 batchId.toNat ++ txs.flatMap daEntry

/-- `BatchBuilder::build`. -/
def BatchBuilder.build (blake3 : List UInt8 → Bytes32) (txs : List PendingTx) (ctx : BuildContext) :
    Batch where
  header :=
    { prevL2StateRoot := ctx.prevL2StateRoot
      newL2StateRoot := ctx.newL2StateRoot
      batchId := ctx.batchId
      daCommitment := blake3 (encodeDaBlob ctx.batchId txs)
      l1AnchorHeight := ctx.l1AnchorHeight
      rangeVkCommitment := ctx.rangeVkCommitment
      prevL1StateRoot := ctx.prevL1StateRoot
      l2ChainIdHash := ctx.l2ChainIdHash
      confidentialRoot := ctx.confidentialRoot }
  txs := txs
  daBlob := encodeDaBlob ctx.batchId txs

/-- `PendingTx::new` has let the transaction through. -/
def PendingTx.Accepted (blake3 : List UInt8 → Bytes32) (tx : PendingTx) : Prop :=
  PendingTx.new blake3 tx.bytes = .ok tx

theorem delimited_daEntry (blake3 : List UInt8 → Bytes32) :
    Delimited (PendingTx.Accepted blake3) daEntry := by
  have hfits : ∀ {tx : PendingTx}, tx.Accepted blake3 → tx.bytes.length < 2 ^ 32 := by
    intro tx htx
    have hlen := (PendingTx.new_eq_ok_iff.mp htx).2.1
    simp only [maxTxBytes] at hlen
    omega
  intro a b s t ha hb h
  simp only [daEntry, List.append_assoc] at h
  obtain ⟨hbytes, hrest⟩ := lengthPrefixed_append_inj (hfits ha) (hfits hb) h
  -- the hash comes with the bytes
  have ha := ha
  rw [PendingTx.Accepted, hbytes, hb] at ha
  exact ⟨(Except.ok.inj ha).symm, hrest⟩

/-- **The blob determines the batch**: its id and its transactions, in their order. -/
theorem encodeDaBlob_inj {blake3 : List UInt8 → Bytes32} {batchId batchId' : UInt64}
    {txs txs' : List PendingTx} (htxs : ∀ tx ∈ txs, tx.Accepted blake3)
    (htxs' : ∀ tx ∈ txs', tx.Accepted blake3)
    (h : encodeDaBlob batchId txs = encodeDaBlob batchId' txs') : batchId = batchId' ∧ txs = txs' := by
  obtain ⟨hid, h⟩ := u64_append_inj h
  have hne : ∀ tx, daEntry tx ≠ [] := by
    intro tx hnil
    have hlen := congrArg List.length hnil
    simp only [daEntry, List.length_append, length_beBytes, List.length_nil] at hlen
    omega
  exact ⟨hid, (delimited_daEntry blake3).flatMap_inj hne htxs htxs' h⟩

/-! ## What L1 can tell -/

/-- What L1 finds at the offsets of the public inputs is what the header says. -/
structure ReadsHeader (inputs : List UInt8) (header : BatchHeader) : Prop where
  newRoot : BitVec.ofNat 256 (publicInputAt inputs L2Verifier.newL2StateRootOffset 32) =
    header.newL2StateRoot
  batchId : UInt64.ofNat (publicInputAt inputs L2Verifier.batchIdOffset 8) = header.batchId
  anchorHeight : UInt64.ofNat (publicInputAt inputs L2Verifier.l1AnchorHeightOffset 8) =
    header.l1AnchorHeight
  chain : BitVec.ofNat 256 (publicInputAt inputs L2Verifier.l2ChainIdHashOffset 32) =
    header.l2ChainIdHash
  daCommitment : BitVec.ofNat 256 (publicInputAt inputs L2Verifier.daCommitmentOffset 32) =
    header.daCommitment

theorem BatchHeader.readsHeader (header : BatchHeader) :
    ReadsHeader header.toPublicInputs header where
  newRoot := header.publicInputAt_bytes32 (by simp [fields])
  batchId := header.publicInputAt_u64 (by simp [fields])
  anchorHeight := header.publicInputAt_u64 (by simp [fields])
  chain := header.publicInputAt_bytes32 (by simp [fields])
  daCommitment := header.publicInputAt_bytes32 (by simp [fields])

open BatchBuilder in
/-- **A batch is determined by its public inputs**: built from transactions that were let through,
    with blobs that BLAKE3 tells apart, two batches with one string of public inputs are the same; and
    L1 reads the header from every such string. -/
theorem batch_determined (blake3 : List UInt8 → Bytes32) {txs txs' : List PendingTx}
    (ctx ctx' : BuildContext) (htxs : ∀ tx ∈ txs, tx.Accepted blake3)
    (htxs' : ∀ tx ∈ txs', tx.Accepted blake3)
    (hnc : blake3 (build blake3 txs ctx).daBlob = blake3 (build blake3 txs' ctx').daBlob →
      (build blake3 txs ctx).daBlob = (build blake3 txs' ctx').daBlob) :
    ((build blake3 txs ctx).publicInputs = (build blake3 txs' ctx').publicInputs →
      (build blake3 txs ctx).header.batchId = (build blake3 txs' ctx').header.batchId ∧
      (build blake3 txs ctx).txs = (build blake3 txs' ctx').txs ∧
      (build blake3 txs ctx).header = (build blake3 txs' ctx').header) ∧
    ReadsHeader (build blake3 txs ctx).publicInputs (build blake3 txs ctx).header := by
  refine ⟨fun h => ?_, BatchHeader.readsHeader _⟩
  have hheader : (build blake3 txs ctx).header = (build blake3 txs' ctx').header :=
    BatchHeader.toPublicInputs_inj h
  have hblob := hnc (congrArg BatchHeader.daCommitment hheader)
  exact ⟨congrArg BatchHeader.batchId hheader, (encodeDaBlob_inj htxs htxs' hblob).2, hheader⟩

/-- A batch of one transaction of one byte. -/
def oneByteTx (b : UInt8) : PendingTx := ⟨[b], Blake3.hash [b]⟩

def emptyContext : BuildContext := ⟨0, 1, 7, 0, 0, 0, 0, 0⟩

theorem oneByteTx_accepted (b : UInt8) : ∀ tx ∈ [oneByteTx b], tx.Accepted Blake3.hash := by
  intro tx htx
  rw [List.mem_singleton.mp htx]
  exact PendingTx.new_eq_ok_iff.mpr ⟨List.cons_ne_nil _ _, by simp [oneByteTx, maxTxBytes], rfl⟩

open BatchBuilder in
theorem batch_determined_oneByte :
    ReadsHeader (build Blake3.hash [oneByteTx 1] emptyContext).publicInputs
      (build Blake3.hash [oneByteTx 1] emptyContext).header ∧
    (build Blake3.hash [oneByteTx 1] emptyContext).publicInputs ≠
      (build Blake3.hash [oneByteTx 2] emptyContext).publicInputs := by
  have hapart : Blake3.hash (build Blake3.hash [oneByteTx 1] emptyContext).daBlob ≠
      Blake3.hash (build Blake3.hash [oneByteTx 2] emptyContext).daBlob := by decide +kernel
  obtain ⟨hbinds, hreads⟩ := batch_determined Blake3.hash emptyContext emptyContext
    (oneByteTx_accepted 1) (oneByteTx_accepted 2) fun h => absurd h hapart
  refine ⟨hreads, fun h => ?_⟩
  have htxs : [oneByteTx 1] = [oneByteTx 2] := (hbinds h).2.1
  exact absurd (congrArg PendingTx.bytes (List.singleton_inj.mp htxs)) (by decide)

end SuwappuDag.L2
