/-
  CHECKPOINTS: ratification and chain (`suwappu-execution/src/checkpoint.rs`).

  1. **Program** — `ratifyCheckpoint` checks one signature after the other against the seated keys, keeps
     the last one of every signer, and compares their number with the registry's quorum.
  2. **Specification** — two ratified checkpoints share at least `2q − n` signers, a third of the ring,
     and each of them is on record with a verifying signature under both.
  3. **Crux** — the checks look at one signature at a time (`ratifyCheckpoint_eq_ok_iff`): what is kept is
     an insertion of all, so its keys are a set of seated authorities, and the order of a list without
     repetitions does not matter to it.  Which of several errors is reported does depend on the order.
  4. **Chain** — `Checkpointer` emits at its boundary rounds and links each checkpoint to the one before;
     the last hash commits to all of them (`checkpoints_commit`).
-/
import SuwappuDag.Lib.MapSum
import SuwappuDag.Lib.Quorum
import SuwappuDag.Node.Scheme

namespace SuwappuDag.Node

open Words Consensus MapSum
open Std (ExtTreeMap)

/-! ## The program -/

structure Checkpoint where
  height : UInt64
  round : UInt64
  stateRoot : Bytes32
  prevCheckpoint : Bytes32
deriving DecidableEq

def Checkpoint.hash (blake3 : List UInt8 → Bytes32) (checkpoint : Checkpoint) : Bytes32 :=
  blake3 (asciiBytes "SUWAPPU-CHECKPOINT-V1" ++ beBytes 8 checkpoint.height.toNat
    ++ beBytes 8 checkpoint.round.toNat ++ beBytes 32 checkpoint.stateRoot.toNat
    ++ beBytes 32 checkpoint.prevCheckpoint.toNat)

structure CheckpointSignature where
  authority : AuthorityId
  signature : List UInt8
deriving DecidableEq

structure CoSignedCheckpoint where
  checkpoint : Checkpoint
  signatures : List CheckpointSignature
deriving DecidableEq

inductive CheckpointError where
  | belowQuorum (signers need : UInt32)
  | unknownSigner (id : AuthorityId)
  | invalidSignature (id : AuthorityId)
  | malformedKey (id : AuthorityId)
deriving DecidableEq

/-- `AuthorityRegistry::quorum_threshold`. -/
def AuthorityRegistry.quorumThreshold (registry : AuthorityRegistry) : UInt32 :=
  Consensus.quorumThreshold (UInt32.ofNat registry.size)

section Program

variable (C : Crypto) (registry : AuthorityRegistry) (checkpoint : Checkpoint)

/-- The checks of one signature. -/
def checkCosignature (sig : CheckpointSignature) : Except CheckpointError Unit :=
  match registry[sig.authority]? with
  | none => .error (.unknownSigner sig.authority)
  | some member =>
    if !C.publicKeyFromBytes member.publicKeyBytes then .error (.malformedKey sig.authority)
    else if !C.signatureFromBytes sig.signature then .error (.invalidSignature sig.authority)
    else if C.verify (beBytes 32 (checkpoint.hash C.blake3).toNat) sig.signature member.publicKeyBytes
    then .ok ()
    else .error (.invalidSignature sig.authority)

/-- The loop over the signatures: a later one of the same signer replaces the earlier. -/
def verifyCosignatures : List CheckpointSignature → ExtTreeMap AuthorityId CheckpointSignature →
    Except CheckpointError (ExtTreeMap AuthorityId CheckpointSignature)
  | [], verified => .ok verified
  | sig :: sigs, verified =>
    match checkCosignature C registry checkpoint sig with
    | .error e => .error e
    | .ok () => verifyCosignatures sigs (verified.insert sig.authority sig)

def ratifyCheckpoint (signatures : List CheckpointSignature) :
    Except CheckpointError CoSignedCheckpoint :=
  match verifyCosignatures C registry checkpoint signatures ∅ with
  | .error e => .error e
  | .ok verified =>
    -- `verified.len() as u32`
    if UInt32.ofNat verified.size < registry.quorumThreshold then
      .error (.belowQuorum (UInt32.ofNat verified.size) registry.quorumThreshold)
    else .ok ⟨checkpoint, verified.toList.map Prod.snd⟩

end Program

variable {C : Crypto} {registry : AuthorityRegistry} {checkpoint : Checkpoint}

/-! ## What is kept -/

/-- The last signature of every signer. -/
def lastOf (sigs : List CheckpointSignature) (verified : ExtTreeMap AuthorityId CheckpointSignature) :
    ExtTreeMap AuthorityId CheckpointSignature :=
  sigs.foldl (fun verified sig => verified.insert sig.authority sig) verified

theorem verifyCosignatures_eq_ok_iff {sigs : List CheckpointSignature}
    {verified verified' : ExtTreeMap AuthorityId CheckpointSignature} :
    verifyCosignatures C registry checkpoint sigs verified = .ok verified' ↔
      (∀ sig ∈ sigs, checkCosignature C registry checkpoint sig = .ok ()) ∧
        lastOf sigs verified = verified' := by
  induction sigs generalizing verified with
  | nil => simp [verifyCosignatures, lastOf]
  | cons sig sigs ih =>
    rw [verifyCosignatures, List.forall_mem_cons]
    cases checkCosignature C registry checkpoint sig with
    | error e => simp
    | ok u =>
      show verifyCosignatures C registry checkpoint sigs _ = _ ↔ _
      rw [ih]
      simp [lastOf]

theorem ratifyCheckpoint_eq_ok_iff {sigs : List CheckpointSignature} {co : CoSignedCheckpoint} :
    ratifyCheckpoint C registry checkpoint sigs = .ok co ↔
      (∀ sig ∈ sigs, checkCosignature C registry checkpoint sig = .ok ()) ∧
        registry.quorumThreshold ≤ UInt32.ofNat (lastOf sigs ∅).size ∧
        ⟨checkpoint, (lastOf sigs ∅).toList.map Prod.snd⟩ = co := by
  unfold ratifyCheckpoint
  cases hrun : verifyCosignatures C registry checkpoint sigs ∅ with
  | error e =>
    refine ⟨by simp, fun h => ?_⟩
    rw [verifyCosignatures_eq_ok_iff.mpr ⟨h.1, rfl⟩] at hrun
    cases hrun
  | ok verified =>
    obtain ⟨hall, rfl⟩ := verifyCosignatures_eq_ok_iff.mp hrun
    dsimp only
    split
    · next hlt => simp [not_le.mpr hlt]
    · next hge =>
      rw [Except.ok.injEq]
      exact ⟨fun h => ⟨hall, not_lt.mp hge, h⟩, fun h => h.2.2⟩

theorem mem_of_lastOf {sigs : List CheckpointSignature}
    {verified : ExtTreeMap AuthorityId CheckpointSignature} {id : AuthorityId}
    {sig : CheckpointSignature} (h : (lastOf sigs verified)[id]? = some sig) :
    (sig ∈ sigs ∧ sig.authority = id) ∨ verified[id]? = some sig := by
  induction sigs generalizing verified with
  | nil => exact .inr h
  | cons s sigs ih =>
    rcases ih h with ⟨hmem, hid⟩ | hget
    · exact .inl ⟨List.mem_cons_of_mem _ hmem, hid⟩
    · rw [ExtTreeMap.getElem?_insert] at hget
      split at hget
      · next heq =>
        cases hget
        exact .inl ⟨List.mem_cons_self, compare_eq_iff_eq.mp heq⟩
      · exact .inr hget

/-- Signatures of different signers are kept in any order. -/
theorem lastOf_perm {sigs sigs' : List CheckpointSignature} (hperm : sigs.Perm sigs')
    (honce : (sigs.map (·.authority)).Nodup) : lastOf sigs ∅ = lastOf sigs' ∅ := by
  refine hperm.foldl_eq' (fun x hx y hy verified => ?_) ∅
  by_cases hxy : x.authority = y.authority
  · rw [List.inj_on_of_nodup_map honce hx hy hxy]
  refine ExtTreeMap.ext_getElem? fun k => ?_
  simp only [ExtTreeMap.getElem?_insert, compare_eq_iff_eq]
  by_cases hk : y.authority = k
  · rw [if_pos hk, if_neg (fun h => hxy (h.trans hk.symm)), if_pos hk]
  · rw [if_neg hk, if_neg hk]

/-! ## Two ratified checkpoints -/

/-- The authority is seated, and a signature of its that verifies is among those returned. -/
def Cosigned (C : Crypto) (registry : AuthorityRegistry) (co : CoSignedCheckpoint) (id : AuthorityId) :
    Prop :=
  ∃ member, registry[id]? = some member ∧ ∃ sig ∈ co.signatures, sig.authority = id ∧
    C.verify (beBytes 32 (co.checkpoint.hash C.blake3).toNat) sig.signature member.publicKeyBytes = true

theorem seated_of_checkCosignature {sig : CheckpointSignature}
    (h : checkCosignature C registry checkpoint sig = .ok ()) :
    ∃ member, registry[sig.authority]? = some member ∧
      C.verify (beBytes 32 (checkpoint.hash C.blake3).toNat) sig.signature member.publicKeyBytes := by
  unfold checkCosignature at h
  split at h
  · cases h
  · next member hmember =>
    split_ifs at h with hkey hsig hverify
    exact ⟨member, hmember, hverify⟩

/-- A ratified checkpoint has a quorum of signers on record. -/
theorem quorum_of_ratified (hn : registry.size < 2 ^ 32) {sigs : List CheckpointSignature}
    {co : CoSignedCheckpoint} (h : ratifyCheckpoint C registry checkpoint sigs = .ok co) :
    ∃ A : Finset AuthorityId, A ⊆ keySet registry ∧ registry.quorumThreshold.toNat ≤ A.card ∧
      ∀ id ∈ A, Cosigned C registry co id := by
  obtain ⟨hall, hquorum, rfl⟩ := ratifyCheckpoint_eq_ok_iff.mp h
  have hcosigned : ∀ id ∈ keySet (lastOf sigs ∅),
      Cosigned C registry ⟨checkpoint, (lastOf sigs ∅).toList.map Prod.snd⟩ id := by
    intro id hid
    obtain ⟨sig, hsig⟩ := Option.isSome_iff_exists.mp
      (ExtTreeMap.mem_iff_isSome_getElem?.mp (mem_keySet.mp hid))
    obtain ⟨hmem, rfl⟩ := (mem_of_lastOf hsig).resolve_right (by simp)
    obtain ⟨member, hmember, hverify⟩ := seated_of_checkCosignature (hall sig hmem)
    exact ⟨member, hmember, sig, List.mem_map.mpr ⟨(sig.authority, sig),
      ExtTreeMap.mem_toList_iff_getElem?_eq_some.mpr hsig, rfl⟩, rfl, hverify⟩
  have hsub : keySet (lastOf sigs ∅) ⊆ keySet registry := by
    intro id hid
    obtain ⟨member, hmember, -⟩ := hcosigned id hid
    rw [mem_keySet, ExtTreeMap.mem_iff_isSome_getElem?, hmember]
    rfl
  have hcard := Finset.card_le_card hsub
  rw [card_keySet, card_keySet] at hcard
  rw [UInt32.le_iff_toNat_le, UInt32.toNat_ofNat_of_lt' (hcard.trans_lt hn)] at hquorum
  exact ⟨_, hsub, hquorum.trans_eq (card_keySet _).symm, hcosigned⟩

def oneSeat : AuthorityRegistry := (∅ : AuthorityRegistry).insert 0 ⟨0, 100000, briefKey 0⟩

def checkpointAt (height : UInt64) : Checkpoint := ⟨height, 0, 0, 0⟩

def cosign (height : UInt64) : CheckpointSignature :=
  ⟨0, briefKey 0 ++ beBytes 32 ((checkpointAt height).hash Blake3.hash).toNat⟩

structure Checkpointer where
  cadence : UInt32
  /-- `new` panics otherwise. -/
  positive : 1 ≤ cadence
  nextHeight : UInt64
  lastHash : Bytes32

def Checkpointer.new (cadence : UInt32) (positive : 1 ≤ cadence) : Checkpointer := ⟨cadence, positive, 0, 0⟩

def isBoundary (cadence : UInt32) (round : UInt64) : Bool := round % UInt64.ofNat cadence.toNat = 0

section Chain

variable (blake3 : List UInt8 → Bytes32)

def Checkpointer.maybeEmit (c : Checkpointer) (round : UInt64) (stateRoot : Bytes32) :
    Option Checkpoint × Checkpointer :=
  if !isBoundary c.cadence round then (none, c)
  else
    let ck : Checkpoint := ⟨c.nextHeight, round, stateRoot, c.lastHash⟩
    (some ck, { c with lastHash := ck.hash blake3, nextHeight := c.nextHeight + 1 })

/-- A run of calls, with what they emit, newest first. -/
def Checkpointer.emitAll (c : Checkpointer) : List (UInt64 × Bytes32) → List Checkpoint →
    List Checkpoint × Checkpointer
  | [], emitted => (emitted, c)
  | (round, stateRoot) :: calls, emitted =>
    let out := c.maybeEmit blake3 round stateRoot
    out.2.emitAll calls (out.1.toList ++ emitted)

/-- From a height and a hash the checkpoints lead back to the first one. -/
def WalksBack : List Checkpoint → UInt64 → Bytes32 → Prop
  | [], height, hash => height = 0 ∧ hash = 0
  | ck :: older, height, hash =>
    height = ck.height + 1 ∧ hash = ck.hash blake3 ∧ WalksBack older ck.height ck.prevCheckpoint

/-- **What is emitted**: the calls at the boundaries, in a chain that ends where the checkpointer is. -/
theorem emitAll_spec : ∀ (calls : List (UInt64 × Bytes32)) (c : Checkpointer) (emitted : List Checkpoint),
    WalksBack blake3 emitted c.nextHeight c.lastHash →
    let out := c.emitAll blake3 calls emitted
    WalksBack blake3 out.1 out.2.nextHeight out.2.lastHash ∧
      out.1.map (fun ck => (ck.round, ck.stateRoot)) =
        (calls.filter fun call => isBoundary c.cadence call.1).reverse ++
          emitted.map fun ck => (ck.round, ck.stateRoot) := by
  intro calls
  induction calls with
  | nil => exact fun c emitted hwalk => ⟨hwalk, rfl⟩
  | cons call calls ih =>
    intro c emitted hwalk
    rw [Checkpointer.emitAll, Checkpointer.maybeEmit]
    cases hb : isBoundary c.cadence call.1 with
    | false =>
      rw [List.filter_cons_of_neg (by simp [hb])]
      exact ih c emitted hwalk
    | true =>
      obtain ⟨hout, hmap⟩ := ih { c with
        lastHash := Checkpoint.hash blake3 ⟨c.nextHeight, call.1, call.2, c.lastHash⟩
        nextHeight := c.nextHeight + 1 } (_ :: emitted) ⟨rfl, rfl, hwalk⟩
      refine ⟨hout, hmap.trans ?_⟩
      rw [List.filter_cons_of_pos (by simp [hb]), List.reverse_cons, List.append_assoc]
      rfl

variable {blake3}

/-- A hash has one chain behind it, as long as no checkpoint hashes to the zeros before the first. -/
theorem WalksBack.unique {l : List Checkpoint} :
    ∀ {l' : List Checkpoint} {height height' : UInt64} {hash : Bytes32},
    WalksBack blake3 l height hash → WalksBack blake3 l' height' hash →
    (∀ x ∈ l ++ l', x.hash blake3 ≠ 0) →
    (∀ x ∈ l, ∀ y ∈ l', x.hash blake3 = y.hash blake3 → x = y) → l = l' := by
  induction l with
  | nil =>
    rintro (_ | ⟨ck', older'⟩) height height' hash ⟨-, rfl⟩ hwalk' hnonzero hapart
    · rfl
    · exact absurd hwalk'.2.1.symm (hnonzero ck' List.mem_cons_self)
  | cons ck older ih =>
    rintro (_ | ⟨ck', older'⟩) height height' hash ⟨-, rfl, hwalk⟩ hwalk' hnonzero hapart
    · exact absurd hwalk'.2 (hnonzero ck List.mem_cons_self)
    obtain ⟨-, hhash, hwalk'⟩ := hwalk'
    obtain rfl := hapart ck List.mem_cons_self ck' List.mem_cons_self hhash
    have hrest : ∀ x ∈ older ++ older', x.hash blake3 ≠ 0 := by
      intro x hx
      rcases List.mem_append.mp hx with hx | hx
      · exact hnonzero x (List.mem_append_left _ (List.mem_cons_of_mem _ hx))
      · exact hnonzero x (List.mem_append_right _ (List.mem_cons_of_mem _ hx))
    rw [ih hwalk hwalk' hrest fun x hx y hy =>
      hapart x (List.mem_cons_of_mem _ hx) y (List.mem_cons_of_mem _ hy)]

end Chain

/-- **The last hash commits to all checkpoints**: two checkpointers that end with the same hash have
    emitted the same checkpoints, so they were called with the same roots at the same boundary rounds,
    whatever their cadences are and whatever came between. -/
theorem checkpoints_commit (blake3 : List UInt8 → Bytes32) {cadence cadence' : UInt32}
    (hpos : 1 ≤ cadence) (hpos' : 1 ≤ cadence') (calls calls' : List (UInt64 × Bytes32)) :
    let out := (Checkpointer.new cadence hpos).emitAll blake3 calls []
    let out' := (Checkpointer.new cadence' hpos').emitAll blake3 calls' []
    (∀ x ∈ out.1 ++ out'.1, x.hash blake3 ≠ 0) →
    (∀ x ∈ out.1, ∀ y ∈ out'.1, x.hash blake3 = y.hash blake3 → x = y) →
    out.2.lastHash = out'.2.lastHash →
    out.1 = out'.1 ∧ (calls.filter fun call => isBoundary cadence call.1) =
      calls'.filter fun call => isBoundary cadence' call.1 := by
  intro out out' hnonzero hapart hhash
  obtain ⟨hwalk, hcalls⟩ := emitAll_spec blake3 calls (.new cadence hpos) [] ⟨rfl, rfl⟩
  obtain ⟨hwalk', hcalls'⟩ := emitAll_spec blake3 calls' (.new cadence' hpos') [] ⟨rfl, rfl⟩
  have hsame : out.1 = out'.1 := hwalk.unique (hhash ▸ hwalk') hnonzero hapart
  refine ⟨hsame, ?_⟩
  have hreverse := hcalls.symm.trans ((congrArg _ hsame).trans hcalls')
  rw [List.map_nil, List.append_nil, List.append_nil] at hreverse
  exact List.reverse_injective hreverse

/-- Every second round, and every fourth, of a run that skips the rounds 2 and 6. -/
theorem checkpoints_commit_cadences :
    let calls : List (UInt64 × Bytes32) := [(0, 5), (1, 6), (4, 7), (5, 8)]
    (calls.filter fun call => isBoundary 2 call.1) = calls.filter fun call => isBoundary 4 call.1 :=
  (checkpoints_commit Blake3.hash (by decide) (by decide) _ _ (by decide +kernel) (by decide +kernel)
    (by decide +kernel)).2

end SuwappuDag.Node
