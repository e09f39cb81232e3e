/-
  MAKING A CORRIDOR ATTESTATION (`attest` in `suwappu-ltp/src/attestation.rs`).

  1. **Program** — one loop over the witness signatures fills three accumulators: the signer set, the
     parsed signatures and the parsed keys.  A second signature of a witness is skipped; a bad one
     ends the call.  The aggregates of what was collected make the attestation.
  2. **The loop** — `collect_eq`: it checks the FIRST signature of each witness (`firsts`), in order;
     all three accumulators are read off the same list.
  3. **Completeness** — what `attest` returns, `verifyAttestation` accepts.  The two aggregate the same
     keys in different orders, the one of the list and the one of the signer set; that the order does
     not matter is what is assumed of BLS (`BlsSigner.Lawful`).
  4. **Order** — with one signature per witness the order of the list does not matter for the
     attestation.  It does for the error: the first bad signature of the list is named.
  5. **Quorums** — nine members bound the distinct authorities, also where one is listed twice, so two
     accepted attestations share five.
-/
import SuwappuDag.Ltp.Corridor

namespace SuwappuDag.Ltp

open Words Command
open Std (ExtTreeMap ExtTreeSet)

structure WitnessSignature where
  witness : AuthorityId
  signature : List UInt8
deriving DecidableEq

/-- BLS with the operations of the aggregating side. -/
structure BlsSigner extends Bls where
  aggregate : List Signature → Option Signature
  signatureToBytes : Signature → List UInt8

/-- `verify_aggregate` of the source is `verify` with the aggregate key. -/
def Bls.verify (bls : Bls) (message : Bytes32) (sig : bls.Signature) (pk : bls.PublicKey) : Bool :=
  bls.verifyAggregate message sig pk

/-- Aggregation is commutative and associative, and a written signature is read back. -/
structure BlsSigner.Lawful (bls : BlsSigner) : Prop where
  aggregate_perm : ∀ {sigs sigs' : List bls.Signature}, sigs.Perm sigs' →
    bls.aggregate sigs = bls.aggregate sigs'
  aggregatePubkeys_perm : ∀ {pks pks' : List bls.PublicKey}, pks.Perm pks' →
    bls.aggregatePubkeys pks = bls.aggregatePubkeys pks'
  signatureOfBytes_toBytes : ∀ sig, bls.signatureOfBytes (bls.signatureToBytes sig) = some sig

/-! ## The program -/

section Program

variable (bls : BlsSigner)

/-- The body of the loop for a witness not seen before. -/
def checkSignature (c : Corridor) (digest : Bytes32) (sig : WitnessSignature) :
    Except LtpError (bls.Signature × bls.PublicKey) := do
  let pk ← okOr (c.memberPubkey bls.toBls sig.witness) (.unknownWitness sig.witness)
  let blsSig ← okOr (bls.signatureOfBytes sig.signature) (.malformedSignature sig.witness)
  if bls.verify digest blsSig pk then return (blsSig, pk)
  else .error (.invalidSignature sig.witness)

structure Collected where
  signers : ExtTreeSet AuthorityId
  parsedSigs : List bls.Signature
  parsedPks : List bls.PublicKey

def collect (c : Corridor) (digest : Bytes32) :
    List WitnessSignature → Collected bls → Except LtpError (Collected bls)
  | [], acc => .ok acc
  | sig :: rest, acc =>
    -- duplicate witness: ignore extras
    if sig.witness ∈ acc.signers then collect c digest rest acc
    else do
      let checked ← checkSignature bls c digest sig
      collect c digest rest ⟨acc.signers.insert sig.witness, acc.parsedSigs ++ [checked.1],
        acc.parsedPks ++ [checked.2]⟩

/-- The part of `attest` after the loop: the quorum, the two aggregates and their check. -/
def sealAttestation (payload : AttestationPayload) (acc : Collected bls) :
    Except LtpError CorridorAttestation := do
  if acc.signers.size < ltpAttestationQuorumThreshold then
    .error (.belowQuorum acc.signers.size ltpAttestationQuorumThreshold)
  let aggSig ← okOr (bls.aggregate acc.parsedSigs) .aggregateVerificationFailed
  let aggPk ← okOr (bls.aggregatePubkeys acc.parsedPks) .aggregateVerificationFailed
  if bls.verifyAggregate (payload.canonicalDigest bls.toBls) aggSig aggPk then
    .ok ⟨payload, bls.signatureToBytes aggSig, acc.signers⟩
  else .error .aggregateVerificationFailed

def attest (c : Corridor) (payload : AttestationPayload) (signatures : List WitnessSignature) :
    Except LtpError CorridorAttestation := do
  if c.members.length ≠ ltpAttestationQuorumSize then
    .error (.badCorridorSize ltpAttestationQuorumSize c.members.length)
  let acc ← collect bls c (payload.canonicalDigest bls.toBls) signatures ⟨∅, [], []⟩
  sealAttestation bls payload acc

end Program

/-! ## The loop -/

section Loop

variable {bls : BlsSigner} {c : Corridor} {digest : Bytes32}

/-- The signatures the loop looks at: the first of each witness not in `seen`. -/
def firsts (seen : ExtTreeSet AuthorityId) : List WitnessSignature → List WitnessSignature
  | [] => []
  | sig :: rest =>
    if sig.witness ∈ seen then firsts seen rest
    else sig :: firsts (seen.insert sig.witness) rest

/-- **The loop**: three accumulators, one list. -/
theorem collect_eq (l : List WitnessSignature) : ∀ acc : Collected bls,
    collect bls c digest l acc =
      ((firsts acc.signers l).mapM (checkSignature bls c digest)).map fun checked =>
        ⟨acc.signers.insertMany ((firsts acc.signers l).map (·.witness)),
          acc.parsedSigs ++ checked.map Prod.fst, acc.parsedPks ++ checked.map Prod.snd⟩ := by
  induction l with
  | nil => intro acc; simp [collect, firsts, Except.map, pure, Except.pure]
  | cons sig rest ih =>
    intro acc
    by_cases hseen : sig.witness ∈ acc.signers
    · rw [collect, if_pos hseen, firsts, if_pos hseen]
      exact ih acc
    · rw [collect, if_neg hseen, firsts, if_neg hseen, List.mapM_cons]
      cases hcheck : checkSignature bls c digest sig with
      | error e => rfl
      | ok checked =>
        show collect bls c digest rest _ = Except.map _ ((firsts _ rest).mapM _ >>= _)
        rw [ih]
        cases (firsts (acc.signers.insert sig.witness) rest).mapM (checkSignature bls c digest) with
        | error e => rfl
        | ok results =>
          simp [Except.map, bind, Except.bind, pure, Except.pure, ExtTreeSet.insertMany_cons]

theorem firsts_sublist (l : List WitnessSignature) : ∀ seen, (firsts seen l).Sublist l := by
  induction l with
  | nil => exact fun seen => List.Sublist.refl _
  | cons sig rest ih =>
    intro seen
    rw [firsts]
    split
    · exact (ih seen).cons sig
    · exact (ih _).cons_cons sig

theorem witness_not_mem_of_mem_firsts {l : List WitnessSignature} : ∀ {seen : ExtTreeSet AuthorityId},
    ∀ sig ∈ firsts seen l, sig.witness ∉ seen := by
  induction l with
  | nil => intro seen sig h; cases h
  | cons s rest ih =>
    intro seen sig h
    rw [firsts] at h
    split at h
    · exact ih sig h
    · next hs =>
      rcases List.mem_cons.mp h with rfl | h
      · exact hs
      · exact fun hmem => ih sig h (ExtTreeSet.mem_insert.mpr (.inr hmem))

/-- No witness is looked at twice. -/
theorem nodup_firsts (l : List WitnessSignature) : ∀ seen,
    ((firsts seen l).map (·.witness)).Nodup := by
  induction l with
  | nil => exact fun seen => List.nodup_nil
  | cons sig rest ih =>
    intro seen
    rw [firsts]
    split
    · exact ih seen
    · rw [List.map_cons, List.nodup_cons]
      refine ⟨fun hmem => ?_, ih _⟩
      obtain ⟨other, hother, heq⟩ := List.mem_map.mp hmem
      exact witness_not_mem_of_mem_firsts other hother (heq ▸ ExtTreeSet.mem_insert_self)

/-- With one signature per witness the loop looks at all of them. -/
theorem firsts_eq_self {l : List WitnessSignature} : ∀ {seen : ExtTreeSet AuthorityId},
    (l.map (·.witness)).Nodup → (∀ sig ∈ l, sig.witness ∉ seen) → firsts seen l = l := by
  induction l with
  | nil => intro seen _ _; rfl
  | cons sig rest ih =>
    intro seen hnodup hfresh
    obtain ⟨hnot, hrest⟩ := List.nodup_cons.mp hnodup
    rw [firsts, if_neg (hfresh sig List.mem_cons_self), ih hrest]
    intro other hother hmem
    rcases ExtTreeSet.mem_insert.mp hmem with heq | hmem
    · exact hnot (List.mem_map.mpr ⟨other, hother, (Std.compare_eq_iff_eq.mp heq).symm⟩)
    · exact hfresh other (List.mem_cons_of_mem _ hother) hmem

end Loop

/-! ## What a successful call did -/

section Attest

variable {bls : BlsSigner} {c : Corridor} {payload : AttestationPayload}

/-- What the loop has collected when the first signatures of the list check out. -/
def collected (l : List WitnessSignature) (checked : List (bls.Signature × bls.PublicKey)) :
    Collected bls :=
  ⟨ExtTreeSet.ofList ((firsts ∅ l).map (·.witness)), checked.map Prod.fst, checked.map Prod.snd⟩

theorem attest_eq (l : List WitnessSignature) (hsize : c.members.length = ltpAttestationQuorumSize) :
    attest bls c payload l =
      (firsts ∅ l).mapM (checkSignature bls c (payload.canonicalDigest bls.toBls)) >>= fun checked =>
        sealAttestation bls payload (collected l checked) := by
  rw [attest, if_neg (not_not.mpr hsize)]
  show collect bls c _ l ⟨∅, [], []⟩ >>= _ = _
  rw [collect_eq]
  cases (firsts ∅ l).mapM (checkSignature bls c (payload.canonicalDigest bls.toBls)) with
  | error e => rfl
  | ok checked =>
    show sealAttestation bls payload _ = sealAttestation bls payload _
    rw [collected, ExtTreeSet.ofList_eq_insertMany_empty]
    rfl

theorem attest_of_badSize (l : List WitnessSignature)
    (hsize : c.members.length ≠ ltpAttestationQuorumSize) :
    attest bls c payload l = .error (.badCorridorSize ltpAttestationQuorumSize c.members.length) := by
  rw [attest, if_pos hsize]
  rfl

theorem checkSignature_ok_iff {digest : Bytes32} {sig : WitnessSignature}
    {checked : bls.Signature × bls.PublicKey} :
    checkSignature bls c digest sig = .ok checked ↔
      c.memberPubkey bls.toBls sig.witness = some checked.2 ∧
      bls.signatureOfBytes sig.signature = some checked.1 ∧
      bls.verify digest checked.1 checked.2 = true := by
  simp only [checkSignature, except_bind_eq_ok_iff, okOr_eq_ok_iff]
  constructor
  · rintro ⟨pk, hpk, blsSig, hsig, hverify⟩
    split at hverify
    · next h => cases hverify; exact ⟨hpk, hsig, h⟩
    · cases hverify
  · rintro ⟨hpk, hsig, hverify⟩
    exact ⟨_, hpk, _, hsig, if_pos hverify⟩

theorem sealAttestation_ok_iff {acc : Collected bls} {a : CorridorAttestation} :
    sealAttestation bls payload acc = .ok a ↔
      ltpAttestationQuorumThreshold ≤ acc.signers.size ∧
      ∃ aggSig aggPk, bls.aggregate acc.parsedSigs = some aggSig ∧
        bls.aggregatePubkeys acc.parsedPks = some aggPk ∧
        bls.verifyAggregate (payload.canonicalDigest bls.toBls) aggSig aggPk = true ∧
        a = ⟨payload, bls.signatureToBytes aggSig, acc.signers⟩ := by
  rw [sealAttestation]
  by_cases hquorum : acc.signers.size < ltpAttestationQuorumThreshold
  · rw [if_pos hquorum]
    exact ⟨fun h => (by cases h), fun h => absurd hquorum (not_lt.mpr h.1)⟩
  · rw [if_neg hquorum]
    simp only [except_bind_eq_ok_iff, okOr_eq_ok_iff, not_lt.mp hquorum, true_and]
    refine exists_congr fun aggSig => ?_
    constructor
    · rintro ⟨hsig, aggPk, hpk, hverify⟩
      split at hverify
      · next h => cases hverify; exact ⟨aggPk, hsig, hpk, h, rfl⟩
      · cases hverify
    · rintro ⟨aggPk, hsig, hpk, h, rfl⟩
      exact ⟨hsig, aggPk, hpk, if_pos h⟩

theorem signerKeys_eq_mapM (signers : List AuthorityId) :
    signerKeys bls.toBls c signers =
      signers.mapM fun signer => okOr (c.memberPubkey bls.toBls signer) (.unknownWitness signer) := by
  induction signers with
  | nil => rfl
  | cons signer signers ih =>
    rw [signerKeys, List.mapM_cons, ih]

theorem verifyAttestation_ok_iff {a : CorridorAttestation} :
    verifyAttestation bls.toBls c a = .ok () ↔
      c.members.length = ltpAttestationQuorumSize ∧ ltpAttestationQuorumThreshold ≤ a.signers.size ∧
      ∃ pks aggPk aggSig, signerKeys bls.toBls c a.signers.toList = .ok pks ∧
        bls.aggregatePubkeys pks = some aggPk ∧
        bls.signatureOfBytes a.aggregateSignature = some aggSig ∧
        bls.verifyAggregate (a.payload.canonicalDigest bls.toBls) aggSig aggPk = true := by
  rw [verifyAttestation]
  by_cases hsize : c.members.length = ltpAttestationQuorumSize
  · rw [if_neg (not_not.mpr hsize)]
    by_cases hquorum : a.signers.size < ltpAttestationQuorumThreshold
    · rw [if_pos hquorum]
      exact ⟨fun h => (by cases h), fun h => absurd hquorum (not_lt.mpr h.2.1)⟩
    · rw [if_neg hquorum]
      simp only [except_bind_eq_ok_iff, okOr_eq_ok_iff, hsize, not_lt.mp hquorum, true_and]
      refine exists_congr fun pks => ?_
      constructor
      · rintro ⟨hpks, aggPk, hpk, aggSig, hsig, hverify⟩
        split at hverify
        · next h => exact ⟨aggPk, aggSig, hpks, hpk, hsig, h⟩
        · cases hverify
      · rintro ⟨aggPk, aggSig, hpks, hpk, hsig, h⟩
        exact ⟨hpks, aggPk, hpk, aggSig, hsig, if_pos h⟩
  · rw [if_pos hsize]
    exact ⟨fun h => (by cases h), fun h => absurd h.1 hsize⟩

end Attest

/-! ## Signers -/

section Signers

variable {bls : BlsSigner} {c : Corridor} {payload : AttestationPayload}

theorem toList_ofList_perm {l : List AuthorityId} (hnodup : l.Nodup) :
    (ExtTreeSet.ofList l).toList.Perm l := by
  have hset : (ExtTreeSet.ofList l : ExtTreeSet AuthorityId).toList.Nodup :=
    ExtTreeSet.distinct_toList.imp fun h heq => h (Std.compare_eq_iff_eq.mpr heq)
  refine (List.perm_ext_iff_of_nodup hset hnodup).mpr fun a => ?_
  rw [ExtTreeSet.mem_toList, ExtTreeSet.mem_ofList, List.contains_iff_mem]

theorem mem_members_of_memberPubkey {w : AuthorityId} {pk : bls.PublicKey}
    (h : c.memberPubkey bls.toBls w = some pk) : ∃ m ∈ c.members, m.authority = w := by
  obtain ⟨m, hm, -⟩ := Option.bind_eq_some_iff.mp h
  exact ⟨m, List.mem_of_find?_eq_some hm, by simpa using List.find?_some hm⟩

/-- Sets of members have at most as many elements as the corridor has seats. -/
theorem size_le_members {S : ExtTreeSet AuthorityId}
    (h : ∀ w ∈ S, ∃ m ∈ c.members, m.authority = w) : S.size ≤ c.members.length := by
  have hnodup : S.toList.Nodup :=
    ExtTreeSet.distinct_toList.imp fun h heq => h (Std.compare_eq_iff_eq.mpr heq)
  have hsub : S.toList ⊆ c.members.map (·.authority) := by
    intro w hw
    obtain ⟨m, hm, rfl⟩ := h w (ExtTreeSet.mem_toList.mp hw)
    exact List.mem_map_of_mem hm
  have hle := (hnodup.subperm hsub).length_le
  rwa [ExtTreeSet.length_toList, List.length_map] at hle

/-- The signers of an accepted attestation are members. -/
theorem mem_members_of_verify {a : CorridorAttestation}
    (h : verifyAttestation bls.toBls c a = .ok ()) :
    ∀ w ∈ a.signers, ∃ m ∈ c.members, m.authority = w := by
  obtain ⟨-, -, pks, -, -, hkeys, -⟩ := verifyAttestation_ok_iff.mp h
  rw [signerKeys_eq_mapM] at hkeys
  intro w hw
  obtain ⟨pk, hpk⟩ := ok_of_mapM_ok hkeys w (ExtTreeSet.mem_toList.mpr hw)
  exact mem_members_of_memberPubkey (okOr_eq_ok_iff.mp hpk)

/-- **Seven of nine and seven of nine share five.** -/
theorem five_le_common_signers {a b : CorridorAttestation}
    (ha : verifyAttestation bls.toBls c a = .ok ()) (hb : verifyAttestation bls.toBls c b = .ok ()) :
    5 ≤ (a.signers ∩ b.signers).size := by
  obtain ⟨hsize, hqa, -⟩ := verifyAttestation_ok_iff.mp ha
  obtain ⟨-, hqb, -⟩ := verifyAttestation_ok_iff.mp hb
  have hunion : (a.signers ∪ b.signers).size ≤ c.members.length := by
    refine size_le_members fun w hw => ?_
    rcases ExtTreeSet.mem_union_iff.mp hw with hw | hw
    · exact mem_members_of_verify ha w hw
    · exact mem_members_of_verify hb w hw
  have hsplit : a.signers.size + b.signers.size =
      (a.signers ∪ b.signers).size + (a.signers ∩ b.signers).size :=
    ExtTreeSet.size_add_size_eq_size_union_add_size_inter
  simp only [ltpAttestationQuorumSize, ltpAttestationQuorumThreshold] at hsize hqa hqb
  omega

/-- The loop's keys are the keys of the signer set, in the order of the list. -/
theorem signerKeys_of_checked {digest : Bytes32} {l : List WitnessSignature}
    {checked : List (bls.Signature × bls.PublicKey)}
    (h : (firsts ∅ l).mapM (checkSignature bls c digest) = .ok checked) :
    ∃ pks, signerKeys bls.toBls c (collected l checked).signers.toList = .ok pks ∧
      (checked.map Prod.snd).Perm pks := by
  have hkeys : ((firsts ∅ l).map (·.witness)).mapM (fun signer =>
      okOr (c.memberPubkey bls.toBls signer) (LtpError.unknownWitness signer)) =
        .ok (checked.map Prod.snd) := by
    rw [mapM_ok_iff, List.forall₂_map_left_iff, List.forall₂_map_right_iff]
    refine (mapM_ok_iff.mp h).imp fun sig result hcheck => ?_
    exact okOr_eq_ok_iff.mpr (checkSignature_ok_iff.mp hcheck).1
  rw [signerKeys_eq_mapM]
  exact mapM_perm (toList_ofList_perm (nodup_firsts l ∅)).symm hkeys

/-- **What is attested verifies.** -/
theorem verifyAttestation_attest (hbls : bls.Lawful) {l : List WitnessSignature}
    {a : CorridorAttestation} (h : attest bls c payload l = .ok a) :
    verifyAttestation bls.toBls c a = .ok () := by
  by_cases hsize : c.members.length = ltpAttestationQuorumSize
  · rw [attest_eq l hsize, except_bind_eq_ok_iff] at h
    obtain ⟨checked, hchecked, hseal⟩ := h
    obtain ⟨hquorum, aggSig, aggPk, -, hpk, hverify, rfl⟩ := sealAttestation_ok_iff.mp hseal
    obtain ⟨pks, hpks, hperm⟩ := signerKeys_of_checked hchecked
    refine verifyAttestation_ok_iff.mpr ⟨hsize, hquorum, pks, aggPk, aggSig, hpks, ?_, ?_, hverify⟩
    · rw [← hbls.aggregatePubkeys_perm hperm]
      exact hpk
    · exact hbls.signatureOfBytes_toBytes aggSig
  · rw [attest_of_badSize l hsize] at h
    cases h

/-- Each signer has a valid signature on the payload in the list. -/
theorem signed_of_attest {l : List WitnessSignature} {a : CorridorAttestation}
    (h : attest bls c payload l = .ok a) : ∀ w ∈ a.signers, ∃ sig ∈ l, sig.witness = w ∧
      ∃ checked, checkSignature bls c (payload.canonicalDigest bls.toBls) sig = .ok checked := by
  by_cases hsize : c.members.length = ltpAttestationQuorumSize
  · rw [attest_eq l hsize, except_bind_eq_ok_iff] at h
    obtain ⟨checked, hchecked, hseal⟩ := h
    obtain ⟨-, aggSig, aggPk, -, -, -, rfl⟩ := sealAttestation_ok_iff.mp hseal
    intro w hw
    have hmem : w ∈ (firsts ∅ l).map (·.witness) :=
      List.contains_iff_mem.mp (ExtTreeSet.mem_ofList.mp hw)
    obtain ⟨sig, hsig, rfl⟩ := List.mem_map.mp hmem
    exact ⟨sig, (firsts_sublist l ∅).subset hsig, rfl, ok_of_mapM_ok hchecked sig hsig⟩
  · rw [attest_of_badSize l hsize] at h
    cases h

end Signers

/-! ## The order of the signatures -/

section Order

variable {bls : BlsSigner} {c : Corridor} {payload : AttestationPayload}

theorem sealAttestation_congr (hbls : bls.Lawful) {acc acc' : Collected bls}
    (hsigners : acc.signers = acc'.signers) (hsigs : acc.parsedSigs.Perm acc'.parsedSigs)
    (hpks : acc.parsedPks.Perm acc'.parsedPks) :
    sealAttestation bls payload acc = sealAttestation bls payload acc' := by
  rw [sealAttestation, sealAttestation, hsigners, hbls.aggregate_perm hsigs,
    hbls.aggregatePubkeys_perm hpks]

theorem ofList_eq_of_perm {l l' : List AuthorityId} (h : l.Perm l') :
    (ExtTreeSet.ofList l : ExtTreeSet AuthorityId) = ExtTreeSet.ofList l' := by
  refine ExtTreeSet.ext_mem fun w => ?_
  rw [ExtTreeSet.mem_ofList, ExtTreeSet.mem_ofList, List.contains_iff_mem, List.contains_iff_mem,
    h.mem_iff]

/-- **With one signature per witness the order does not matter**, except for which of several bad
    signatures is named. -/
theorem attest_perm (hbls : bls.Lawful) {l l' : List WitnessSignature} (hperm : l.Perm l')
    (hone : (l.map (·.witness)).Nodup) :
    attest bls c payload l = attest bls c payload l' ∨
      ∃ sig ∈ l, ∃ sig' ∈ l, ∃ e e',
        checkSignature bls c (payload.canonicalDigest bls.toBls) sig = .error e ∧
        checkSignature bls c (payload.canonicalDigest bls.toBls) sig' = .error e' ∧
        attest bls c payload l = .error e ∧ attest bls c payload l' = .error e' := by
  by_cases hsize : c.members.length = ltpAttestationQuorumSize
  swap
  · left
    rw [attest_of_badSize l hsize, attest_of_badSize l' hsize]
  have hone' : (l'.map (·.witness)).Nodup := (hperm.map _).nodup_iff.mp hone
  have hl : firsts ∅ l = l := firsts_eq_self hone fun sig _ => ExtTreeSet.not_mem_empty
  have hl' : firsts ∅ l' = l' := firsts_eq_self hone' fun sig _ => ExtTreeSet.not_mem_empty
  rw [attest_eq l hsize, attest_eq l' hsize, hl, hl']
  cases hchecked : l.mapM (checkSignature bls c (payload.canonicalDigest bls.toBls)) with
  | ok checked =>
    -- all signatures check out, in both orders
    obtain ⟨checked', hchecked', hresults⟩ := mapM_perm hperm hchecked
    rw [hchecked']
    left
    refine sealAttestation_congr hbls ?_ (hresults.map _) (hresults.map _)
    simp only [collected, hl, hl']
    exact ofList_eq_of_perm (hperm.map _)
  | error e =>
    obtain ⟨sig, hsig, herror⟩ := mapM_error hchecked
    cases hchecked' : l'.mapM (checkSignature bls c (payload.canonicalDigest bls.toBls)) with
    | ok checked' =>
      obtain ⟨checked, hok⟩ := ok_of_mapM_ok hchecked' sig (hperm.mem_iff.mp hsig)
      rw [herror] at hok
      cases hok
    | error e' =>
      obtain ⟨sig', hsig', herror'⟩ := mapM_error hchecked'
      exact .inr ⟨sig, hsig, sig', hperm.mem_iff.mpr hsig', e, e', herror, herror', rfl, rfl⟩

end Order

/-- **Attestations are complete and their quorums intersect.** -/
theorem attest_complete {bls : BlsSigner} (hbls : bls.Lawful) (c : Corridor) :
    (∀ payload l a, attest bls c payload l = .ok a →
      verifyAttestation bls.toBls c a = .ok () ∧ a.payload = payload ∧
      7 ≤ a.signers.size ∧ a.signers.size ≤ 9 ∧
      ∀ w ∈ a.signers, (∃ m ∈ c.members, m.authority = w) ∧
        ∃ sig ∈ l, sig.witness = w ∧ ∃ pk blsSig, c.memberPubkey bls.toBls w = some pk ∧
          bls.signatureOfBytes sig.signature = some blsSig ∧
          bls.verify (payload.canonicalDigest bls.toBls) blsSig pk = true) ∧
    (∀ payload l l', l.Perm l' → (l.map (·.witness)).Nodup →
      attest bls c payload l = attest bls c payload l' ∨
        ∃ sig ∈ l, ∃ sig' ∈ l, ∃ e e',
          checkSignature bls c (payload.canonicalDigest bls.toBls) sig = .error e ∧
          checkSignature bls c (payload.canonicalDigest bls.toBls) sig' = .error e' ∧
          attest bls c payload l = .error e ∧ attest bls c payload l' = .error e') ∧
    ∀ a b, verifyAttestation bls.toBls c a = .ok () → verifyAttestation bls.toBls c b = .ok () →
      5 ≤ (a.signers ∩ b.signers).size := by
  refine ⟨fun payload l a h => ?_, fun payload l l' => attest_perm hbls, fun a b =>
    five_le_common_signers⟩
  have hverify := verifyAttestation_attest hbls h
  have hmembers := mem_members_of_verify hverify
  obtain ⟨hsize, hquorum, -⟩ := verifyAttestation_ok_iff.mp hverify
  refine ⟨hverify, ?_, hquorum, (size_le_members hmembers).trans_eq hsize, fun w hw => ?_⟩
  · rw [attest_eq l hsize, except_bind_eq_ok_iff] at h
    obtain ⟨checked, -, hseal⟩ := h
    obtain ⟨-, aggSig, aggPk, -, -, -, rfl⟩ := sealAttestation_ok_iff.mp hseal
    rfl
  · obtain ⟨sig, hsig, rfl, checked, hcheck⟩ := signed_of_attest h w hw
    obtain ⟨hpk, hparse, hvalid⟩ := checkSignature_ok_iff.mp hcheck
    exact ⟨hmembers _ hw, sig, hsig, rfl, checked.2, checked.1, hpk, hparse, hvalid⟩

theorem sumResidues_perm {xs ys : List Bytes32} (h : xs.Perm ys) : sumResidues xs = sumResidues ys := by
  have hnil : xs = [] ↔ ys = [] := ⟨fun hx => (hx ▸ h).nil_eq.symm, fun hy => (hy ▸ h).eq_nil⟩
  simp only [sumResidues, hnil, h.sum_eq]

theorem readResidue_beBytes (x : Bytes32) : readResidue (beBytes 32 x.toNat) = some x := by
  rw [readResidue, if_pos (length_beBytes 32 x.toNat), ofBeBytes_beBytes,
    Nat.mod_eq_of_lt (by have := x.isLt; omega), BitVec.ofNat_toNat, BitVec.setWidth_eq]

/-- The linear scheme with its aggregation. -/
def linearSigner : BlsSigner where
  toBls := linearScheme
  aggregate := sumResidues
  signatureToBytes (sig : Bytes32) := beBytes 32 sig.toNat

theorem linearSigner_lawful : linearSigner.Lawful where
  aggregate_perm h := sumResidues_perm h
  aggregatePubkeys_perm h := sumResidues_perm h
  signatureOfBytes_toBytes sig := by
    have hwrite : linearSigner.signatureToBytes sig = beBytes 32 (sig : Bytes32).toNat := rfl
    have hread : linearSigner.signatureOfBytes = readResidue := rfl
    rw [hwrite, hread]
    exact readResidue_beBytes sig

/-- The signature of a witness with the key `a1`. -/
def linearSign (payload : AttestationPayload) (witness : AuthorityId) : WitnessSignature :=
  ⟨witness, beBytes 32 (0xa1#256 * payload.canonicalDigest linearScheme).toNat⟩

/-- Eight signatures of seven witnesses. -/
def eightSignatures : List WitnessSignature :=
  [6, 5, 4, 6, 3, 2, 1, 0].map (linearSign (attestedHeight 9).payload)

theorem attest_complete_linear :
    attest linearSigner nineMembers (attestedHeight 9).payload eightSignatures = .ok (attestedHeight 9) ∧
    verifyAttestation linearScheme nineMembers (attestedHeight 9) = .ok () ∧
    5 ≤ ((attestedHeight 9).signers ∩ (attestedHeight 9).signers).size := by
  have hattest : attest linearSigner nineMembers (attestedHeight 9).payload eightSignatures =
      .ok (attestedHeight 9) := by decide +kernel
  have h := attest_complete linearSigner_lawful nineMembers
  have hverify := (h.1 _ _ _ hattest).1
  exact ⟨hattest, hverify, h.2.2 _ _ hverify hverify⟩

/-- Two strangers: whichever signature comes first is the one the error names. -/
theorem attest_error_depends_on_order :
    let l : List WitnessSignature := [⟨20, []⟩, ⟨21, []⟩]
    let l' : List WitnessSignature := [⟨21, []⟩, ⟨20, []⟩]
    l.Perm l' ∧ (l.map (·.witness)).Nodup ∧
    attest linearSigner nineMembers strayPayload l = .error (.unknownWitness 20) ∧
    attest linearSigner nineMembers strayPayload l' = .error (.unknownWitness 21) := by
  decide +kernel

end SuwappuDag.Ltp
