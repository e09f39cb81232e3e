/-
  LTP CORRIDORS (`suwappu-ltp/src/attestation.rs`, `handle_ltp_attestation` in
  `suwappu-node/src/daemon.rs`) — the latest attested state of a source chain, corridor by corridor.

  1. **Program** — the manifest's corridors are loaded by chain pair; an inbound attestation of a
     registered pair is verified (nine members, seven signers, one aggregate signature) and recorded
     under the corridor's id.  An attestation of an UNREGISTERED pair is recorded too, unverified,
     under an id folded from the pair.
  2. **Specification** — `VerifiedLatest`: what is recorded under the id of a registered corridor is a
     payload of its chain pair that was verified under it.
  3. **Crux** — verified and unverified entries share one map.  `latest_verified_iff` says for every
     manifest and every sequence of attestations when the specification holds throughout: exactly when
     no attestation is recorded under the id of a corridor of another pair.
  4. **Heights** — a recorded payload replaces the one before it whatever their heights, so what is
     latest is what came last (`latestHeight_run`).  The height of a corridor never goes back exactly
     when its attestations arrive in the order of their heights (`latest_height_monotone_iff`).
-/
import SuwappuDag.Lib.Command
import SuwappuDag.Lib.Words

namespace SuwappuDag.Ltp

open Words Command
open Std (ExtTreeMap ExtTreeSet)

abbrev CorridorId := UInt32

abbrev ChainId := UInt64

abbrev AuthorityId := UInt32

def ltpAttestationQuorumSize : Nat := 9

def ltpAttestationQuorumThreshold : Nat := 7

/-- BLS12-381 in the min-pubkey-size variant, and the hash of the canonical path. -/
structure Bls where
  PublicKey : Type
  Signature : Type
  publicKeyOfBytes : List UInt8 → Option PublicKey
  signatureOfBytes : List UInt8 → Option Signature
  aggregatePubkeys : List PublicKey → Option PublicKey
  verifyAggregate : Bytes32 → Signature → PublicKey → Bool
  sha3Domain : List UInt8 → List UInt8 → Bytes32

structure SuperNode where
  authority : AuthorityId
  corridor : CorridorId
  blsPublicKey : List UInt8
deriving DecidableEq

structure Corridor where
  id : CorridorId
  members : List SuperNode
deriving DecidableEq

structure AttestationPayload where
  sourceChain : ChainId
  targetChain : ChainId
  sourceHeight : UInt64
  stateRoot : Bytes32
  timestampRound : UInt64
deriving DecidableEq

structure CorridorAttestation where
  payload : AttestationPayload
  aggregateSignature : List UInt8
  signers : ExtTreeSet AuthorityId
deriving DecidableEq

inductive LtpError where
  | badCorridorSize (expected got : Nat)
  | belowQuorum (got need : Nat)
  | unknownWitness (witness : AuthorityId)
  | invalidSignature (witness : AuthorityId)
  | aggregateVerificationFailed
  | malformedSignature (witness : AuthorityId)
  | malformedKey (witness : AuthorityId)
deriving DecidableEq

/-! ## Verification -/

section Verify

variable (bls : Bls)

def AttestationPayload.canonicalDigest (p : AttestationPayload) : Bytes32 :=
  bls.sha3Domain (asciiBytes "SUWAPPU-LTP-ATTEST-V1")
    (beBytes 8 p.sourceChain.toNat ++ beBytes 8 p.targetChain.toNat ++ beBytes 8 p.sourceHeight.toNat
      ++ beBytes 32 p.stateRoot.toNat ++ beBytes 8 p.timestampRound.toNat)

def Corridor.memberPubkey (c : Corridor) (authority : AuthorityId) : Option bls.PublicKey :=
  (c.members.find? fun m => m.authority = authority).bind fun m => bls.publicKeyOfBytes m.blsPublicKey

/-- The keys of the signers, or the first signer without one. -/
def signerKeys (c : Corridor) : List AuthorityId → Except LtpError (List bls.PublicKey)
  | [] => .ok []
  | signer :: signers => do
    let pk ← okOr (c.memberPubkey bls signer) (.unknownWitness signer)
    let pks ← signerKeys c signers
    return pk :: pks

def verifyAttestation (c : Corridor) (att : CorridorAttestation) : Except LtpError Unit := do
  if c.members.length ≠ ltpAttestationQuorumSize then
    .error (.badCorridorSize ltpAttestationQuorumSize c.members.length)
  if att.signers.size < ltpAttestationQuorumThreshold then
    .error (.belowQuorum att.signers.size ltpAttestationQuorumThreshold)
  let pks ← signerKeys bls c att.signers.toList
  let aggPk ← okOr (bls.aggregatePubkeys pks) .aggregateVerificationFailed
  let aggSig ← okOr (bls.signatureOfBytes att.aggregateSignature) .aggregateVerificationFailed
  if bls.verifyAggregate (att.payload.canonicalDigest bls) aggSig aggPk then .ok ()
  else .error .aggregateVerificationFailed

end Verify

/-! ## The corridors of a manifest -/

structure SuperNodeConfig where
  authority : AuthorityId
  blsPublicKeyHex : String

structure CorridorConfig where
  id : CorridorId
  sourceChain : ChainId
  targetChain : ChainId
  members : List SuperNodeConfig

def hexDigit (c : Char) : Option Nat :=
  if '0' ≤ c ∧ c ≤ '9' then some (c.toNat - '0'.toNat)
  else if 'a' ≤ c ∧ c ≤ 'f' then some (c.toNat - 'a'.toNat + 10)
  else if 'A' ≤ c ∧ c ≤ 'F' then some (c.toNat - 'A'.toNat + 10)
  else none

/-- `hex::decode`: digits of either case, in pairs. -/
def hexDecode : List Char → Option (List UInt8)
  | [] => some []
  | [_] => none
  | high :: low :: rest => do
    let h ← hexDigit high
    let l ← hexDigit low
    let bytes ← hexDecode rest
    return UInt8.ofNat (16 * h + l) :: bytes

/-- A corridor with a key that does not decode is dropped. -/
def loadCorridor (c : CorridorConfig) : Option Corridor := do
  let members ← c.members.mapM fun m => do
    let key ← hexDecode m.blsPublicKeyHex.toList
    return (⟨m.authority, c.id, key⟩ : SuperNode)
  return ⟨c.id, members⟩

/-- Source chain and target chain. -/
abbrev ChainPair := ChainId ×ₗ ChainId

/-- By chain pair; a later entry of the manifest replaces an earlier one. -/
def loadCorridors (manifest : List CorridorConfig) : ExtTreeMap ChainPair Corridor :=
  manifest.foldl (fun out c =>
    match loadCorridor c with
    | some corridor => out.insert (toLex (c.sourceChain, c.targetChain)) corridor
    | none => out) ∅

/-! ## The daemon's part -/

def AttestationPayload.pair (p : AttestationPayload) : ChainPair := toLex (p.sourceChain, p.targetChain)

/-- The two halves of the folded pair, folded. -/
def corridorIdFallback (p : AttestationPayload) : CorridorId :=
  let s := p.sourceChain ^^^ p.targetChain
  (s >>> 32).toUInt32 ^^^ s.toUInt32

structure LtpState where
  corridors : ExtTreeMap ChainPair Corridor
  ltpLatest : ExtTreeMap CorridorId AttestationPayload
  ltpReceivedCount : UInt64

/-- What the log says about an attestation. -/
inductive LtpVerdict where
  | verified
  | invalid
  | unverified
deriving DecidableEq

namespace LtpState

def start (manifest : List CorridorConfig) : LtpState := ⟨loadCorridors manifest, ∅, 0⟩

def record (s : LtpState) (id : CorridorId) (payload : AttestationPayload) : LtpState :=
  { s with ltpLatest := s.ltpLatest.insert id payload }

def counted (s : LtpState) : LtpState := { s with ltpReceivedCount := s.ltpReceivedCount + 1 }

end LtpState

open LtpState

def handleLtpAttestation (bls : Bls) (s : LtpState) (att : CorridorAttestation) :
    LtpVerdict × LtpState :=
  match s.corridors[att.payload.pair]? with
  | some corridor =>
    match verifyAttestation bls corridor att with
    | .ok () => (.verified, s.counted.record corridor.id att.payload)
    | .error _ => (.invalid, s.counted)
  | none => (.unverified, s.counted.record (corridorIdFallback att.payload) att.payload)

def ltpStep (bls : Bls) (s : LtpState) (att : CorridorAttestation) : LtpState :=
  (handleLtpAttestation bls s att).2

/-! ## Verified entries -/

/-- What is recorded for a registered corridor is a payload of its pair, verified under it. -/
def VerifiedLatest (bls : Bls) (past : List CorridorAttestation) (s : LtpState) : Prop :=
  ∀ (pair : ChainPair) (corridor : Corridor), s.corridors[pair]? = some corridor →
    ∀ payload, s.ltpLatest[corridor.id]? = some payload → payload.pair = pair ∧
      ∃ att ∈ past, att.payload = payload ∧ verifyAttestation bls corridor att = .ok ()

/-- The attestation is recorded under nobody else's id: a verified one of a registered pair has the
    only corridor of that id, and the fold of an unregistered pair is no corridor's id. -/
def RecordsApart (bls : Bls) (corridors : ExtTreeMap ChainPair Corridor) (att : CorridorAttestation) :
    Prop :=
  match corridors[att.payload.pair]? with
  | some corridor => verifyAttestation bls corridor att = .ok () →
    ∀ (pair : ChainPair) (other : Corridor), corridors[pair]? = some other →
      other.id = corridor.id → pair = att.payload.pair
  | none => ∀ (pair : ChainPair) (other : Corridor), corridors[pair]? = some other →
    other.id ≠ corridorIdFallback att.payload

section Runs

variable {bls : Bls} {s : LtpState} {att : CorridorAttestation}

@[simp] theorem corridors_ltpStep : (ltpStep bls s att).corridors = s.corridors := by
  unfold ltpStep handleLtpAttestation
  split
  · split <;> rfl
  · rfl

theorem corridors_run (atts : List CorridorAttestation) (s : LtpState) :
    (atts.foldl (ltpStep bls) s).corridors = s.corridors := by
  induction atts generalizing s with
  | nil => rfl
  | cons att atts ih => rw [List.foldl_cons, ih, corridors_ltpStep]

/-- The three ways an attestation is handled. -/
theorem ltpStep_cases (bls : Bls) (s : LtpState) (att : CorridorAttestation) :
    (∃ corridor, s.corridors[att.payload.pair]? = some corridor ∧
      verifyAttestation bls corridor att = .ok () ∧
      (ltpStep bls s att).ltpLatest = s.ltpLatest.insert corridor.id att.payload) ∨
    (∃ corridor e, s.corridors[att.payload.pair]? = some corridor ∧
      verifyAttestation bls corridor att = .error e ∧ (ltpStep bls s att).ltpLatest = s.ltpLatest) ∨
    (s.corridors[att.payload.pair]? = none ∧
      (ltpStep bls s att).ltpLatest =
        s.ltpLatest.insert (corridorIdFallback att.payload) att.payload) := by
  unfold ltpStep handleLtpAttestation
  cases hpair : s.corridors[att.payload.pair]? with
  | none => exact .inr (.inr ⟨rfl, rfl⟩)
  | some corridor =>
    cases hverify : verifyAttestation bls corridor att with
    | ok u => exact .inl ⟨corridor, rfl, hverify, by simp only [hverify]; rfl⟩
    | error e => exact .inr (.inl ⟨corridor, e, rfl, hverify, by simp only [hverify]; rfl⟩)

/-- A payload that is recorded under an id nobody else has leaves the others verified. -/
theorem VerifiedLatest.record {past : List CorridorAttestation} {id : CorridorId}
    (h : VerifiedLatest bls past s)
    (hstep : (ltpStep bls s att).ltpLatest = s.ltpLatest.insert id att.payload)
    (hown : ∀ (pair : ChainPair) (corridor : Corridor), s.corridors[pair]? = some corridor →
      corridor.id = id → att.payload.pair = pair ∧ verifyAttestation bls corridor att = .ok ()) :
    VerifiedLatest bls (past ++ [att]) (ltpStep bls s att) := by
  intro pair corridor hcorridor payload hpayload
  rw [corridors_ltpStep] at hcorridor
  rw [hstep, ExtTreeMap.getElem?_insert] at hpayload
  split at hpayload
  · next heq =>
    cases hpayload
    obtain ⟨hpair, hverify⟩ := hown pair corridor hcorridor (Std.compare_eq_iff_eq.mp heq).symm
    exact ⟨hpair, att, List.mem_append_right _ List.mem_cons_self, rfl, hverify⟩
  · obtain ⟨hpair, b, hb, hverify⟩ := h pair corridor hcorridor payload hpayload
    exact ⟨hpair, b, List.mem_append_left _ hb, hverify⟩

/-- **The step.** -/
theorem VerifiedLatest.ltpStep {past : List CorridorAttestation} (h : VerifiedLatest bls past s)
    (hapart : RecordsApart bls s.corridors att) :
    VerifiedLatest bls (past ++ [att]) (ltpStep bls s att) := by
  unfold RecordsApart at hapart
  rcases ltpStep_cases bls s att with ⟨corridor, hpair, hverify, hstep⟩ | ⟨corridor, e, -, -, hstep⟩ |
    ⟨hpair, hstep⟩
  · rw [hpair] at hapart
    refine h.record hstep fun pair other hother hid => ?_
    obtain rfl := hapart hverify pair other hother hid
    rw [hpair] at hother
    cases hother
    exact ⟨rfl, hverify⟩
  · intro pair other hother payload hpayload
    rw [corridors_ltpStep] at hother
    rw [hstep] at hpayload
    obtain ⟨hpair, b, hb, hverify⟩ := h pair other hother payload hpayload
    exact ⟨hpair, b, List.mem_append_left _ hb, hverify⟩
  · rw [hpair] at hapart
    exact h.record hstep fun pair other hother hid => absurd hid (hapart pair other hother)

/-- **The run.** -/
theorem verifiedLatest_run {atts : List CorridorAttestation} (manifest : List CorridorConfig)
    (h : ∀ att ∈ atts, RecordsApart bls (loadCorridors manifest) att) :
    VerifiedLatest bls atts (atts.foldl (Ltp.ltpStep bls) (start manifest)) := by
  induction atts using List.reverseRecOn with
  | nil =>
    intro pair corridor _ payload hpayload
    cases (ExtTreeMap.getElem?_empty.symm.trans hpayload)
  | append_singleton atts att ih =>
    rw [List.foldl_append]
    refine (ih fun b hb => h b (List.mem_append_left _ hb)).ltpStep ?_
    rw [corridors_run]
    exact h att (List.mem_append_right _ List.mem_cons_self)

/-- What an attestation leaves verified, it has recorded apart. -/
theorem recordsApart_of_verifiedLatest {past : List CorridorAttestation}
    (h : VerifiedLatest bls past (ltpStep bls s att)) : RecordsApart bls s.corridors att := by
  -- an entry under an id is read through every corridor with that id
  have hread : ∀ id, (ltpStep bls s att).ltpLatest = s.ltpLatest.insert id att.payload →
      ∀ (pair : ChainPair) (other : Corridor), s.corridors[pair]? = some other → other.id = id →
      att.payload.pair = pair := by
    rintro _ hstep pair other hother rfl
    refine (h pair other (by rwa [corridors_ltpStep]) att.payload ?_).1
    rw [hstep, ExtTreeMap.getElem?_insert_self]
  unfold RecordsApart
  rcases ltpStep_cases bls s att with ⟨corridor, hpair, -, hstep⟩ | ⟨corridor, e, hpair, hverify, -⟩ |
    ⟨hpair, hstep⟩
  · rw [hpair]
    exact fun _ pair other hother hid => (hread _ hstep pair other hother hid).symm
  · rw [hpair]
    intro hok
    rw [hverify] at hok
    cases hok
  · rw [hpair]
    intro pair other hother hid
    rw [hread _ hstep pair other hother hid, hother] at hpair
    cases hpair

end Runs

/-- **When registered corridors stay verified**: for every manifest and every sequence of
    attestations, exactly when each of them is recorded under nobody else's id. -/
theorem latest_verified_iff (bls : Bls) (manifest : List CorridorConfig)
    (atts : List CorridorAttestation) :
    (∀ past, past <+: atts → VerifiedLatest bls past (past.foldl (ltpStep bls) (start manifest))) ↔
      ∀ att ∈ atts, RecordsApart bls (loadCorridors manifest) att := by
  constructor
  · intro h att hatt
    obtain ⟨past, rest, rfl⟩ := List.append_of_mem hatt
    have hlast := h (past ++ [att]) ⟨rest, by rw [List.append_assoc, List.cons_append, List.nil_append]⟩
    rw [List.foldl_append] at hlast
    have hapart := recordsApart_of_verifiedLatest hlast
    rwa [corridors_run] at hapart
  · intro h past hpre
    exact verifiedLatest_run manifest fun att hatt => h att (hpre.subset hatt)

/-- A scheme without a single key. -/
def keyless : Bls := ⟨Empty, Unit, fun _ => none, fun _ => none, fun _ => none, fun _ _ _ => false,
  fun _ _ => 0⟩

/-- One corridor, of the chains 1 and 2, with the id 3 and nine members. -/
def oneCorridor : List CorridorConfig :=
  [⟨3, 1, 2, (List.range 9).map fun i => ⟨UInt32.ofNat i, "a1"⟩⟩]

def nineMembers : Corridor := ⟨3, (List.range 9).map fun i => ⟨UInt32.ofNat i, 3, [0xa1]⟩⟩

/-- A payload of the unregistered chains 0 and 3. -/
def strayPayload : AttestationPayload := ⟨0, 3, 5, 7, 0⟩

/-- The unverified payload of an unregistered pair is recorded as the latest of the corridor. -/
theorem stray_overwrites_corridor :
    let s := [⟨strayPayload, [], ∅⟩].foldl (ltpStep keyless) (start oneCorridor)
    s.corridors[(toLex (1, 2) : ChainPair)]? = some nineMembers ∧
      s.ltpLatest[(3 : CorridorId)]? = some strayPayload ∧
      ¬ VerifiedLatest keyless [⟨strayPayload, [], ∅⟩] s := by
  intro s
  have hcorridor : s.corridors[(toLex (1, 2) : ChainPair)]? = some nineMembers := by decide +kernel
  have hlatest : s.ltpLatest[(3 : CorridorId)]? = some strayPayload := by decide +kernel
  refine ⟨hcorridor, hlatest, fun h => ?_⟩
  exact absurd (h (toLex (1, 2)) nineMembers hcorridor strayPayload hlatest).1 (by decide)

/-! ## Heights -/

/-- The id an attestation is recorded under, if it is recorded at all. -/
def recordedUnder (bls : Bls) (corridors : ExtTreeMap ChainPair Corridor) (att : CorridorAttestation) :
    Option CorridorId :=
  match corridors[att.payload.pair]? with
  | some corridor => if verifyAttestation bls corridor att = .ok () then some corridor.id else none
  | none => some (corridorIdFallback att.payload)

/-- The source heights recorded under an id, in the order they came in. -/
def heightsUnder (bls : Bls) (corridors : ExtTreeMap ChainPair Corridor) (id : CorridorId)
    (atts : List CorridorAttestation) : List UInt64 :=
  (atts.filter fun att => recordedUnder bls corridors att = some id).map (·.payload.sourceHeight)

section Heights

variable {bls : Bls} {s : LtpState} {att : CorridorAttestation}

/-- One attestation changes the entry of the id it is recorded under, and no other. -/
theorem getElem?_ltpStep (id : CorridorId) :
    (ltpStep bls s att).ltpLatest[id]? =
      if recordedUnder bls s.corridors att = some id then some att.payload else s.ltpLatest[id]? := by
  unfold recordedUnder
  rcases ltpStep_cases bls s att with ⟨corridor, hpair, hverify, hstep⟩ |
    ⟨corridor, e, hpair, hverify, hstep⟩ | ⟨hpair, hstep⟩
  · simp only [hpair, hverify, hstep, ExtTreeMap.getElem?_insert, Std.compare_eq_iff_eq, if_true,
      Option.some.injEq]
  · simp only [hpair, hverify, hstep, reduceCtorEq, if_false]
  · simp only [hpair, hstep, ExtTreeMap.getElem?_insert, Std.compare_eq_iff_eq, Option.some.injEq]

theorem heightsUnder_append (corridors : ExtTreeMap ChainPair Corridor) (id : CorridorId)
    (atts : List CorridorAttestation) (att : CorridorAttestation) :
    heightsUnder bls corridors id (atts ++ [att]) = heightsUnder bls corridors id atts ++
      if recordedUnder bls corridors att = some id then [att.payload.sourceHeight] else [] := by
  unfold heightsUnder
  rw [List.filter_append, List.map_append]
  split
  · next h => simp [h]
  · next h => simp [h]

/-- **The latest height is the one that came last.** -/
theorem latestHeight_run (bls : Bls) (manifest : List CorridorConfig) (id : CorridorId)
    (atts : List CorridorAttestation) :
    ((atts.foldl (ltpStep bls) (start manifest)).ltpLatest[id]?).map (·.sourceHeight) =
      (heightsUnder bls (loadCorridors manifest) id atts).getLast? := by
  induction atts using List.reverseRecOn with
  | nil => exact congrArg _ ExtTreeMap.getElem?_empty
  | append_singleton atts att ih =>
    rw [List.foldl_append, List.foldl_cons, List.foldl_nil, getElem?_ltpStep, corridors_run,
      heightsUnder_append]
    change (if recordedUnder bls (loadCorridors manifest) att = some id then _ else _ : Option _).map _ = _
    split
    · rw [List.getLast?_append, List.getLast?_singleton]
      rfl
    · rw [List.append_nil]
      exact ih

theorem heightsUnder_mono {corridors : ExtTreeMap ChainPair Corridor} {id : CorridorId}
    {earlier later : List CorridorAttestation} (h : earlier <+: later) :
    heightsUnder bls corridors id earlier <+: heightsUnder bls corridors id later :=
  (h.filter _).map _

/-- In a sorted list the last entry of an initial part is at most the last of the whole. -/
theorem getLast?_le_getLast? {xs ys : List UInt64} (hys : ys.Pairwise (· ≤ ·)) (hpre : xs <+: ys)
    {x : UInt64} (hx : xs.getLast? = some x) : ∃ y, ys.getLast? = some y ∧ x ≤ y := by
  obtain ⟨rest, rfl⟩ := hpre
  rw [List.getLast?_append]
  cases hrest : rest.getLast? with
  | none => exact ⟨x, by rw [hx]; rfl, le_rfl⟩
  | some y =>
    have hcross := (List.pairwise_append.mp hys).2.2
    exact ⟨y, rfl, hcross x (List.mem_of_getLast? hx) y (List.mem_of_getLast? hrest)⟩

/-- Entries that never fall below the last one before them are sorted. -/
theorem pairwise_concat_of_last {xs : List UInt64} {x : UInt64} (hxs : xs.Pairwise (· ≤ ·))
    (hlast : ∀ y, xs.getLast? = some y → y ≤ x) : (xs ++ [x]).Pairwise (· ≤ ·) := by
  refine List.pairwise_append.mpr ⟨hxs, List.pairwise_singleton _ _, ?_⟩
  intro a ha b hb
  rw [List.mem_singleton] at hb
  subst hb
  obtain ⟨init, y, rfl⟩ := List.eq_nil_or_concat' xs |>.resolve_left (List.ne_nil_of_mem ha)
  have hy : y ≤ b := hlast y (by simp)
  rcases List.mem_append.mp ha with ha | ha
  · exact ((List.pairwise_append.mp hxs).2.2 a ha y List.mem_cons_self).trans hy
  · rw [List.mem_singleton.mp ha]
    exact hy

end Heights

/-- **When the latest height of a corridor never goes back**: for every manifest, every sequence of
    attestations and every id, exactly when those recorded under the id come in the order of their
    heights. -/
theorem latest_height_monotone_iff (bls : Bls) (manifest : List CorridorConfig)
    (atts : List CorridorAttestation) (id : CorridorId) :
    (∀ earlier later, earlier <+: later → later <+: atts →
      ∀ payload, (earlier.foldl (ltpStep bls) (start manifest)).ltpLatest[id]? = some payload →
      ∃ payload', (later.foldl (ltpStep bls) (start manifest)).ltpLatest[id]? = some payload' ∧
        payload.sourceHeight ≤ payload'.sourceHeight) ↔
      (heightsUnder bls (loadCorridors manifest) id atts).Pairwise (· ≤ ·) := by
  constructor
  · intro h
    induction atts using List.reverseRecOn with
    | nil => exact List.Pairwise.nil
    | append_singleton atts att ih =>
      have hpre : atts <+: atts ++ [att] := List.prefix_append atts [att]
      have hsorted := ih fun earlier later hel hla => h earlier later hel (hla.trans hpre)
      have hlater := latestHeight_run bls manifest id (atts ++ [att])
      rw [heightsUnder_append] at hlater ⊢
      split
      · next hrec =>
        refine pairwise_concat_of_last hsorted fun y hy => ?_
        rw [← latestHeight_run bls manifest id atts] at hy
        obtain ⟨payload, hpayload, rfl⟩ := Option.map_eq_some_iff.mp hy
        obtain ⟨payload', hpayload', hle⟩ := h atts _ hpre (List.prefix_refl _) payload hpayload
        rw [hpayload', if_pos hrec, List.getLast?_append, List.getLast?_singleton] at hlater
        exact hle.trans_eq (Option.some.inj hlater)
      · rw [List.append_nil]
        exact hsorted
  · intro h earlier later hel hla payload hpayload
    have hlast : (heightsUnder bls (loadCorridors manifest) id earlier).getLast? =
        some payload.sourceHeight := by
      rw [← latestHeight_run, hpayload]
      rfl
    have hsorted := List.Pairwise.sublist (heightsUnder_mono hla).sublist h
    obtain ⟨y, hy, hle⟩ := getLast?_le_getLast? hsorted (heightsUnder_mono hel) hlast
    rw [← latestHeight_run bls manifest id later] at hy
    obtain ⟨payload', hpayload', rfl⟩ := Option.map_eq_some_iff.mp hy
    exact ⟨payload', hpayload', hle⟩

/-- The sum of a list of residues, unless it is empty. -/
def sumResidues (xs : List Bytes32) : Option Bytes32 := if xs = [] then none else some xs.sum

def readResidue (bs : List UInt8) : Option Bytes32 :=
  if bs.length = 32 then some (BitVec.ofNat 256 (ofBeBytes bs)) else none

/-- A linear scheme over the residues of 256 bits: a signature is the key times the message. -/
def linearScheme : Bls where
  PublicKey := Bytes32
  Signature := Bytes32
  publicKeyOfBytes bs := some (BitVec.ofNat 256 (ofBeBytes bs))
  signatureOfBytes := readResidue
  aggregatePubkeys := sumResidues
  verifyAggregate message sig pk := sig == pk * message
  sha3Domain _ data := BitVec.ofNat 256 (ofBeBytes data % (2 ^ 256 - 1))

/-- The first seven of the nine witnesses, all with the key `a1`, attest a height of chain 1. -/
def attestedHeight (height : UInt64) : CorridorAttestation :=
  let payload : AttestationPayload := ⟨1, 2, height, 7, 0⟩
  ⟨payload, beBytes 32 (7 * 0xa1#256 * payload.canonicalDigest linearScheme).toNat,
    ExtTreeSet.ofList ([0, 1, 2, 3, 4, 5, 6] : List AuthorityId)⟩

/-- An attestation that arrives late takes the corridor from height 9 back to height 5; both verify. -/
theorem late_attestation_lowers_height :
    let run := fun atts => (List.foldl (ltpStep linearScheme) (start oneCorridor) atts)
    (loadCorridors oneCorridor)[(toLex (1, 2) : ChainPair)]? = some nineMembers ∧
    verifyAttestation linearScheme nineMembers (attestedHeight 9) = .ok () ∧
    verifyAttestation linearScheme nineMembers (attestedHeight 5) = .ok () ∧
    ((run [attestedHeight 9]).ltpLatest[(3 : CorridorId)]?).map (·.sourceHeight) = some 9 ∧
    ((run [attestedHeight 9, attestedHeight 5]).ltpLatest[(3 : CorridorId)]?).map (·.sourceHeight) =
      some 5 := by
  decide +kernel

end SuwappuDag.Ltp
