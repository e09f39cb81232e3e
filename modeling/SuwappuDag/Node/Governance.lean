/-
  ONE GOVERNANCE INTENT, APPLIED TWICE.

  An `AdmitAuthority`, `ExitAuthority` or `EjectAuthority` in a committed block meets two gates.

  1. **At commit** — `execute_block` applies it to the substrate like any other intent, if no earlier
     intent of the block has failed.  No envelope is looked at.
  2. **At the epoch boundary** — `apply_governance_intent` verifies the envelope against the registry
     as it is then, and seats or unseats.

  The queue between the two loses nothing and reorders nothing (`drained_nodeInvariant`): the calls at
  the boundaries followed by what is still queued are the governance intents executed, in order.  So
  the `j`-th call belongs to the `j`-th intent, and `governance_gates_iff` says when the two agree.
  They do not have to: a block author can have anything written into the substrate
  (`unsigned_admission_recorded`).
-/
import SuwappuDag.Execution.RingChanges
import SuwappuDag.Node.Replay

namespace SuwappuDag.Node

open Words Consensus Execution
open Reserved (ReservedDistinct)
open Std (ExtTreeMap)

/-! ## The two gates -/

/-- The substrate's conditions, at the substrate an intent meets. -/
def ChangesRecords (blake3 : List UInt8 → Bytes32) (s : InMemorySubstrate) : Intent → Prop
  | .admitAuthority id _ mldsaPublicKey blsPublicKey =>
    AdmitsSlot blake3 .authority s id mldsaPublicKey blsPublicKey
  | .exitAuthority id => ExitsSlot blake3 .authority s id
  | .ejectAuthority id _ => EjectsSlot blake3 .authority s id
  | _ => False

/-- The registry's conditions, at the registry an intent meets. -/
def ChangesSeats (registry : AuthorityRegistry) : Intent → Prop
  | .admitAuthority id stake _ _ =>
    ¬ stake < authorityStakeThreshold ∧ registry.size < authorityRingMax ∧ id ∉ registry
  | .exitAuthority id => id ∈ registry
  | .ejectAuthority id _ => id ∈ registry
  | _ => False

/-- There is an envelope, and the registry accepts it. -/
def Authorised (C : Crypto) (networkId : List UInt8) (registry : AuthorityRegistry) (intent : Intent)
    (auth : Option GovAuth) : Prop :=
  ∃ envelope, auth = some envelope ∧
    verifyGovernedIntent C registry networkId intent envelope = .ok ()

theorem applyIntent_changes_iff {blake3 : List UInt8 → Bytes32} (hres : ReservedDistinct blake3)
    {s : InMemorySubstrate} {intent : Intent} (hgov : isGovernanceIntent intent = true) :
    ¬ SameRecords s (applyIntent blake3 intent s).2 ↔ ChangesRecords blake3 s intent := by
  cases intent with
  | admitAuthority id stake mldsa bls => exact applyAdmit_changes_iff
  | exitAuthority id => exact applyExit_changes_iff
  | ejectAuthority id proofRef => exact applyEject_changes_iff hres
  | _ => cases hgov

namespace Committee

theorem seat_authorityRegistry_ne_iff (committee : Committee) (id : AuthorityId) (stake : UInt64)
    (mldsaPublicKey blsPublicKey : List UInt8) :
    (committee.enact (.admitAuthority id stake mldsaPublicKey blsPublicKey)).authorityRegistry ≠
        committee.authorityRegistry ↔
      ChangesSeats committee.authorityRegistry
        (.admitAuthority id stake mldsaPublicKey blsPublicKey) := by
  unfold enact
  dsimp only
  split
  · next registry hjoin =>
    obtain ⟨hfloor, hsize, hfree, rfl⟩ := admitMember_eq_ok_iff.mp hjoin
    refine iff_of_true (fun heq => hfree ?_) ⟨hfloor, hsize, hfree⟩
    have heq : committee.authorityRegistry.insert id ⟨id, stake, mldsaPublicKey⟩ =
      committee.authorityRegistry := heq
    rw [← heq]
    exact ExtTreeMap.mem_insert_self
  · next e hjoin =>
    refine iff_of_false (fun hne => hne rfl) ?_
    rintro ⟨hfloor, hsize, hfree⟩
    have hok : committee.authorityRegistry.tryAdmit ⟨id, stake, mldsaPublicKey⟩ = .ok _ :=
      admitMember_eq_ok_iff.mpr ⟨hfloor, hsize, hfree, rfl⟩
    rw [hok] at hjoin
    cases hjoin

theorem unseat_authorityRegistry (committee : Committee) (id : AuthorityId) :
    (committee.unseat id).authorityRegistry = committee.authorityRegistry.erase id := by
  unfold unseat
  split
  · rfl
  · next hout => exact (MapSum.erase_eq_self (ExtTreeMap.getElem?_eq_none hout)).symm

theorem unseat_authorityRegistry_ne_iff (committee : Committee) (id : AuthorityId) :
    (committee.unseat id).authorityRegistry ≠ committee.authorityRegistry ↔
      id ∈ committee.authorityRegistry := by
  rw [unseat_authorityRegistry]
  constructor
  · intro hne
    by_contra hout
    exact hne (MapSum.erase_eq_self (ExtTreeMap.getElem?_eq_none hout))
  · intro hin heq
    rw [← heq, ExtTreeMap.mem_erase] at hin
    exact hin.1 Std.ReflCmp.compare_self

/-- `apply_governance_intent` changes the registry exactly when the envelope is accepted and the
    registry's own conditions hold. -/
theorem applyGovernanceIntent_changes_iff {C : Crypto} {networkId : List UInt8}
    {committee : Committee} {intent : Intent} {auth : Option GovAuth}
    (hgov : isGovernanceIntent intent = true) :
    (committee.applyGovernanceIntent C networkId intent auth).authorityRegistry ≠
        committee.authorityRegistry ↔
      Authorised C networkId committee.authorityRegistry intent auth ∧
        ChangesSeats committee.authorityRegistry intent := by
  have henact : (committee.enact intent).authorityRegistry ≠ committee.authorityRegistry ↔
      ChangesSeats committee.authorityRegistry intent := by
    cases intent with
    | admitAuthority id stake mldsa bls => exact committee.seat_authorityRegistry_ne_iff id stake _ _
    | exitAuthority id => exact committee.unseat_authorityRegistry_ne_iff id
    | ejectAuthority id proofRef => exact committee.unseat_authorityRegistry_ne_iff id
    | _ => cases hgov
  unfold applyGovernanceIntent
  cases auth with
  | none =>
    refine iff_of_false (fun hne => hne rfl) ?_
    rintro ⟨⟨envelope, hnone, -⟩, -⟩
    cases hnone
  | some envelope =>
    dsimp only
    split
    · next text herr =>
      refine iff_of_false (fun hne => hne rfl) ?_
      rintro ⟨⟨envelope', hsome, hok⟩, -⟩
      cases hsome
      rw [herr] at hok
      cases hok
    · next hok =>
      rw [henact]
      exact ⟨fun hseats => ⟨⟨envelope, rfl, hok⟩, hseats⟩, And.right⟩

end Committee

/-! ## What was executed and what was drained -/

/-- A governance intent of an executed block: its envelope, and the substrate that the loop of
    `execute_block` has when it comes to it; none if an earlier intent has failed. -/
structure Occurrence where
  intent : Intent
  auth : Option GovAuth
  before : Option InMemorySubstrate

/-- The substrate in front of the intent at `idx`. -/
def ExecutedBlock.substrateAt (C : Crypto) (e : ExecutedBlock) (idx : Nat) : Option InMemorySubstrate :=
  let out := (e.intents.take idx).zipIdx.foldl (executeStep C.blake3)
    (⟨0, none, 0⟩, e.before.setCurrentBlockHeight e.round)
  if out.1.firstError.isSome then none else some out.2

def ExecutedBlock.occurrences (C : Crypto) (e : ExecutedBlock) : List Occurrence :=
  e.intents.zipIdx.filterMap fun p =>
    if isGovernanceIntent p.1 then
      some ⟨p.1, (e.governanceAuth.find? fun a => a.1.toNat = p.2).map Prod.snd, e.substrateAt C p.2⟩
    else none

/-- The governance intents of all executed blocks, in the order of execution. -/
def State.occurrences (C : Crypto) (s : State) : List Occurrence :=
  s.executions.flatMap (ExecutedBlock.occurrences C)

/-- The intent changes a balance or a record of the substrate. -/
def Occurrence.ChangesSubstrate (C : Crypto) (o : Occurrence) : Prop :=
  ∃ t, o.before = some t ∧ ¬ SameRecords t (applyIntent C.blake3 o.intent t).2

/-- The call changes the authority registry. -/
def Drain.ChangesRegistry (C : Crypto) (networkId : List UInt8) (d : Drain) : Prop :=
  (d.before.applyGovernanceIntent C networkId d.intent d.auth).authorityRegistry ≠
    d.before.authorityRegistry

section Queue

variable {C : Crypto}

theorem ExecutedBlock.map_occurrences (e : ExecutedBlock) :
    (e.occurrences C).map (fun o => (o.intent, o.auth)) = governanceOf e.intents e.governanceAuth := by
  rw [occurrences, List.map_filterMap, governanceOf]
  congr 1
  funext p
  split <;> rfl

theorem drainQueue_map (networkId : List UInt8) : ∀ (queue : List (Intent × Option GovAuth))
    (committee : Committee),
    (drainQueue C networkId queue committee).2.map (fun d => (d.intent, d.auth)) = queue := by
  intro queue
  induction queue with
  | nil => exact fun _ => rfl
  | cons q queue ih =>
    intro committee
    rw [drainQueue, List.map_cons, ih]

/-- Calls and queue together are the governance executed so far. -/
def Drained (C : Crypto) (s : State) : Prop :=
  (s.occurrences C).map (fun o => (o.intent, o.auth)) =
    s.drains.map (fun d => (d.intent, d.auth)) ++ s.pendingGovernance

theorem drained_execute {s : State} (hs : Drained C s) (h : CertHash) (cert : Certificate)
    (block : BlockPayload) : Drained C (executeCert C s h cert block) := by
  -- the block's governance goes to the end of the queue
  have hqueue : (executeCert C s h cert block).drains.map (fun d => (d.intent, d.auth)) ++
      (executeCert C s h cert block).pendingGovernance =
        s.drains.map (fun d => (d.intent, d.auth)) ++
          (s.pendingGovernance ++ governanceOf block.intents block.governanceAuth) := by
    unfold executeCert crossBoundary
    dsimp only
    split
    · rw [List.map_append, drainQueue_map, List.append_nil]
    · rfl
  have hnew := ExecutedBlock.map_occurrences (C := C)
    ⟨h, cert.round, block.intents, block.governanceAuth, s.substrate⟩
  unfold Drained at hs ⊢
  rw [hqueue, State.occurrences, executeCert_executions, List.flatMap_append, List.map_append,
    List.flatMap_singleton, hnew, ← State.occurrences, hs, List.append_assoc]

/-- **The queue loses and reorders nothing**, in every run. -/
theorem drained_nodeInvariant : NodeInvariant C (fun _ => True) (fun _ => True) (Drained C) where
  need h hs := hs
  execute hs _ _ _ := drained_execute hs _ _ _
  eject hs := hs
  insert hs _ _ _ := hs
  buffer missing hs _ := (bufferOrphan_frame (Drained C) (by intros; rfl)).mpr hs
  waiting _ _ := trivial
  vote v hs := hs
  store hs _ := hs
  author timedOut signature hs := by
    unfold authorRound
    split
    · exact hs
    split
    · exact hs
    · exact hs
  accept intent limited nowMs hs := hs
  remember hash auth hs := hs

theorem drained_run (manifest : GenesisManifest) (selfId : AuthorityId) (actions : List Action) :
    Drained C (runActions C actions (State.new C manifest selfId)) :=
  drained_nodeInvariant.run (P := Drained C) rfl fun _ _ _ => trivial

theorem isGovernanceIntent_of_mem_occurrences {s : State} {o : Occurrence}
    (ho : o ∈ s.occurrences C) : isGovernanceIntent o.intent = true := by
  obtain ⟨e, -, ho⟩ := List.mem_flatMap.mp ho
  obtain ⟨p, -, hp⟩ := List.mem_filterMap.mp ho
  split at hp
  · next hgov =>
    cases hp
    exact hgov
  · cases hp

/-- The `j`-th call is made for the `j`-th governance intent executed. -/
theorem Drained.pairs {s : State} (hs : Drained C s) {j : Nat} {o : Occurrence} {d : Drain}
    (ho : (s.occurrences C)[j]? = some o) (hd : s.drains[j]? = some d) :
    d.intent = o.intent ∧ d.auth = o.auth := by
  have hj : j < (s.drains.map fun d => (d.intent, d.auth)).length := by
    rw [List.length_map]
    exact (List.getElem?_eq_some_iff.mp hd).1
  have hleft : ((s.occurrences C).map fun o => (o.intent, o.auth))[j]? =
      some (o.intent, o.auth) := by
    rw [List.getElem?_map, ho]
    rfl
  have hright : (s.drains.map (fun d => (d.intent, d.auth)) ++ s.pendingGovernance)[j]? =
      some (d.intent, d.auth) := by
    rw [List.getElem?_append_left hj, List.getElem?_map, hd]
    rfl
  rw [hs, hright] at hleft
  have hpair := Option.some.inj hleft
  exact ⟨congrArg Prod.fst hpair, congrArg Prod.snd hpair⟩

end Queue

/-! ## When the two agree -/

/-- **Everywhere or nowhere, and only when authorised.**  For each governance intent of a run that has
    been executed and drained: it changes the substrate iff it changes the registry, and neither
    without an accepted envelope, EXACTLY when the substrate's conditions hold at its execution iff
    the envelope is accepted and the registry's conditions hold at its drain. -/
theorem governance_gates_iff {C : Crypto} (hres : ReservedDistinct C.blake3)
    {manifest : GenesisManifest} {selfId : AuthorityId} {actions : List Action} {j : Nat}
    {o : Occurrence} {d : Drain}
    (ho : ((runActions C actions (State.new C manifest selfId)).occurrences C)[j]? = some o)
    (hd : (runActions C actions (State.new C manifest selfId)).drains[j]? = some d) :
    d.intent = o.intent ∧ d.auth = o.auth ∧
    (((o.ChangesSubstrate C ↔ d.ChangesRegistry C manifest.networkId) ∧
        (¬ Authorised C manifest.networkId d.before.authorityRegistry o.intent o.auth →
          ¬ o.ChangesSubstrate C ∧ ¬ d.ChangesRegistry C manifest.networkId)) ↔
      ((∃ t, o.before = some t ∧ ChangesRecords C.blake3 t o.intent) ↔
        Authorised C manifest.networkId d.before.authorityRegistry o.intent o.auth ∧
          ChangesSeats d.before.authorityRegistry o.intent)) := by
  obtain ⟨hintent, hauth⟩ := (drained_run manifest selfId actions).pairs ho hd
  have hgov := isGovernanceIntent_of_mem_occurrences (List.mem_of_getElem? ho)
  have hsubstrate : o.ChangesSubstrate C ↔
      ∃ t, o.before = some t ∧ ChangesRecords C.blake3 t o.intent :=
    exists_congr fun t => and_congr_right fun _ => applyIntent_changes_iff hres hgov
  have hregistry : d.ChangesRegistry C manifest.networkId ↔
      Authorised C manifest.networkId d.before.authorityRegistry o.intent o.auth ∧
        ChangesSeats d.before.authorityRegistry o.intent := by
    rw [← hintent, ← hauth]
    exact Committee.applyGovernanceIntent_changes_iff (hintent ▸ hgov)
  refine ⟨hintent, hauth, ?_⟩
  rw [hsubstrate, hregistry]
  refine ⟨fun h => h.1, fun h => ⟨h, fun hunsigned => ⟨fun hx => ?_, fun hy => hunsigned hy.1⟩⟩⟩
  -- without an accepted envelope the right side fails, and by agreement the left one too
  exact hunsigned (h.mp hx).1

/-! ## An admission nobody signed

    One authority, whose blocks nobody else checks.  Its first block admits authority 7 and carries no
    envelope; the commit of its second block is in the next epoch. -/

def unsignedAdmission : Intent := .admitAuthority 7 100000 [] []

def seat0 : CertHash × Certificate :=
  (0x42d375122a3e9144f7018d3d7d839acabcc97724c33e684978a3a915b742f2c1#256,
    ⟨0, 0, [], 0x39e5dfc08f420483baca89e763af39ea25b8a9b4d081400f25c36fa136592d3c#256, []⟩)

def seat1 : CertHash × Certificate :=
  (0x611b2be90397cc88c0765c8a8c66e8a607bc4243b013293fa5c60dffe0d1506e#256,
    ⟨0, 1, [seat0.1], emptyPayload, []⟩)

def seat2 : CertHash × Certificate :=
  (0x97b40cbd0f2548beed34d36bafaa48a36efb1e970a197490f1507c7f87cfa7e0#256,
    ⟨0, 2, [seat1.1], emptyPayload, []⟩)

/-- The three certificates, the first two blocks, and the authority's own votes. -/
def unsignedAdmissionRun : List Action :=
  [.cert (signed seat0), .cert (signed seat1), .cert (signed seat2),
    .block ⟨seat0.2.payloadDigest, 0, 0, seat0.1, [unsignedAdmission], []⟩,
    .block (emptyBlock seat1), .vote ⟨0, seat0.1⟩, .vote ⟨0, seat1.1⟩].map (.receive false)

/-- A new epoch every round. -/
def hastyManifest : GenesisManifest := { echoManifest 1 with roundsPerEpoch := 1 }

def unsignedAdmissionState : State :=
  runActions echoScheme unsignedAdmissionRun (State.new echoScheme hastyManifest 5)

/-- The slot is written into the substrate at the commit, and the admission is dropped at the
    boundary. -/
theorem unsignedAdmission_applied :
    ∃ o d, (unsignedAdmissionState.occurrences echoScheme)[0]? = some o ∧
      unsignedAdmissionState.drains[0]? = some d ∧
      o.intent = unsignedAdmission ∧ o.auth = none ∧ o.ChangesSubstrate echoScheme ∧
      ¬ d.ChangesRegistry echoScheme hastyManifest.networkId := by
  have hfirst : ((unsignedAdmissionState.occurrences echoScheme)[0]?.any fun o =>
      o.intent = unsignedAdmission ∧ o.auth = none ∧ o.before.any fun t =>
        (applyIntent Blake3.hash unsignedAdmission t).2.readBytes
          (Reserved.authorityRegistryAddress Blake3.hash) ≠
        t.readBytes (Reserved.authorityRegistryAddress Blake3.hash)) = true := by
    decide +kernel
  have hcall : (unsignedAdmissionState.drains[0]?.any fun d => d.auth.isNone) = true := by
    decide +kernel
  obtain ⟨o, ho, hfirst⟩ := Option.any_eq_true _ _ |>.mp hfirst
  obtain ⟨d, hd, hnone⟩ := Option.any_eq_true _ _ |>.mp hcall
  obtain ⟨hintent, hauth, hbefore⟩ := of_decide_eq_true hfirst
  obtain ⟨t, ht, hbytes⟩ := Option.any_eq_true _ _ |>.mp hbefore
  refine ⟨o, d, ho, hd, hintent, hauth, ⟨t, ht, fun hsame => ?_⟩, fun hne => hne ?_⟩
  · rw [hintent] at hsame
    exact of_decide_eq_true hbytes (hsame.2 _)
  · rw [Option.isNone_iff_eq_none.mp hnone]
    rfl

/-- **A block author writes the authority registry of the substrate without any envelope.** -/
theorem unsigned_admission_recorded :
    ∃ o d, (unsignedAdmissionState.occurrences echoScheme)[0]? = some o ∧
      unsignedAdmissionState.drains[0]? = some d ∧ o.auth = none ∧
      ¬ ((o.ChangesSubstrate echoScheme ↔ d.ChangesRegistry echoScheme hastyManifest.networkId) ∧
        (¬ Authorised echoScheme hastyManifest.networkId d.before.authorityRegistry o.intent o.auth →
          ¬ o.ChangesSubstrate echoScheme ∧
            ¬ d.ChangesRegistry echoScheme hastyManifest.networkId)) := by
  obtain ⟨o, d, ho, hd, -, hauth, hsub, hreg⟩ := unsignedAdmission_applied
  exact ⟨o, d, ho, hd, hauth, fun h => hreg (h.1.mp hsub)⟩

/-- The equivalence at that admission: its conditions disagree. -/
theorem governance_gates_iff_unsigned :
    ∃ (o : Occurrence) (d : Drain), o.intent = unsignedAdmission ∧ d.auth = none ∧
      (((o.ChangesSubstrate echoScheme ↔ d.ChangesRegistry echoScheme hastyManifest.networkId) ∧
          (¬ Authorised echoScheme hastyManifest.networkId d.before.authorityRegistry o.intent o.auth →
            ¬ o.ChangesSubstrate echoScheme ∧
              ¬ d.ChangesRegistry echoScheme hastyManifest.networkId)) ↔
        ((∃ t, o.before = some t ∧ ChangesRecords Blake3.hash t o.intent) ↔
          Authorised echoScheme hastyManifest.networkId d.before.authorityRegistry o.intent o.auth ∧
            ChangesSeats d.before.authorityRegistry o.intent)) := by
  obtain ⟨o, d, ho, hd, hintent, hauth, -⟩ := unsignedAdmission_applied
  obtain ⟨-, hauth', hiff⟩ := governance_gates_iff (C := echoScheme) Reserved.blake3_reservedDistinct ho hd
  exact ⟨o, d, hintent, hauth'.trans hauth, hiff⟩

end SuwappuDag.Node
