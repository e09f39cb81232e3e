/-
  WHAT ONE LOCK SECTION DOES, said once for every task.

  Seen from outside, the tasks of a node share a CORE: the store, the blocks, the claims, the executions
  and the own proposals.

  1. **Effects (`Effect`)** — the changes of the core, with what the task knows when it makes them.
     The knowledge is gathered under one lock and used under a later one, so it has to be of a kind that
     others cannot spoil (`Task.Backed`: mostly, what the store holds).
  2. **Claims (`LogStep`)** — between the claim and the execution of a certificate a task HOLDS it.
  3. **Order (`PendingStep`)** — the certificates ahead of a walk, and why it passes over one.

  `Task.taskStep` has all three for any task; the results about interleavings use nothing else of the
  programs.
-/
import SuwappuDag.Node.Ledger
import SuwappuDag.Node.Tasks

namespace SuwappuDag.Node

open Words Consensus Execution
open Std (ExtTreeMap)

/-! ## The core -/

structure Core where
  dag : DagStore
  blocks : ExtTreeMap CertHash BlockPayload
  committed : List CertHash
  executions : List ExecutedBlock
  proposals : List (Certificate × BlockPayload)

def State.core (s : State) : Core := ⟨s.dag, s.blocks, s.committed, s.executions, s.proposals⟩

/-- The certificates executed, in the order of the `execute_block` calls. -/
def Core.executed (k : Core) : List CertHash := k.executions.map ExecutedBlock.cert

/-- A proposal of the own driver. -/
def Proposal.Own (C : Crypto) (p : Proposal) : Prop := ∃ a : Assembly, p = a.propose C

/-- What one lock section changes, and what is known there. -/
inductive Effect (C : Crypto) (k : Core) : Core → Prop where
  | quiet : Effect C k k
  | insert {cert h dag} (hins : k.dag.insert C.blake3 cert = .ok (h, dag)) :
    Effect C k { k with dag }
  | evict {cert h} (hcert : k.dag.get h = some cert) :
    Effect C k { k with blocks := evictBlock k.blocks h cert.payloadDigest }
  | overwrite {cert : Certificate} {block : BlockPayload}
      (hcons : blockPayloadIsConsistent C.blake3 block = true)
      (hcert : k.dag.get block.certHash = some cert)
      (hdigest : cert.payloadDigest = block.payloadDigest) :
    Effect C k { k with blocks := k.blocks.insert block.certHash block }
  | storeNew {block : BlockPayload} (hcons : blockPayloadIsConsistent C.blake3 block = true) :
    Effect C k { k with blocks := k.blocks.insertIfNew block.certHash block }
  | claim {h} (hfresh : h ∉ k.committed) : Effect C k { k with committed := k.committed ++ [h] }
  | execute {e : ExecutedBlock} {cert : Certificate} (hcert : k.dag.get e.cert = some cert)
      (hbound : e.BoundTo C cert) : Effect C k { k with executions := k.executions ++ [e] }
  | propose (p : Proposal) : Effect C k { k with proposals := k.proposals ++ [(p.cert, p.block)] }
  | storeOwn {p : Proposal} (hown : p.Own C) (hmem : (p.cert, p.block) ∈ k.proposals) :
    Effect C k { k with blocks := k.blocks.insert p.hash p.block }

/-- What is claimed, executed and held by the task that moves. -/
inductive LogStep (held : Option CertHash) (k : Core) (held' : Option CertHash) (k' : Core) : Prop where
  | same (hclaims : k'.committed = k.committed) (hlog : k'.executed = k.executed)
      (hheld : held' = held)
  | claim {h : CertHash} (hfresh : h ∉ k.committed) (hclaims : k'.committed = k.committed ++ [h])
      (hlog : k'.executed = k.executed) (hnone : held = none) (hheld : held' = some h)
  | execute {h : CertHash} (hclaims : k'.committed = k.committed)
      (hlog : k'.executed = k.executed ++ [h]) (hheld : held = some h) (hnone : held' = none)

/-- How the certificates ahead of a walk change; `asks` is the one whose claim it looks for. -/
inductive PendingStep (asks : Option CertHash) (pending : List CertHash) (k : Core)
    (pending' : List CertHash) (k' : Core) : Prop where
  | same (h : pending' = pending)
  | none (h : pending' = [])
  | history {leaderHash} (h : pending' = causalHistory k.dag leaderHash)
  | passed {h} (hsplit : pending = h :: pending')
      (hwhy : h ∈ k'.executed ∨ (asks = some h ∧ h ∈ k.committed) ∨ k.dag.get h = Option.none)

/-- Nothing is taken back. -/
structure Grows (C : Crypto) (k k' : Core) : Prop where
  dag : DagStore.Extends C.blake3 k.dag k'.dag
  executions : k.executions <+: k'.executions
  proposals : k.proposals <+: k'.proposals

theorem Effect.grows {C : Crypto} {k k' : Core} (h : Effect C k k') : Grows C k k' := by
  cases h with
  | insert hins => exact ⟨.single ⟨_, _, hins⟩, List.prefix_rfl, List.prefix_rfl⟩
  | execute => exact ⟨.refl, List.prefix_append _ _, List.prefix_rfl⟩
  | propose => exact ⟨.refl, List.prefix_rfl, List.prefix_append _ _⟩
  | _ => exact ⟨.refl, List.prefix_rfl, List.prefix_rfl⟩

/-! ## What the tasks carry -/

/-- The payload in hand is the one that a stored certificate commits to. -/
def Claim.Bound (C : Crypto) (k : Core) (c : Claim) : Prop :=
  ∃ cert, k.dag.get c.hash = some cert ∧ cert.round = c.round ∧
    computePayloadDigest C.blake3 c.intents c.governanceAuth = cert.payloadDigest

def CommitPc.Backed (C : Crypto) (k : Core) : CommitPc → Prop
  | .bind _ h cert => k.dag.get h = some cert
  | .claim _ c => c.Bound C k
  | .unneed _ c => c.Bound C k
  | .execute _ c => c.Bound C k
  | _ => True

def IngestPc.Backed (k : Core) : IngestPc → Prop
  | .evict _ cert h => k.dag.get h = some cert
  | _ => True

def InboxPc.Backed (C : Crypto) (k : Core) : InboxPc → Prop
  | .ingest pc => pc.Backed k
  | .lookup block => blockPayloadIsConsistent C.blake3 block = true
  | .overwrite block => blockPayloadIsConsistent C.blake3 block = true ∧
      ∃ cert, k.dag.get block.certHash = some cert ∧ cert.payloadDigest = block.payloadDigest
  | .storeNew block => blockPayloadIsConsistent C.blake3 block = true
  | .commit pc => pc.Backed C k
  | _ => True

def DriverPc.Backed (C : Crypto) (k : Core) : DriverPc → Prop
  | .mark p => p.Own C
  | .insert p => p.Own C ∧ (p.cert, p.block) ∈ k.proposals
  | .store p => p.Own C ∧ (p.cert, p.block) ∈ k.proposals
  | _ => True

/-- What a task knows of the core. -/
def Task.Backed (C : Crypto) (k : Core) : Task → Prop
  | .inbox _ _ pc => pc.Backed C k
  | .driver _ pc => pc.Backed C k
  | .client _ => True

/-- The certificate that a walk has claimed and not executed yet. -/
def CommitPc.held : CommitPc → Option CertHash
  | .unneed _ c => some c.hash
  | .execute _ c => some c.hash
  | _ => none

def Task.held : Task → Option CertHash
  | .inbox _ _ (.commit pc) => pc.held
  | _ => none

def Back.pending : Back → List CertHash
  | .governance p _ => p.history
  | .equivocation _ => []

/-- The certificates of a history that a walk has not passed. -/
def CommitPc.pending : CommitPc → List CertHash
  | .claimed p h => h :: p.history
  | .fetch p h => h :: p.history
  | .bind p h _ => h :: p.history
  | .claim p c => c.hash :: p.history
  | .unneed p c => c.hash :: p.history
  | .execute p c => c.hash :: p.history
  | .queue p _ => p.history
  | .unvote p _ => p.history
  | .boundary p _ => p.history
  | .take p => p.history
  | .govern p _ _ _ => p.history
  | .coSigner p _ _ _ => p.history
  | .seatAuthority p _ _ _ _ => p.history
  | .park p _ _ _ => p.history
  | .seatValidator p _ _ _ => p.history
  | .unseat p _ _ => p.history
  | .epoch p => p.history
  | .removeValidator back _ => back.pending
  | .removeStake back _ => back.pending
  | .recount back _ => back.pending
  | .record back _ _ => back.pending
  | _ => []

def Task.pending : Task → List CertHash
  | .inbox _ _ (.commit pc) => pc.pending
  | _ => []

/-- The certificate that a walk is about to find claimed or not. -/
def CommitPc.asks : CommitPc → Option CertHash
  | .claimed _ h => some h
  | .claim _ c => some c.hash
  | _ => none

def Task.asks : Task → Option CertHash
  | .inbox _ _ (.commit pc) => pc.asks
  | _ => none

/-- What a task knows stays true when others move. -/
theorem Task.Backed.mono {C : Crypto} {k k' : Core} {t : Task} (h : t.Backed C k)
    (hg : Grows C k k') : t.Backed C k' := by
  have hclaim : ∀ {c : Claim}, c.Bound C k → c.Bound C k' := by
    rintro c ⟨cert, hcert, hrest⟩
    exact ⟨cert, hg.dag.get hcert, hrest⟩
  cases t with
  | inbox isDynamic messages pc =>
    cases pc with
    | ingest pc =>
      cases pc with
      | evict i cert h' => exact hg.dag.get h
      | _ => exact h
    | overwrite block =>
      obtain ⟨hcons, cert, hcert, hdigest⟩ := h
      exact ⟨hcons, cert, hg.dag.get hcert, hdigest⟩
    | commit pc =>
      cases pc with
      | bind p h' cert => exact hg.dag.get h
      | claim p c => exact hclaim h
      | unneed p c => exact hclaim h
      | execute p c => exact hclaim h
      | _ => exact h
    | _ => exact h
  | driver ticks pc =>
    cases pc with
    | insert p => exact ⟨h.1, hg.proposals.subset h.2⟩
    | store p => exact ⟨h.1, hg.proposals.subset h.2⟩
    | _ => exact h
  | client requests => trivial

/-! ## The walk -/

section Sections

variable {C : Crypto} {s : State}

/-- A point that carries nothing but the certificates ahead. -/
structure CommitPc.Plain (C : Crypto) (pc : CommitPc) (rest : List CertHash) : Prop where
  backed : ∀ k, pc.Backed C k
  held : pc.held = none
  pending : pc.pending = rest

theorem Walk.next_plain (w : Walk) : w.next.Plain C [] := by
  unfold Walk.next
  split <;> exact ⟨fun _ => trivial, rfl, rfl⟩

theorem Sweep.next_plain (p : Sweep) : p.next.Plain C p.history := by
  unfold Sweep.next
  split
  · next hnil => rw [hnil]; exact p.walk.next_plain
  · next heq => rw [heq]; exact ⟨fun _ => trivial, rfl, rfl⟩

theorem nextIntent_plain (p : Sweep) (queued : List (Intent × Option GovAuth)) :
    (nextIntent p queued).Plain C p.history := by
  cases queued <;> exact ⟨fun _ => trivial, rfl, rfl⟩

theorem nextProof_plain (proofs : List EquivocationProof) : (nextProof proofs).Plain C [] := by
  cases proofs <;> exact ⟨fun _ => trivial, rfl, rfl⟩

theorem enactIntent_plain (p : Sweep) (queued : List (Intent × Option GovAuth)) (intent : Intent) :
    (enactIntent p queued intent).Plain C p.history := by
  cases intent with
  | admitAuthority => exact ⟨fun _ => trivial, rfl, rfl⟩
  | exitAuthority => exact ⟨fun _ => trivial, rfl, rfl⟩
  | ejectAuthority => exact ⟨fun _ => trivial, rfl, rfl⟩
  | _ => exact nextIntent_plain p queued

theorem Back.next_plain (back : Back) : back.next.Plain C back.pending := by
  cases back with
  | governance p queued => exact nextIntent_plain p queued
  | equivocation proofs => exact nextProof_plain proofs

/-- What a section of a walk does; what the walk knows afterwards is about the core before. -/
structure CommitStep (C : Crypto) (pc : CommitPc) (k : Core) (pc' : CommitPc) (k' : Core) : Prop where
  effect : Effect C k k'
  backed : pc'.Backed C k
  log : LogStep pc.held k pc'.held k'
  pending : PendingStep pc.asks pc.pending k pc'.pending k'

/-- The core stays as it is and the walk goes on to a plain point. -/
theorem CommitStep.plain {pc pc' : CommitPc} {k k' : Core} {rest : List CertHash} (hcore : k' = k)
    (hplain : pc'.Plain C rest) (hheld : pc.held = none)
    (hpending : PendingStep pc.asks pc.pending k rest k') : CommitStep C pc k pc' k' := by
  subst hcore
  exact ⟨.quiet, hplain.backed _, .same rfl rfl (hplain.held.trans hheld.symm),
    hplain.pending ▸ hpending⟩

/-- **Every section of a walk.** -/
theorem CommitPc.commitStep (pc : CommitPc) (hcons : ConsistentBlocks C s.blocks)
    (hl : pc.Backed C s.core) : CommitStep C pc s.core (pc.step C s).1 (pc.step C s).2.core := by
  cases pc with
  | candidates votes n => exact .plain rfl (Walk.next_plain _) rfl (.same rfl)
  | slot w round =>
    rw [step]
    split
    · exact .plain rfl ⟨fun _ => trivial, rfl, rfl⟩ rfl (.same rfl)
    · exact .plain rfl w.next_plain rfl (.same rfl)
  | leader w leaderHash =>
    rw [step]
    dsimp only
    split
    · exact .plain rfl w.next_plain rfl (.same rfl)
    · exact .plain rfl ⟨fun _ => trivial, rfl, rfl⟩ rfl (.same rfl)
  | quorum w leaderHash =>
    rw [step]
    dsimp only
    split <;> exact .plain rfl ⟨fun _ => trivial, rfl, rfl⟩ rfl (.same rfl)
  | history w leaderHash => exact .plain rfl (Sweep.next_plain _) rfl (.history rfl)
  | claimed p h =>
    rw [step]
    dsimp only
    split
    · next hclaimed => exact .plain rfl p.next_plain rfl (.passed rfl (.inr (.inl ⟨rfl, hclaimed⟩)))
    · exact .plain rfl ⟨fun _ => trivial, rfl, rfl⟩ rfl (.same rfl)
  | fetch p h =>
    rw [step]
    split
    · next hget => exact .plain rfl p.next_plain rfl (.passed rfl (.inr (.inr hget)))
    · next cert hcert => exact ⟨.quiet, hcert, .same rfl rfl rfl, .same rfl⟩
  | bind p h cert =>
    rw [step]
    split
    · exact .plain rfl ⟨fun _ => trivial, rfl, rfl⟩ rfl (.none rfl)
    · -- the filter on the digest is what binds the block
      next block hblock =>
      obtain ⟨hstored, hdigest⟩ := Option.filter_eq_some_iff.mp hblock
      refine ⟨.quiet, ⟨cert, hl, rfl, ?_⟩, .same rfl rfl rfl, .same rfl⟩
      exact (of_decide_eq_true (hcons h block hstored)).trans (of_decide_eq_true hdigest)
  | claim p c =>
    rw [step]
    split
    · next hclaimed => exact .plain rfl p.next_plain rfl (.passed rfl (.inr (.inl ⟨rfl, hclaimed⟩)))
    · next hfresh => exact ⟨.claim hfresh, hl, .claim hfresh rfl rfl rfl rfl, .same rfl⟩
  | unneed p c => exact ⟨.quiet, hl, .same rfl rfl rfl, .same rfl⟩
  | execute p c =>
    obtain ⟨cert, hcert, hround, hdigest⟩ := hl
    have hlog : (executeClaim C s c).core.executed = s.core.executed ++ [c.hash] := List.map_append
    refine ⟨.execute (e := ⟨c.hash, c.round, c.intents, c.governanceAuth, s.substrate⟩) hcert
      ⟨hround, hdigest⟩, trivial, .execute rfl hlog rfl rfl, .passed rfl (.inl ?_)⟩
    show c.hash ∈ (executeClaim C s c).core.executed
    rw [hlog]
    exact List.mem_append_right _ List.mem_cons_self
  | boundary p c =>
    rw [step]
    split
    · exact .plain rfl ⟨fun _ => trivial, rfl, rfl⟩ rfl (.same rfl)
    · exact .plain rfl p.next_plain rfl (.same rfl)
  | take p => exact .plain rfl (nextIntent_plain p _) rfl (.same rfl)
  | govern p intent auth queued =>
    cases auth with
    | none => exact .plain rfl (nextIntent_plain p queued) rfl (.same rfl)
    | some envelope =>
      rw [step]
      dsimp only
      split
      · exact .plain rfl (nextIntent_plain p queued) rfl (.same rfl)
      · exact .plain rfl ⟨fun _ => trivial, rfl, rfl⟩ rfl (.same rfl)
  | coSigner p intent envelope queued =>
    rw [step]
    dsimp only
    split
    · exact .plain rfl (nextIntent_plain p queued) rfl (.same rfl)
    · exact .plain rfl (enactIntent_plain p queued intent) rfl (.same rfl)
  | seatAuthority p id stake key queued =>
    rw [step]
    split
    · exact .plain rfl (nextIntent_plain p queued) rfl (.same rfl)
    · exact .plain rfl ⟨fun _ => trivial, rfl, rfl⟩ rfl (.same rfl)
  | seatValidator p id stake queued => exact .plain rfl (nextIntent_plain p queued) rfl (.same rfl)
  | unseat p id queued =>
    rw [step]
    split
    · exact .plain rfl ⟨fun _ => trivial, rfl, rfl⟩ rfl (.same rfl)
    · exact .plain rfl (nextIntent_plain p queued) rfl (.same rfl)
  | epoch p => exact .plain rfl p.next_plain rfl (.same rfl)
  | equivocations => exact .plain rfl (nextProof_plain _) rfl (.same rfl)
  | seated id proofs =>
    rw [step]
    dsimp only
    split
    · exact .plain rfl ⟨fun _ => trivial, rfl, rfl⟩ rfl (.same rfl)
    · exact .plain rfl (nextProof_plain proofs) rfl (.same rfl)
  | record back id n => exact .plain rfl back.next_plain rfl (.same rfl)
  | _ => exact .plain rfl ⟨fun _ => trivial, rfl, rfl⟩ rfl (.same rfl)

/-! ## The other tasks -/

structure TaskStep (C : Crypto) (t : Task) (k : Core) (t' : Task) (k' : Core) : Prop where
  effect : Effect C k k'
  backed : t'.Backed C k'
  log : LogStep t.held k t'.held k'
  pending : PendingStep t.asks t.pending k t'.pending k'

/-- Away from the walks nothing is claimed, executed or held. -/
structure Aside (C : Crypto) (k : Core) (t' : Task) (k' : Core) : Prop where
  effect : Effect C k k'
  claims : k'.committed = k.committed
  log : k'.executed = k.executed
  backed : t'.Backed C k'
  held : t'.held = none
  pending : t'.pending = []

theorem TaskStep.aside {t t' : Task} {k k' : Core} (hheld : t.held = none) (h : Aside C k t' k') :
    TaskStep C t k t' k' :=
  ⟨h.effect, h.backed, .same h.claims h.log (h.held.trans hheld.symm), .none h.pending⟩

/-- The core stays as it is. -/
theorem Aside.quiet {t' : Task} {k k' : Core} (hcore : k' = k) (hbacked : t'.Backed C k)
    (hheld : t'.held = none) (hpending : t'.pending = []) : Aside C k t' k' := by
  subst hcore
  exact ⟨.quiet, rfl, rfl, hbacked, hheld, hpending⟩

variable {isDynamic : Bool} {messages : List WireMessage} {ticks : List (Bool × List UInt8)}

theorem Ingesting.next_aside (i : Ingesting) {k k' : Core} (hcore : k' = k) :
    Aside C k (.inbox isDynamic messages (.ingest i.next)) k' := by
  unfold Ingesting.next
  split <;> exact .quiet hcore trivial rfl rfl

theorem IngestPc.aside (pc : IngestPc) (hl : pc.Backed s.core) :
    Aside C s.core (.inbox isDynamic messages (.ingest (pc.step C s).1)) (pc.step C s).2.core := by
  cases pc with
  | verify i cert =>
    rw [step]
    dsimp only
    split
    · exact i.next_aside rfl
    · exact .quiet rfl trivial rfl rfl
  | insert i cert =>
    rw [step]
    split
    · next h dag hins =>
      exact ⟨.insert hins, rfl, rfl, DagStore.get_insert_self hins, rfl, rfl⟩
    · exact .quiet rfl trivial rfl rfl
    · exact i.next_aside rfl
  | evict i cert h => exact ⟨.evict hl, rfl, rfl, trivial, rfl, rfl⟩
  | note i cert h =>
    rw [step]
    dsimp only
    split
    · exact Ingesting.next_aside _ rfl
    · exact .quiet rfl trivial rfl rfl
  | activate i author stake => exact i.next_aside rfl
  | buffer i cert missing =>
    exact i.next_aside (bufferOrphan_frame State.core (by intros; rfl))
  | done inserted => exact .quiet rfl trivial rfl rfl

theorem nextVote_aside (inserted : List IngestedCert) {k k' : Core} (hcore : k' = k) :
    Aside C k (.inbox isDynamic messages (nextVote inserted)) k' := by
  cases inserted <;> exact .quiet hcore trivial rfl rfl

theorem startMessage_aside (msg : WireMessage) (k : Core) :
    Aside C k (.inbox isDynamic messages (startMessage C isDynamic msg)) k := by
  unfold startMessage
  cases msg with
  | cert cert => exact .quiet rfl trivial rfl rfl
  | block block =>
    dsimp only
    split
    · exact .quiet rfl trivial rfl rfl
    · split
      · exact .quiet rfl trivial rfl rfl
      · next hcons =>
        refine .quiet rfl ?_ rfl rfl
        show blockPayloadIsConsistent C.blake3 block = true
        simpa using hcons
  | vote vote =>
    dsimp only
    split <;> exact .quiet rfl trivial rfl rfl

theorem InboxPc.taskStep (pc : InboxPc) (hcons : ConsistentBlocks C s.blocks)
    (hl : pc.Backed C s.core) : TaskStep C (.inbox isDynamic messages pc) s.core
      (.inbox isDynamic messages (pc.step C s).1) (pc.step C s).2.core := by
  cases pc with
  | idle => exact .aside rfl (.quiet rfl trivial rfl rfl)
  | ingest pc =>
    have hstep : Aside C s.core (.inbox isDynamic messages (.ingest (pc.step C s).1))
      (pc.step C s).2.core := pc.aside hl
    cases pc with
    | done inserted => exact .aside rfl (.quiet rfl trivial rfl rfl)
    | _ => exact .aside rfl hstep
  | mayVote inserted =>
    rw [step]
    dsimp only
    split
    · exact .aside rfl (nextVote_aside inserted rfl)
    · exact .aside rfl (.quiet rfl trivial rfl rfl)
  | cast candidate inserted => exact .aside rfl (nextVote_aside inserted rfl)
  | lookup block =>
    rw [step]
    dsimp only
    split
    · next cert hcert =>
      split
      · next hdigest => exact .aside rfl (.quiet rfl ⟨hl, cert, hcert, hdigest⟩ rfl rfl)
      · exact .aside rfl (.quiet rfl trivial rfl rfl)
    · exact .aside rfl (.quiet rfl hl rfl rfl)
  | overwrite block =>
    obtain ⟨hblock, cert, hcert, hdigest⟩ := hl
    exact .aside rfl ⟨.overwrite hblock hcert hdigest, rfl, rfl, trivial, rfl, rfl⟩
  | storeNew block => exact .aside rfl ⟨.storeNew hl, rfl, rfl, trivial, rfl, rfl⟩
  | push vote => exact .aside rfl (.quiet rfl trivial rfl rfl)
  | commit pc =>
    have hstep := pc.commitStep hcons hl
    have hbacked : Task.Backed C s.core (.inbox isDynamic messages (.commit (pc.step C s).1)) :=
      hstep.backed
    cases pc with
    | done => exact .aside rfl (.quiet rfl trivial rfl rfl)
    | _ => exact ⟨hstep.effect, hbacked.mono hstep.effect.grows, hstep.log, hstep.pending⟩

theorem nextEnvelope_aside (a : Assembly) (todo : List (Intent × Nat)) {k k' : Core}
    (hcore : k' = k) : Aside C k (.driver ticks (nextEnvelope C a todo)) k' := by
  cases todo with
  | nil => exact .quiet hcore ⟨a, rfl⟩ rfl rfl
  | cons e todo => exact .quiet hcore trivial rfl rfl

theorem DriverPc.aside (pc : DriverPc) (hl : pc.Backed C s.core) :
    Aside C s.core (.driver ticks (pc.step C s).1) (pc.step C s).2.core := by
  cases pc with
  | idle => exact .quiet rfl trivial rfl rfl
  | seated timedOut signature =>
    rw [step]
    dsimp only
    split <;> exact .quiet rfl trivial rfl rfl
  | parents timedOut signature =>
    rw [step]
    dsimp only
    split <;> exact .quiet rfl trivial rfl rfl
  | drain a => exact nextEnvelope_aside _ _ rfl
  | envelope a intent idx todo => rw [step]; split <;> exact nextEnvelope_aside _ _ rfl
  | mark p =>
    exact ⟨.propose p, rfl, rfl, ⟨hl, List.mem_append_right _ List.mem_cons_self⟩, rfl, rfl⟩
  | insert p =>
    rw [step]
    dsimp only
    split
    · next hins => exact ⟨.insert hins, rfl, rfl, hl, rfl, rfl⟩
    · exact .quiet rfl hl rfl rfl
  | store p => exact ⟨.storeOwn hl.1 hl.2, rfl, rfl, trivial, rfl, rfl⟩

/-- What survives the writes of a client survives a request. -/
theorem Request.invariant {P : State → Prop} (inv : ClientInvariant C P) (request : Request)
    (hs : P s) : P (request.exec C s) := by
  cases request with
  | tcp ambient msg => exact inv.handleClient ambient msg hs
  | rpc bytes decoded signature hash nowMs =>
    exact inv.submitIntent bytes decoded signature hash nowMs hs

/-- A request of a client writes mempool and envelopes. -/
theorem Request.core_exec (request : Request) (s : State) : (request.exec C s).core = s.core :=
  request.invariant (P := fun t => t.core = s.core) ⟨fun _ _ _ h => h, fun _ _ h => h⟩ rfl

/-- **Every section of every task.** -/
theorem Task.taskStep (t : Task) (hcons : ConsistentBlocks C s.blocks) (hl : t.Backed C s.core) :
    TaskStep C t s.core (t.step C s).1 (t.step C s).2.core := by
  cases t with
  | inbox isDynamic messages pc =>
    cases pc with
    | idle =>
      cases messages with
      | nil => exact .aside rfl (.quiet rfl trivial rfl rfl)
      | cons msg messages => exact .aside rfl (startMessage_aside msg s.core)
    | _ => exact InboxPc.taskStep _ hcons hl
  | driver ticks pc =>
    cases pc with
    | idle => cases ticks <;> exact .aside rfl (.quiet rfl trivial rfl rfl)
    | _ => exact .aside rfl (DriverPc.aside _ hl)
  | client requests =>
    cases requests with
    | nil => exact .aside rfl (.quiet rfl trivial rfl rfl)
    | cons request requests =>
      exact .aside rfl (.quiet (request.core_exec s) trivial rfl rfl)

end Sections

end SuwappuDag.Node
