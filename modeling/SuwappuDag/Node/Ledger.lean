/-
  WHAT A NODE HAS EXECUTED.

  Every executed block is the one its certificate commits to: the certificate is stored, and the
  payload digest it carries is the digest of the intents and envelopes that were executed
  (`Grounded`).  No certificate is executed twice.  Where BLAKE3 does not collide on what is in play,
  equal logs of certificates are therefore equal logs of blocks (`entries_eq_of_committed_eq`).
-/
import SuwappuDag.Node.Invariant

namespace SuwappuDag.Node

open Words Consensus Execution
open Std (ExtTreeMap)

/-- The round, the intents and the envelopes of an executed block. -/
abbrev LogEntry := Round × List Intent × List (UInt32 × GovAuth)

def ExecutedBlock.entry (e : ExecutedBlock) : LogEntry := (e.round, e.intents, e.governanceAuth)

/-- The digest does not collide on the payloads in `S`. -/
def BindsPayloads (blake3 : List UInt8 → Bytes32)
    (S : List Intent → List (UInt32 × GovAuth) → Prop) : Prop :=
  ∀ i a j b, S i a → S j b → computePayloadDigest blake3 i a = computePayloadDigest blake3 j b →
    i = j ∧ a = b

/-- Payloads that are listed with distinct digests do not collide. -/
theorem bindsPayloads_of_nodup {blake3 : List UInt8 → Bytes32}
    {S : List Intent → List (UInt32 × GovAuth) → Prop}
    {payloads : List (List Intent × List (UInt32 × GovAuth))}
    (hdistinct : (payloads.map fun p => computePayloadDigest blake3 p.1 p.2).Nodup)
    (hlisted : ∀ i a, S i a → (i, a) ∈ payloads) : BindsPayloads blake3 S := by
  intro i a j b hi hj heq
  have hsame := List.inj_on_of_nodup_map hdistinct (hlisted i a hi) (hlisted j b hj) heq
  exact ⟨congrArg Prod.fst hsame, congrArg Prod.snd hsame⟩

/-- The executed block behind a stored certificate. -/
def ExecutedBlock.BoundTo (C : Crypto) (e : ExecutedBlock) (cert : Certificate) : Prop :=
  cert.round = e.round ∧
    computePayloadDigest C.blake3 e.intents e.governanceAuth = cert.payloadDigest

/-- Every stored block has the digest it claims to have. -/
def ConsistentBlocks (C : Crypto) (blocks : ExtTreeMap CertHash BlockPayload) : Prop :=
  ∀ (h : CertHash) (block : BlockPayload), blocks[h]? = some block →
    blockPayloadIsConsistent C.blake3 block = true

structure Grounded (C : Crypto) (s : State) : Prop where
  reachable : s.dag.Reachable C.blake3
  consistent : ConsistentBlocks C s.blocks
  bound : ∀ e ∈ s.executions, ∃ cert, s.dag.get e.cert = some cert ∧ e.BoundTo C cert
  log : s.executions.map ExecutedBlock.cert = s.committed
  once : s.committed.Nodup

section OneNode

variable {C : Crypto}

theorem grounded_new (manifest : GenesisManifest) (selfId : AuthorityId) :
    Grounded C (State.new C manifest selfId) where
  reachable := .refl
  consistent h block hb := by
    have hb : (∅ : ExtTreeMap CertHash BlockPayload)[h]? = some block := hb
    simp at hb
  bound e he := by cases he
  log := rfl
  once := List.nodup_nil

variable {s : State}

/-- The store may grow. -/
theorem Grounded.bound_of_extends (hs : Grounded C s) {dag : DagStore}
    (hext : DagStore.Extends C.blake3 s.dag dag) :
    ∀ e ∈ s.executions, ∃ cert, dag.get e.cert = some cert ∧ e.BoundTo C cert := by
  intro e he
  obtain ⟨cert, hcert, hbound⟩ := hs.bound e he
  exact ⟨cert, hext.get hcert, hbound⟩

variable {blocks : ExtTreeMap CertHash BlockPayload} {k : CertHash}

theorem consistent_evictBlock {payloadDigest : Bytes32} (hb : ConsistentBlocks C blocks) :
    ConsistentBlocks C (evictBlock blocks k payloadDigest) := by
  intro h block
  unfold evictBlock
  split
  · rw [ExtTreeMap.getElem?_erase]
    split
    · exact fun hnone => by cases hnone
    · exact hb h block
  · exact hb h block

theorem consistent_insert {new : BlockPayload} (hnew : blockPayloadIsConsistent C.blake3 new = true)
    (hb : ConsistentBlocks C blocks) : ConsistentBlocks C (blocks.insert k new) := by
  intro h block
  rw [ExtTreeMap.getElem?_insert]
  split
  · intro heq
    cases heq
    exact hnew
  · exact hb h block

theorem consistent_insertIfNew {new : BlockPayload}
    (hnew : blockPayloadIsConsistent C.blake3 new = true) (hb : ConsistentBlocks C blocks) :
    ConsistentBlocks C (blocks.insertIfNew k new) := by
  intro h block
  rw [ExtTreeMap.getElem?_insertIfNew]
  split
  · intro heq
    cases heq
    exact hnew
  · exact hb h block

theorem grounded_execute (hs : Grounded C s) {h : CertHash} {cert : Certificate}
    {block : BlockPayload} (hfresh : h ∉ s.committed) (hcert : s.dag.get h = some cert)
    (hblock : matchingBlock s h cert = some block) : Grounded C (executeCert C s h cert block) := by
  obtain ⟨hstored, hdigest⟩ := Option.filter_eq_some_iff.mp hblock
  have hdigest : block.payloadDigest = cert.payloadDigest := of_decide_eq_true hdigest
  have hblocks : (executeCert C s h cert block).blocks = s.blocks :=
    executeCert_frame State.blocks (by intros; rfl)
  refine ⟨?_, ?_, ?_, ?_, ?_⟩
  · rw [executeCert_dag]; exact hs.reachable
  · rw [hblocks]; exact hs.consistent
  · rw [executeCert_dag, executeCert_executions]
    intro e he
    rcases List.mem_append.mp he with he | he
    · exact hs.bound e he
    · rw [List.mem_singleton.mp he]
      refine ⟨cert, hcert, rfl, ?_⟩
      exact (of_decide_eq_true (hs.consistent h block hstored)).trans hdigest
  · rw [executeCert_executions, executeCert_committed, List.map_append, hs.log]
    rfl
  · rw [executeCert_committed]
    exact List.nodup_append.mpr ⟨hs.once, List.nodup_singleton h, fun a ha b hb hab =>
      hfresh (List.mem_singleton.mp hb ▸ hab ▸ ha)⟩

theorem grounded_storeBlock (hs : Grounded C s) (block : BlockPayload) :
    Grounded C (storeBlock C s block) := by
  refine ⟨hs.reachable, ?_, hs.bound, hs.log, hs.once⟩
  intro h b
  unfold storeBlock
  dsimp only
  split
  · exact hs.consistent h b
  next hcons =>
  have hcons : blockPayloadIsConsistent C.blake3 block = true := by simpa using hcons
  split
  · split
    · exact consistent_insert hcons hs.consistent h b
    · exact hs.consistent h b
  · exact consistent_insertIfNew hcons hs.consistent h b

theorem grounded_authorRound (hs : Grounded C s) (timedOut : Bool) (signature : List UInt8) :
    Grounded C (authorRound C s timedOut signature).1 := by
  unfold authorRound
  split
  · exact hs
  split
  · exact hs
  have hext : DagStore.Extends C.blake3 s.dag (publish C s (draft C s signature)).dag := by
    rcases dag_publish_cases C s (draft C s signature) with ⟨h, hins⟩ | heq
    · exact .single ⟨_, h, hins⟩
    · rw [heq]
      exact .refl
  -- the driver's own block is digested by itself
  have hcons : blockPayloadIsConsistent C.blake3 (draft C s signature).block = true :=
    decide_eq_true rfl
  exact ⟨hs.reachable.trans hext, consistent_insert hcons hs.consistent, hs.bound_of_extends hext,
    hs.log, hs.once⟩

/-- **Every execution is grounded**, whatever certificates and blocks come in. -/
theorem grounded_nodeInvariant :
    NodeInvariant C (fun _ => True) (fun _ => True) (Grounded C) where
  need h hs := ⟨hs.reachable, hs.consistent, hs.bound, hs.log, hs.once⟩
  execute hs hfresh hcert hblock := grounded_execute hs hfresh hcert hblock
  eject hs := ⟨hs.reachable, hs.consistent, hs.bound, hs.log, hs.once⟩
  insert := by
    intro s cert h dag hs _ _ hins
    have hext : DagStore.Extends C.blake3 s.dag dag := .single ⟨cert, h, hins⟩
    exact ⟨hs.reachable.trans hext, consistent_evictBlock hs.consistent,
      hs.bound_of_extends hext, hs.log, hs.once⟩
  buffer missing hs _ := by
    unfold bufferOrphan
    split
    · exact hs
    · exact ⟨hs.reachable, hs.consistent, hs.bound, hs.log, hs.once⟩
  waiting _ _ := trivial
  vote v hs := ⟨hs.reachable, hs.consistent, hs.bound, hs.log, hs.once⟩
  store hs _ := grounded_storeBlock hs _
  author timedOut signature hs := grounded_authorRound hs timedOut signature
  accept intent limited nowMs hs := ⟨hs.reachable, hs.consistent, hs.bound, hs.log, hs.once⟩
  remember hash auth hs := ⟨hs.reachable, hs.consistent, hs.bound, hs.log, hs.once⟩

theorem grounded_run (manifest : GenesisManifest) (selfId : AuthorityId) (actions : List Action) :
    Grounded C (runActions C actions (State.new C manifest selfId)) :=
  grounded_nodeInvariant.run (grounded_new manifest selfId) fun _ _ _ => trivial

end OneNode

/-! ## Two nodes -/

theorem map_eq_of_map_eq {α β γ : Type} {f : α → β} {g : α → γ} :
    ∀ {xs ys : List α}, xs.map g = ys.map g → (∀ x ∈ xs, ∀ y ∈ ys, g x = g y → f x = f y) →
      xs.map f = ys.map f := by
  intro xs
  induction xs with
  | nil =>
    intro ys hg _
    rw [List.map_nil, eq_comm, List.map_eq_nil_iff] at hg
    rw [hg]
  | cons x xs ih =>
    intro ys hg hf
    cases ys with
    | nil => cases hg
    | cons y ys =>
      rw [List.map_cons, List.map_cons, List.cons.injEq] at hg
      rw [List.map_cons, List.map_cons, hf x List.mem_cons_self y List.mem_cons_self hg.1,
        ih hg.2 fun a ha b hb => hf a (List.mem_cons_of_mem _ ha) b (List.mem_cons_of_mem _ hb)]

/-- **Equal logs of certificates are equal logs of blocks.** -/
theorem entries_eq_of_committed_eq {C : Crypto} {s t : State} (hs : Grounded C s) (ht : Grounded C t)
    (hcol : NoCollision C.blake3 fun c => ∃ h, s.dag.get h = some c ∨ t.dag.get h = some c)
    (hbind : BindsPayloads C.blake3 fun intents auth =>
      ∃ e ∈ s.executions ++ t.executions, e.intents = intents ∧ e.governanceAuth = auth)
    (hlog : s.committed = t.committed) :
    s.executions.map ExecutedBlock.entry = t.executions.map ExecutedBlock.entry := by
  refine map_eq_of_map_eq (g := ExecutedBlock.cert) (by rw [hs.log, ht.log, hlog]) ?_
  intro e he e' he' hsame
  obtain ⟨c, hc, hround, hdigest⟩ := hs.bound e he
  obtain ⟨c', hc', hround', hdigest'⟩ := ht.bound e' he'
  have hhash : c.hash C.blake3 = c'.hash C.blake3 := by
    rw [hs.reachable.wellFormed.hashed hc, ht.reachable.wellFormed.hashed hc', hsame]
  obtain ⟨-, hr, -, hd⟩ := encode_inj (hcol c c' ⟨_, .inl hc⟩ ⟨_, .inr hc'⟩ hhash)
  obtain ⟨hintents, hauth⟩ := hbind e.intents e.governanceAuth e'.intents e'.governanceAuth
    ⟨e, List.mem_append_left _ he, rfl, rfl⟩ ⟨e', List.mem_append_right _ he', rfl, rfl⟩
    (by rw [hdigest, hdigest', hd])
  rw [ExecutedBlock.entry, ExecutedBlock.entry, hintents, hauth, ← hround, ← hround', hr]

end SuwappuDag.Node
