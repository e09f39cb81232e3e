/-
  EXECUTED BLOCKS ARE THE SIGNED ONES, under every interleaving.

  Blocks come from peers that may forge them, before or after the certificate, and the handler looks
  at the store and writes the block under two different locks.

  1. **Executions** — a block is bound to its certificate where it is READ for execution, so whatever
     was stored in between, what is executed has the digest that was signed (`Core.Backed.bound`).
  2. **Stored blocks (`executed_blocks_signed`)** — a block that matches a stored certificate is never
     given up for one that does not: eviction and overwriting compare with that same certificate, since
     the store keeps what it has; a handler that looked too early only fills an EMPTY place; the driver's
     own block sits under a hash that no other certificate has.
-/
import SuwappuDag.Node.Scheme
import SuwappuDag.Node.Sections

namespace SuwappuDag.Node

open Words Consensus Execution Interleave
open Std (ExtTreeMap)

/-! ## The core along a run -/

/-- What holds of the core between two sections. -/
structure Core.Backed (C : Crypto) (k : Core) : Prop where
  reachable : k.dag.Reachable C.blake3
  consistent : ConsistentBlocks C k.blocks
  bound : ∀ e ∈ k.executions, ∃ cert, k.dag.get e.cert = some cert ∧ e.BoundTo C cert

/-- A stored block that matches its certificate gives way to none that does not. -/
def KeepsMatching (k k' : Core) : Prop :=
  ∀ h cert block, k.dag.get h = some cert → k.blocks[h]? = some block →
    block.payloadDigest = cert.payloadDigest →
    ∃ block', k'.blocks[h]? = some block' ∧ block'.payloadDigest = cert.payloadDigest

/-- The certificates a node has stored or signed. -/
def Core.Known (k : Core) (cert : Certificate) : Prop :=
  (∃ h, k.dag.get h = some cert) ∨ ∃ block, (cert, block) ∈ k.proposals

section Core

variable {C : Crypto} {k k' : Core}

theorem Grows.refl (k : Core) : Grows C k k := ⟨.refl, List.prefix_rfl, List.prefix_rfl⟩

theorem Grows.trans {k'' : Core} (h : Grows C k k') (h' : Grows C k' k'') : Grows C k k'' :=
  ⟨h.dag.trans h'.dag, h.executions.trans h'.executions, h.proposals.trans h'.proposals⟩

theorem Grows.known (h : Grows C k k') {cert : Certificate} (hc : k.Known cert) : k'.Known cert := by
  rcases hc with ⟨key, hc⟩ | ⟨block, hc⟩
  · exact .inl ⟨key, h.dag.get hc⟩
  · exact .inr ⟨block, h.proposals.subset hc⟩

/-- The own block is digested by itself. -/
theorem Proposal.Own.consistent {p : Proposal} (h : p.Own C) :
    blockPayloadIsConsistent C.blake3 p.block = true := by
  obtain ⟨a, rfl⟩ := h
  exact decide_eq_true rfl

theorem Effect.backed (hb : k.Backed C) (h : Effect C k k') : k'.Backed C := by
  have hbound : ∀ e ∈ k.executions, ∃ cert, k'.dag.get e.cert = some cert ∧ e.BoundTo C cert := by
    intro e he
    obtain ⟨cert, hcert, hrest⟩ := hb.bound e he
    exact ⟨cert, h.grows.dag.get hcert, hrest⟩
  have hreach := hb.reachable.trans h.grows.dag
  cases h with
  | quiet => exact hb
  | insert hins => exact ⟨hreach, hb.consistent, hbound⟩
  | evict hcert => exact ⟨hreach, consistent_evictBlock hb.consistent, hbound⟩
  | overwrite hcons hcert hdigest => exact ⟨hreach, consistent_insert hcons hb.consistent, hbound⟩
  | storeNew hcons => exact ⟨hreach, consistent_insertIfNew hcons hb.consistent, hbound⟩
  | claim hfresh => exact ⟨hreach, hb.consistent, hbound⟩
  | execute hcert hnew =>
    refine ⟨hreach, hb.consistent, fun e he => ?_⟩
    rcases List.mem_append.mp he with he | he
    · exact hbound e he
    · rw [List.mem_singleton.mp he]
      exact ⟨_, hcert, hnew⟩
  | propose p => exact ⟨hreach, hb.consistent, hbound⟩
  | storeOwn hown hmem => exact ⟨hreach, consistent_insert hown.consistent hb.consistent, hbound⟩

theorem KeepsMatching.refl (k : Core) : KeepsMatching k k :=
  fun _ _ block _ hblock hmatch => ⟨block, hblock, hmatch⟩

theorem KeepsMatching.trans {k'' : Core} (h : KeepsMatching k k') (hg : Grows C k k')
    (h' : KeepsMatching k' k'') : KeepsMatching k k'' := by
  intro key cert block hcert hblock hmatch
  obtain ⟨block', hblock', hmatch'⟩ := h key cert block hcert hblock hmatch
  exact h' key cert block' (hg.dag.get hcert) hblock' hmatch'

/-- A block put under `key` that matches whatever certificate is stored there. -/
theorem keepsMatching_insert {key : CertHash} {new : BlockPayload}
    (hnew : ∀ cert, k.dag.get key = some cert → new.payloadDigest = cert.payloadDigest) :
    KeepsMatching k { k with blocks := k.blocks.insert key new } := by
  intro h cert block hcert hblock hmatch
  show ∃ block', (k.blocks.insert key new)[h]? = some block' ∧ _
  rw [ExtTreeMap.getElem?_insert]
  split
  · next heq =>
    rw [← compare_eq_iff_eq.mp heq] at hcert
    exact ⟨new, rfl, hnew cert hcert⟩
  · exact ⟨block, hblock, hmatch⟩

theorem Effect.keepsMatching (hb : k.Backed C) (hcol : NoCollision C.blake3 k.Known)
    (h : Effect C k k') : KeepsMatching k k' := by
  cases h with
  | @evict cert key hcert =>
    intro h cert' block hcert' hblock hmatch
    show ∃ block', (evictBlock k.blocks key cert.payloadDigest)[h]? = some block' ∧ _
    unfold evictBlock
    split
    · next hany =>
      rw [ExtTreeMap.getElem?_erase]
      split
      · -- the evicted block would be the matching one
        next heq =>
        obtain rfl := compare_eq_iff_eq.mp heq
        rw [hcert] at hcert'
        cases hcert'
        rw [hblock] at hany
        exact absurd hmatch (by simpa using hany)
      · exact ⟨block, hblock, hmatch⟩
    · exact ⟨block, hblock, hmatch⟩
  | overwrite hcons hcert hdigest =>
    refine keepsMatching_insert fun cert' hcert' => ?_
    rw [hcert] at hcert'
    cases hcert'
    exact hdigest.symm
  | @storeNew new hcons =>
    intro h cert block hcert hblock hmatch
    refine ⟨block, ?_, hmatch⟩
    show (k.blocks.insertIfNew new.certHash new)[h]? = some block
    rw [ExtTreeMap.getElem?_insertIfNew]
    split
    · -- the place is taken
      next hnew =>
      rw [compare_eq_iff_eq.mp hnew.1, ExtTreeMap.mem_iff_isSome_getElem?, hblock] at hnew
      exact absurd rfl hnew.2
    · exact hblock
  | @storeOwn p hown hmem =>
    refine keepsMatching_insert fun cert hcert => ?_
    obtain ⟨a, rfl⟩ := hown
    -- the stored certificate has the hash of the own one
    have hhash : cert.hash C.blake3 = (a.propose C).cert.hash C.blake3 :=
      hb.reachable.wellFormed.hashed hcert
    obtain ⟨-, -, -, hdigest⟩ :=
      encode_inj (hcol cert (a.propose C).cert (.inl ⟨_, hcert⟩) (.inr ⟨_, hmem⟩) hhash)
    exact hdigest.symm
  | _ => exact .refl k

/-- Distinct hashes of what is stored or signed. -/
theorem noCollision_known {blake3 : List UInt8 → Bytes32} (hdistinct :
    ((k.dag.certs.toList.map Prod.snd ++ k.proposals.map Prod.fst).map
      (Certificate.hash blake3)).Nodup) : NoCollision blake3 k.Known := by
  refine noCollision_of_nodup hdistinct fun c hc => ?_
  rcases hc with ⟨h, hc⟩ | ⟨block, hc⟩
  · exact List.mem_append_left _
      (List.mem_map_of_mem (ExtTreeMap.mem_toList_iff_getElem?_eq_some.mpr hc))
  · exact List.mem_append_right _ (List.mem_map_of_mem hc)

end Core

/-! ## All interleavings -/

section Interleavings

variable {C : Crypto}

/-- The tasks of a node before the first message. -/
def started (C : Crypto) (manifest : GenesisManifest) (selfId : AuthorityId) (tasks : List Task) :
    Machine State Task := ⟨State.new C manifest selfId, tasks⟩

/-- The core is backed, and so is what each task knows. -/
abbrev AllBacked (C : Crypto) : Machine State Task → Prop :=
  Respects.Holds (fun s => s.core.Backed C) fun t s => t.Backed C s.core

theorem backed_respects : Respects (Task.step C) (fun _ _ => True) (fun s => s.core.Backed C)
    (fun s s' => Grows C s.core s'.core) (fun t s => t.Backed C s.core) where
  keep hb hl _ :=
    have hstep := Task.taskStep _ hb.consistent hl
    ⟨hstep.effect.backed hb, hstep.backed⟩
  guarantee hb hl _ := (Task.taskStep _ hb.consistent hl).effect.grows
  stable _ hl hg := hl.mono hg

/-- The same, with what the stored blocks keep where certificates do not collide. -/
theorem matching_respects : Respects (Task.step C) (fun _ s => NoCollision C.blake3 s.core.Known)
    (fun s => s.core.Backed C)
    (fun s s' => Grows C s.core s'.core ∧ KeepsMatching s.core s'.core)
    (fun t s => t.Backed C s.core) where
  keep hb hl _ := backed_respects.keep hb hl trivial
  guarantee hb hl hcol :=
    have hstep := Task.taskStep _ hb.consistent hl
    ⟨hstep.effect.grows, hstep.effect.keepsMatching hb hcol⟩
  stable hb hl hg := hl.mono hg.1

theorem backed_started (manifest : GenesisManifest) (selfId : AuthorityId) {tasks : List Task}
    (hidle : ∀ t ∈ tasks, t.idle = true) : AllBacked C (started C manifest selfId tasks) := by
  refine ⟨⟨.refl, fun h block hb => ?_, fun e he => by cases he⟩, fun t ht => ?_⟩
  · have hb : (∅ : ExtTreeMap CertHash BlockPayload)[h]? = some block := hb
    simp at hb
  · have hidle := hidle t ht
    cases t with
    | inbox isDynamic messages pc =>
      cases pc with
      | idle => trivial
      | _ => cases hidle
    | driver ticks pc =>
      cases pc with
      | idle => trivial
      | _ => cases hidle
    | client requests => trivial

/-- Certificates that do not collide at the end did not collide before. -/
theorem along_noCollision : ∀ {schedule : List Nat} {m : Machine State Task},
    AllBacked C m →
    NoCollision C.blake3 (m.run (Task.step C) schedule).shared.core.Known →
    Runs.Along (Machine.step (Task.step C)) (Picked fun _ s => NoCollision C.blake3 s.core.Known)
      schedule m := by
  intro schedule
  induction schedule with
  | nil => exact fun _ _ => trivial
  | cons i schedule ih =>
    intro m hm hcol
    have hgrows := backed_respects.across (fun s => Grows.refl s.core) Grows.trans hm
      (along_true (Task.step C) (i :: schedule) m)
    refine ⟨fun t ht c d hc hd => hcol c d (hgrows.known hc) (hgrows.known hd), ?_⟩
    exact ih (backed_respects.machine_step hm fun _ _ => trivial) hcol

/-- **Executed blocks are the signed ones, and matching blocks stay**: for any tasks (inboxes of any
    number of peers, the round driver, clients) and any schedule, cut anywhere. -/
theorem executed_blocks_signed {manifest : GenesisManifest} {selfId : AuthorityId} {tasks : List Task}
    (hidle : ∀ t ∈ tasks, t.idle = true) (first rest : List Nat)
    (hcol : NoCollision C.blake3
      ((started C manifest selfId tasks).run (Task.step C) (first ++ rest)).shared.core.Known) :
    let m := (started C manifest selfId tasks).run (Task.step C) first
    let m' := m.run (Task.step C) rest
    (∀ e ∈ m'.shared.executions, ∃ cert, m'.shared.dag.get e.cert = some cert ∧
      computePayloadDigest C.blake3 e.intents e.governanceAuth = cert.payloadDigest) ∧
    ∀ h cert block, m.shared.dag.get h = some cert → m.shared.blocks[h]? = some block →
      block.payloadDigest = cert.payloadDigest →
      ∃ block', m'.shared.blocks[h]? = some block' ∧ block'.payloadDigest = cert.payloadDigest ∧
        computePayloadDigest C.blake3 block'.intents block'.governanceAuth = cert.payloadDigest := by
  intro m m'
  have hm := backed_respects.run (backed_started manifest selfId hidle) (along_true (Task.step C) first _)
  have hm' := backed_respects.run hm (along_true (Task.step C) rest _)
  rw [Machine.run_append] at hcol
  refine ⟨fun e he => ?_, fun h cert block hcert hblock hmatch => ?_⟩
  · obtain ⟨cert, hcert, -, hdigest⟩ := hm'.1.bound e he
    exact ⟨cert, hcert, hdigest⟩
  · have hkeep := matching_respects.across (fun s => ⟨.refl s.core, .refl s.core⟩)
      (fun hst htu => ⟨hst.1.trans htu.1, hst.2.trans hst.1 htu.2⟩) hm (along_noCollision hm hcol)
    obtain ⟨block', hstored, hdigest⟩ := hkeep.2 h cert block hcert hblock hmatch
    exact ⟨block', hstored, hdigest,
      (of_decide_eq_true (hm'.1.consistent h block' hstored)).trans hdigest⟩

end Interleavings

/-! ## A race with a forged block

    One authority signs a chain of three certificates.  A second peer sends a block for the first of
    them that digests itself and that nobody signed. -/

/-- Authority 0 alone. -/
def soloManifest : GenesisManifest :=
  ⟨List.replicate 32 7, [⟨0, 100000, 25000, briefKey 0⟩], [], 0⟩

def chain2 : CertHash × Certificate :=
  (0x244ca0eeec1d60e0fbc263a21fe74e39123d86ea13e5eb8cffe2d26f96390d31#256,
    ⟨0, 2, [first0.1], emptyPayload, []⟩)

def forgedBlock : BlockPayload :=
  ⟨computePayloadDigest Blake3.hash [.exitAuthority 0] [], 0, 0, root0.1, [.exitAuthority 0], []⟩

/-- The peer that relays the chain, and the one that forges. -/
def racingTasks : List Task :=
  [.inbox false [.cert (briefSigned root0), .block (emptyBlock root0), .cert (briefSigned first0),
      .cert (briefSigned chain2), .vote ⟨0, root0.1⟩] .idle,
    .inbox false [.block forgedBlock] .idle]

/-- The forger looks, the certificate and its authentic block arrive. -/
def looked : List Nat := [1, 1] ++ List.replicate 16 0

/-- The forger writes, the rest of the chain arrives. -/
def wrote : List Nat := [1] ++ List.replicate 57 0

/-- **The forger looks before the certificate arrives and writes after the authentic block**: the
    authentic one is executed. -/
theorem executed_blocks_signed_raced :
    let m := (started briefScheme soloManifest 1 racingTasks).run (Task.step briefScheme) looked
    let m' := m.run (Task.step briefScheme) wrote
    (m.shared.dag.get root0.1 = some (briefSigned root0) ∧
      m.shared.blocks[root0.1]? = some (emptyBlock root0) ∧
      m.tasks.map Task.idle = [true, false] ∧
      blockPayloadIsConsistent briefScheme.blake3 forgedBlock = true ∧
      m'.shared.core.executed = [root0.1]) ∧
    (∀ e ∈ m'.shared.executions, ∃ cert, m'.shared.dag.get e.cert = some cert ∧
      computePayloadDigest briefScheme.blake3 e.intents e.governanceAuth = cert.payloadDigest) ∧
    ∃ block', m'.shared.blocks[root0.1]? = some block' ∧ block'.payloadDigest = emptyPayload := by
  have hidle : ∀ t ∈ racingTasks, t.idle = true := by decide +kernel
  have hcol : NoCollision briefScheme.blake3 ((started briefScheme soloManifest 1 racingTasks).run
      (Task.step briefScheme) (looked ++ wrote)).shared.core.Known :=
    noCollision_known (by decide +kernel)
  obtain ⟨hexecuted, hkeep⟩ := executed_blocks_signed hidle looked wrote hcol
  refine ⟨by decide +kernel, hexecuted, ?_⟩
  obtain ⟨block', hstored, hdigest, -⟩ := hkeep root0.1 (briefSigned root0) (emptyBlock root0)
    (by decide +kernel) (by decide +kernel) rfl
  exact ⟨block', hstored, hdigest⟩

end SuwappuDag.Node
