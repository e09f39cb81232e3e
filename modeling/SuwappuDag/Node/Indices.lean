/-
  THE QUERY INDICES (`suwappu-node/src/rpc_adapter.rs`, `suwappu-node/src/daemon.rs`).

  `blocks_by_round` and `tx_to_block` answer the explorer: which block stands at a round, which block
  holds a transaction.  Both are meant to list COMMITTED blocks.  Two tasks write them: a walk, behind
  `execute_block`, and the round driver, when it PROPOSES a certificate that may never be committed.

  1. **Who writes (`Task.viewStep`)** — of all lock sections of all tasks only these two touch the
     indices, and only `execute_block` touches the substrate and the latest header.
  2. **Entries of an index (`getElem?_indexIntents`)** — an entry is an old one, or names the block and
     a position in it.
  3. **Every schedule (`query_indices_committed`)** — the indices list committed blocks as long as the
     driver publishes executed blocks only; and a driver that publishes anything else leaves an entry
     that does not.  A node alone does so in its first round (`proposal_shown_as_committed`).
-/
import SuwappuDag.Node.Linearisation

namespace SuwappuDag.Node

open Words Consensus Execution Interleave
open Runs (along_of_cuts)
open Std (ExtTreeMap)

/-! ## `epoch_snapshot` -/

structure EpochView where
  current : UInt64
  lastBoundaryRound : UInt64
  roundsPerEpoch : UInt64
  latestCommittedRound : UInt64
deriving DecidableEq

/-- The latest committed round is the last key of `blocks_by_round`, and 0 if there is none. -/
def epochSnapshot (s : State) : EpochView :=
  ⟨s.epoch.current, s.epoch.lastBoundaryRound, s.epoch.roundsPerEpoch, s.blocksByRound.keys.getLast?.getD 0⟩

/-! ## Who writes -/

/-- What is shown of executed blocks. -/
structure Views where
  blocksByRound : ExtTreeMap Round CertHash
  txToBlock : ExtTreeMap Bytes32 (Round × CertHash × Nat)
  latestBridgeHeader : Option (UInt64 × Bytes32)
  substrate : InMemorySubstrate

def State.views (s : State) : Views :=
  ⟨s.blocksByRound, s.txToBlock, s.latestBridgeHeader, s.substrate⟩

section Views

variable {C : Crypto}

/-- What a lock section does to the views. -/
inductive ViewStep (C : Crypto) (t : Task) (s s' : State) : Prop where
  | same (h : s'.views = s.views)
  | execute {isDynamic : Bool} {messages : List WireMessage} {p : Sweep} {c : Claim}
      (ht : t = .inbox isDynamic messages (.commit (.execute p c))) (hs : s' = executeClaim C s c)
  | mark {ticks : List (Bool × List UInt8)} {p : Proposal} (ht : t = .driver ticks (.mark p))
      (hs : s' = markProposed C s p)

theorem CommitPc.views_step (pc : CommitPc) (s : State) (hpc : ∀ p c, pc ≠ .execute p c) :
    (pc.step C s).2.views = s.views := by
  cases pc with
  | execute p c => exact absurd rfl (hpc p c)
  | slot w round => rw [step]; split <;> rfl
  | fetch p h => rw [step]; split <;> rfl
  | bind p h cert => rw [step]; split <;> rfl
  | claim p c => rw [step]; split <;> rfl
  | boundary p c => rw [step]; split <;> rfl
  | seatAuthority p id stake key queued => rw [step]; split <;> rfl
  | unseat p id queued => rw [step]; split <;> rfl
  | _ => rfl

theorem IngestPc.views_step (pc : IngestPc) (s : State) : (pc.step C s).2.views = s.views := by
  cases pc with
  | insert i cert => rw [step]; split <;> rfl
  | buffer i cert missing => rw [step, bufferOrphan]; split <;> rfl
  | _ => rfl

theorem DriverPc.views_step (pc : DriverPc) (s : State) (hpc : ∀ p, pc ≠ .mark p) :
    (pc.step C s).2.views = s.views := by
  cases pc with
  | mark p => exact absurd rfl (hpc p)
  | envelope a intent idx todo => rw [step]; split <;> rfl
  | _ => rfl

theorem Request.views_exec (request : Request) (s : State) :
    (request.exec C s).views = s.views := by
  have inv : ClientInvariant C fun t => t.views = s.views :=
    ⟨fun _ _ _ h => h, fun _ _ h => h⟩
  cases request with
  | tcp ambient msg => exact inv.handleClient ambient msg (P := fun t => t.views = s.views) rfl
  | rpc bytes decoded signature hash nowMs =>
    exact inv.submitIntent bytes decoded signature hash nowMs (P := fun t => t.views = s.views) rfl

/-- **Two sections write the views.** -/
theorem Task.viewStep (t : Task) (s : State) : ViewStep C t s (t.step C s).2 := by
  cases t with
  | inbox isDynamic messages pc =>
    cases pc with
    | idle => cases messages <;> exact .same rfl
    | ingest pc =>
      cases pc with
      | done inserted => exact .same rfl
      | _ => exact .same (IngestPc.views_step _ s)
    | commit pc =>
      cases pc with
      | done => exact .same rfl
      | execute p c => exact .execute rfl rfl
      | _ => exact .same (CommitPc.views_step _ s (by simp))
    | _ => exact .same rfl
  | driver ticks pc =>
    cases pc with
    | idle => cases ticks <;> exact .same rfl
    | mark p => exact .mark rfl rfl
    | _ => exact .same (DriverPc.views_step _ s (by simp))
  | client requests =>
    cases requests with
    | nil => exact .same rfl
    | cons request requests => exact .same (request.views_exec s)

end Views

/-! ## Entries of the transaction index -/

/-- An entry was there before, or names the block and the position of an intent in it. -/
theorem getElem?_indexIntents {C : Crypto} {index : ExtTreeMap Bytes32 (Round × CertHash × Nat)}
    {h : CertHash} {round : Round} {intents : List Intent} {tx : Bytes32}
    {entry : Round × CertHash × Nat}
    (hentry : (indexIntents C index h round intents)[tx]? = some entry) :
    index[tx]? = some entry ∨
      ∃ i intent, entry = (round, h, i) ∧ intents[i]? = some intent ∧
        intentHash C.blake3 intent = tx := by
  have hfold : ∀ (entries : List (Intent × Nat)) (index : ExtTreeMap Bytes32 (Round × CertHash × Nat)),
      (entries.foldl (fun index e => index.insert (intentHash C.blake3 e.1) (round, h, e.2)) index)[tx]? =
        some entry → index[tx]? = some entry ∨
          ∃ e ∈ entries, entry = (round, h, e.2) ∧ intentHash C.blake3 e.1 = tx := by
    intro entries
    induction entries with
    | nil => exact fun _ hold => .inl hold
    | cons e entries ih =>
      intro index hnew
      rcases ih _ hnew with hold | ⟨e', he', hspec⟩
      · rw [ExtTreeMap.getElem?_insert] at hold
        split at hold
        · next heq =>
          exact .inr ⟨e, List.mem_cons_self, (Option.some.inj hold).symm,
            Std.LawfulEqCmp.eq_of_compare heq⟩
        · exact .inl hold
      · exact .inr ⟨e', List.mem_cons_of_mem _ he', hspec⟩
  rcases hfold _ _ hentry with hold | ⟨e, he, rfl, htx⟩
  · exact .inl hold
  · exact .inr ⟨e.2, e.1, rfl, List.mem_zipIdx_iff_getElem?.mp he, htx⟩

/-! ## Committed blocks only -/

/-- `h` is a certificate of round `r` and has been claimed by a walk. -/
def State.CommittedAt (s : State) (r : Round) (h : CertHash) : Prop :=
  h ∈ s.committed ∧ ∃ cert, s.dag.get h = some cert ∧ cert.round = r

/-- The intent at position `i` of the executed block of `h` hashes to `tx`. -/
def State.ExecutedAs (C : Crypto) (s : State) (h : CertHash) (i : Nat) (tx : Bytes32) : Prop :=
  ∃ e ∈ s.executions, e.cert = h ∧ ∃ intent, e.intents[i]? = some intent ∧
    intentHash C.blake3 intent = tx

structure IndicesCommitted (C : Crypto) (s : State) : Prop where
  rounds : ∀ {r h}, s.blocksByRound[r]? = some h → s.CommittedAt r h
  txs : ∀ {tx r h i}, s.txToBlock[tx]? = some (r, h, i) → s.CommittedAt r h ∧ s.ExecutedAs C h i tx

/-- The head shown to clients is 0 or the round of a committed certificate. -/
def HeadCommitted (s : State) : Prop :=
  (epochSnapshot s).latestCommittedRound = 0 ∨
    ∃ h, s.CommittedAt (epochSnapshot s).latestCommittedRound h

/-- The proposal that the driver is about to publish. -/
def Task.publishes : Task → Option Proposal
  | .driver _ (.mark p) => some p
  | _ => none

/-- A block of this certificate, with this round and these intents, has been executed. -/
def PublishesExecuted (t : Task) (s : State) : Prop :=
  ∀ p ∈ t.publishes, ∃ e ∈ s.executions,
    e.cert = p.hash ∧ e.round = p.cert.round ∧ e.intents = p.block.intents

instance decidablePublishesExecuted (t : Task) (s : State) : Decidable (PublishesExecuted t s) :=
  Option.decidableForallMem _

def PublishesCommitted (t : Task) (s : State) : Prop :=
  ∀ p ∈ t.publishes, s.CommittedAt p.cert.round p.hash

section Committed

variable {C : Crypto}

theorem IndicesCommitted.head {s : State} (h : IndicesCommitted C s) : HeadCommitted s := by
  unfold HeadCommitted epochSnapshot
  dsimp only
  cases hlast : s.blocksByRound.keys.getLast? with
  | none => exact .inl rfl
  | some r =>
    have hmem : r ∈ s.blocksByRound := ExtTreeMap.mem_keys.mp (List.mem_of_getLast? hlast)
    obtain ⟨k, hk⟩ := Option.isSome_iff_exists.mp (ExtTreeMap.mem_iff_isSome_getElem?.mp hmem)
    exact .inr ⟨k, h.rounds hk⟩

theorem LogStep.claims {held held' : Option CertHash} {k k' : Core} (h : LogStep held k held' k') :
    k.committed <+: k'.committed := by
  cases h with
  | same hclaims => exact hclaims ▸ List.prefix_rfl
  | claim _ hclaims => exact hclaims ▸ List.prefix_append _ _
  | execute hclaims => exact hclaims ▸ List.prefix_rfl

/-- What a step of a task leaves of the committed and executed blocks. -/
theorem TaskStep.committedAt {t t' : Task} {s s' : State} (h : TaskStep C t s.core t' s'.core)
    {r : Round} {k : CertHash} (hc : s.CommittedAt r k) : s'.CommittedAt r k := by
  obtain ⟨hmem, cert, hcert, hround⟩ := hc
  exact ⟨h.log.claims.subset hmem, cert, h.effect.grows.dag.get hcert, hround⟩

theorem TaskStep.executedAs {t t' : Task} {s s' : State} (h : TaskStep C t s.core t' s'.core)
    {k : CertHash} {i : Nat} {tx : Bytes32} (he : s.ExecutedAs C k i tx) : s'.ExecutedAs C k i tx := by
  obtain ⟨e, hmem, hspec⟩ := he
  exact ⟨e, h.effect.grows.executions.subset hmem, hspec⟩

/-- A block that has been executed with this round and these intents may be indexed. -/
theorem IndicesCommitted.index {s s' : State} (h : IndicesCommitted C s)
    (hcommitted : ∀ {r k}, s.CommittedAt r k → s'.CommittedAt r k)
    (hexecuted : ∀ {k i tx}, s.ExecutedAs C k i tx → s'.ExecutedAs C k i tx)
    {e : ExecutedBlock} (he : e ∈ s'.executions) (hat : s'.CommittedAt e.round e.cert)
    (hrounds : s'.blocksByRound = s.blocksByRound.insert e.round e.cert)
    (htxs : s'.txToBlock = indexIntents C s.txToBlock e.cert e.round e.intents) :
    IndicesCommitted C s' := by
  constructor
  · intro r k hk
    rw [hrounds, ExtTreeMap.getElem?_insert] at hk
    split at hk
    · next heq =>
      cases Std.LawfulEqCmp.eq_of_compare heq
      cases hk
      exact hat
    · exact hcommitted (h.rounds hk)
  · intro tx r k i hk
    rw [htxs] at hk
    rcases getElem?_indexIntents hk with hold | ⟨j, intent, heq, hintent, htx⟩
    · exact ⟨hcommitted (h.txs hold).1, hexecuted (h.txs hold).2⟩
    · cases heq
      exact ⟨hat, e, he, rfl, intent, hintent, htx⟩

/-- What is executed has been claimed, at the round of its certificate. -/
theorem committedAt_of_executed {m : Machine State Task} (hm : AllBacked C m) (ha : Accounted m)
    {e : ExecutedBlock} (he : e ∈ m.shared.executions) : m.shared.CommittedAt e.round e.cert := by
  obtain ⟨cert, hcert, hround, -⟩ := hm.1.bound e he
  refine ⟨ha.split.subset (List.mem_append_left _ ?_), cert, hcert, hround⟩
  exact List.mem_map_of_mem he

/-- One move. -/
theorem indices_move (m : Machine State Task) (i : Nat)
    (h : AllBacked C m ∧ Accounted m ∧ IndicesCommitted C m.shared)
    (hp : Picked PublishesExecuted m i) :
    AllBacked C (m.step (Task.step C) i) ∧ Accounted (m.step (Task.step C) i) ∧
      IndicesCommitted C (m.step (Task.step C) i).shared := by
  obtain ⟨hbacked, haccounted, hindices⟩ := h
  obtain ⟨hbacked', haccounted'⟩ := accounted_move m i ⟨hbacked, haccounted⟩
  refine ⟨hbacked', haccounted', ?_⟩
  cases ht : m.tasks[i]? with
  | none => simpa only [Machine.step, ht] using hindices
  | some t =>
  simp only [Machine.step, ht] at hbacked' haccounted' ⊢
  have hstep := t.taskStep hbacked.1.consistent (hbacked.2 t (List.mem_of_getElem? ht))
  cases t.viewStep (C := C) m.shared with
  | same hsame =>
    have hrounds : (t.step C m.shared).2.blocksByRound = m.shared.blocksByRound :=
      congrArg Views.blocksByRound hsame
    have htxs : (t.step C m.shared).2.txToBlock = m.shared.txToBlock :=
      congrArg Views.txToBlock hsame
    constructor
    · intro r k hk
      exact hstep.committedAt (hindices.rounds (hrounds ▸ hk))
    · intro tx r k j hk
      obtain ⟨hat, has⟩ := hindices.txs (htxs ▸ hk)
      exact ⟨hstep.committedAt hat, hstep.executedAs has⟩
  | @execute isDynamic messages p c _ hs =>
    have he : ⟨c.hash, c.round, c.intents, c.governanceAuth, m.shared.substrate⟩ ∈
        (t.step C m.shared).2.executions := by
      rw [hs]
      exact List.mem_append_right _ List.mem_cons_self
    exact hindices.index hstep.committedAt hstep.executedAs he
      (committedAt_of_executed hbacked' haccounted' he) (by rw [hs]; rfl) (by rw [hs]; rfl)
  | @mark ticks p hmark hs =>
    subst hmark
    obtain ⟨e, he, hcert, hround, hintents⟩ := hp _ ht p rfl
    have hat := hstep.committedAt (committedAt_of_executed hbacked haccounted he)
    refine hindices.index hstep.committedAt hstep.executedAs
      (hstep.effect.grows.executions.subset he) hat ?_ ?_
    · rw [hs, hcert, hround]
      rfl
    · rw [hs, hcert, hround, hintents]
      rfl

theorem indices_started (manifest : GenesisManifest) (selfId : AuthorityId) :
    IndicesCommitted C (State.new C manifest selfId) := by
  constructor
  · intro r h hk
    have hk : (∅ : ExtTreeMap Round CertHash)[r]? = some h := hk
    simp at hk
  · intro tx r h i hk
    have hk : (∅ : ExtTreeMap Bytes32 (Round × CertHash × Nat))[tx]? = some (r, h, i) := hk
    simp at hk

/-- A published proposal is in the index at once. -/
theorem publishesCommitted_of_indices {m : Machine State Task} {i : Nat}
    (h : IndicesCommitted C (m.step (Task.step C) i).shared) : Picked PublishesCommitted m i := by
  rintro (⟨_, _, _⟩ | ⟨ticks, _ | _ | _ | _ | _ | p | _ | _⟩ | _) ht q ⟨⟩
  simp only [Machine.step, Option.mem_def.mp ht] at h
  have hentry : (markProposed C m.shared p).blocksByRound[p.cert.round]? = some p.hash :=
    ExtTreeMap.getElem?_insert_self
  exact h.rounds hentry

/-- **The query indices.**  Where the driver publishes executed blocks only, every entry of the indices
    is a committed block, at every point of every schedule, and so is the head; and where every entry
    is one, the driver publishes committed certificates only. -/
theorem query_indices_committed {manifest : GenesisManifest} {selfId : AuthorityId}
    {tasks : List Task} (hidle : ∀ t ∈ tasks, t.idle = true) (schedule : List Nat) :
    let m₀ := started C manifest selfId tasks
    (Runs.Along (Machine.step (Task.step C)) (Picked PublishesExecuted) schedule m₀ →
      ∀ first rest, schedule = first ++ rest →
        let s := (m₀.run (Task.step C) first).shared
        IndicesCommitted C s ∧ HeadCommitted s) ∧
    ((∀ first rest, schedule = first ++ rest →
        IndicesCommitted C (m₀.run (Task.step C) first).shared) →
      Runs.Along (Machine.step (Task.step C)) (Picked PublishesCommitted) schedule m₀) := by
  intro m₀
  refine ⟨?_, ?_⟩
  · rintro halong first rest rfl
    have h := Runs.Along.invariant indices_move ⟨backed_started manifest selfId hidle,
      accounted_started (C := C) manifest selfId hidle, indices_started manifest selfId⟩ halong.left
    exact ⟨h.2.2, h.2.2.head⟩
  · intro hall
    refine along_of_cuts fun first i rest hcut => publishesCommitted_of_indices (C := C) ?_
    have hnext := hall (first ++ [i]) rest (by rw [hcut, List.append_assoc]; rfl)
    rwa [Machine.run_append] at hnext

end Committed

/-! ## A proposal is shown as committed -/

/-- The driver of authority 0, alone, for two rounds. -/
def soloDriver : List Task :=
  [.driver [(false, (briefSigned root0).signature), (false, (briefSigned first0).signature)] .idle]

/-- **Two rounds of proposals, and nothing is committed**: both rounds have an entry, and the head is
    round 1. -/
theorem proposal_shown_as_committed :
    let s := ((started briefScheme soloManifest 0 soloDriver).run (Task.step briefScheme)
      (List.replicate 14 0)).shared
    ((∀ t ∈ soloDriver, t.idle = true) ∧ s.committed = [] ∧ s.blocksByRound[(0 : Round)]? = some root0.1 ∧
      (epochSnapshot s).latestCommittedRound = 1) ∧
    ¬ IndicesCommitted briefScheme s ∧ ¬ HeadCommitted s := by
  intro s
  have hfacts : (∀ t ∈ soloDriver, t.idle = true) ∧ s.committed = [] ∧
      s.blocksByRound[(0 : Round)]? = some root0.1 ∧ (epochSnapshot s).latestCommittedRound = 1 := by
    decide +kernel
  obtain ⟨hidle, hnone, hentry, hhead⟩ := hfacts
  have hnobody : ∀ r h, ¬ s.CommittedAt r h := by
    rintro r h ⟨hmem, -⟩
    rw [hnone] at hmem
    cases hmem
  refine ⟨⟨hidle, hnone, hentry, hhead⟩, fun h => hnobody _ _ (h.rounds hentry), ?_⟩
  rintro (hzero | ⟨h, hat⟩)
  · rw [hhead] at hzero
    exact absurd hzero (by decide)
  · exact hnobody _ _ hat

/-- Authority 0 starts afresh: a peer sends it its own chain, and then its driver begins at round 0. -/
def restartedTasks : List Task :=
  [.inbox false [.cert (briefSigned root0), .block (emptyBlock root0), .cert (briefSigned first0),
      .cert (briefSigned chain2), .vote ⟨0, root0.1⟩] .idle,
    .driver [(false, (briefSigned root0).signature)] .idle]

def restarted : List Nat := List.replicate 86 0 ++ List.replicate 7 1

/-- The block it proposes once more is the one it has executed. -/
theorem query_indices_committed_restarted :
    let s := ((started briefScheme soloManifest 0 restartedTasks).run (Task.step briefScheme)
      restarted).shared
    (s.committed = [root0.1] ∧ s.proposals.length = 1 ∧ s.blocksByRound.toList = [(0, root0.1)]) ∧
      IndicesCommitted briefScheme s ∧ HeadCommitted s := by
  have hidle : ∀ t ∈ restartedTasks, t.idle = true := by decide +kernel
  have halong : Runs.Along (Machine.step (Task.step briefScheme)) (Picked PublishesExecuted) restarted
      (started briefScheme soloManifest 0 restartedTasks) := by decide +kernel
  exact ⟨by decide +kernel,
    (query_indices_committed hidle restarted).1 halong restarted [] (List.append_nil _).symm⟩

end SuwappuDag.Node
