/-
  A CLUSTER OF NODES, and where an executed block comes from.

  1. **Runs** — a cluster is a state for each node; an event is one action at one node.  What the
     network does is left to the events: any message may come in at any node, any number of times.
  2. **Honest authors** — `SignedBefore`: a certificate that passes the signature check has been signed
     by the round driver of some node.  Blocks and votes need no such rule.
  3. **The way back** — executed block → certificate in the store → PROPOSAL with the same digest →
     mempool → accepted submission.  `executed_is_proposed` is the first half, `Proposed.count` the
     second.
-/
import SuwappuDag.Node.Ledger

namespace SuwappuDag.Node

open Words Consensus Execution
open Std (ExtTreeMap)

/-! ## Clusters and their runs -/

abbrev Cluster (N : Type) := N → State

section Runs

variable (C : Crypto) {N : Type} [DecidableEq N]

def Cluster.new (manifest : GenesisManifest) (selfId : N → AuthorityId) : Cluster N :=
  fun i => State.new C manifest (selfId i)

/-- One action at one node. -/
def Cluster.step (c : Cluster N) (e : N × Action) : Cluster N :=
  Function.update c e.1 (e.2.exec C (c e.1))

def Cluster.run (events : List (N × Action)) (c : Cluster N) : Cluster N :=
  events.foldl (Cluster.step C) c

/-- Every event of the run meets `P` at the cluster it finds. -/
def Along (P : Cluster N → N × Action → Prop) : List (N × Action) → Cluster N → Prop
  | [], _ => True
  | e :: events, c => P c e ∧ Along P events (c.step C e)

instance decidableAlong (P : Cluster N → N × Action → Prop) [∀ c e, Decidable (P c e)] :
    ∀ (events : List (N × Action)) (c : Cluster N), Decidable (Along C P events c)
  | [], _ => .isTrue trivial
  | e :: events, c => @instDecidableAnd _ _ _ (decidableAlong P events (c.step C e))

/-- **No forged certificate**: one that passes the signature check at a node carries a digest that
    some node has signed. -/
def SignedBefore (c : Cluster N) : N × Action → Prop
  | (i, .receive _ (.cert cert)) => authored C (c i).committee.authorityRegistry cert = true →
      ∃ j, ∃ p ∈ (c j).proposals, p.1.hash C.blake3 = cert.hash C.blake3
  | _ => True

instance [Fintype N] (c : Cluster N) (e : N × Action) : Decidable (SignedBefore C c e) := by
  unfold SignedBefore
  split <;> infer_instance

end Runs

section Rules

variable {C : Crypto} {N : Type} [DecidableEq N]

/-- **The invariant rule.** -/
theorem Along.invariant {P : Cluster N → N × Action → Prop} {I : Cluster N → Prop}
    (hstep : ∀ c e, I c → P c e → I (c.step C e)) : ∀ {events : List (N × Action)} {c : Cluster N},
      I c → Along C P events c → I (c.run C events) := by
  intro events
  induction events with
  | nil => exact fun hc _ => hc
  | cons e events ih => exact fun hc ha => ih (hstep _ e hc ha.1) ha.2

variable {c : Cluster N}

/-- What holds at every node, step by step. -/
theorem NodeInvariant.step {Q : Certificate → Prop} {R : BlockPayload → Prop} {P : State → Prop}
    (inv : NodeInvariant C Q R P) {e : N × Action} (hc : ∀ i, P (c i))
    (hd : e.2.Delivers C Q R (c e.1)) (i : N) : P (c.step C e i) := by
  unfold Cluster.step
  by_cases hi : i = e.1
  · subst hi
    rw [Function.update_self]
    exact inv.exec (hc _) hd
  · rw [Function.update_of_ne hi]
    exact hc i

variable {events : List (N × Action)}

/-- What holds at every node of every run, whatever comes in. -/
theorem NodeInvariant.cluster {P : State → Prop}
    (inv : NodeInvariant C (fun _ => True) (fun _ => True) P) (hc : ∀ i, P (c i)) (i : N) :
    P (c.run C events i) := by
  induction events generalizing c with
  | nil => exact hc i
  | cons e events ih => exact ih fun j => inv.step hc (delivers_true _ _) j

/-! ## Proposals -/

/-- Proposals stay. -/
theorem proposals_nodeInvariant (past : List (Certificate × BlockPayload)) :
    NodeInvariant C (fun _ => True) (fun _ => True) (fun s => past <+: s.proposals) where
  need h hs := hs
  execute hs _ _ _ := (executeCert_frame (fun s => past <+: s.proposals) (by intros; rfl)).mpr hs
  eject hs := hs
  insert hs _ _ _ := hs
  buffer missing hs _ := (bufferOrphan_frame (fun s => past <+: s.proposals) (by intros; rfl)).mpr hs
  waiting _ _ := trivial
  vote v hs := hs
  store hs _ := hs
  author timedOut signature hs := by
    unfold authorRound
    split
    · exact hs
    split
    · exact hs
    · exact hs.trans (List.prefix_append _ _)
  accept intent limited nowMs hs := hs
  remember hash auth hs := hs

theorem proposals_step (c : Cluster N) (e : N × Action) (j : N) :
    (c j).proposals <+: (c.step C e j).proposals := by
  by_cases hj : j = e.1
  · subst hj
    rw [Cluster.step, Function.update_self]
    exact (proposals_nodeInvariant _).exec (List.prefix_refl _) (delivers_true _ _)
  · rw [Cluster.step, Function.update_of_ne hj]

theorem proposals_run (events : List (N × Action)) (c : Cluster N) (j : N) :
    (c j).proposals <+: (c.run C events j).proposals := by
  induction events generalizing c with
  | nil => exact List.prefix_refl _
  | cons e events ih => exact (proposals_step c e j).trans (ih (c.step C e))

/-- A digest signed by some node. -/
def Cluster.Proposes (C : Crypto) (c : Cluster N) (h : CertHash) : Prop :=
  ∃ j, ∃ p ∈ (c j).proposals, p.1.hash C.blake3 = h

/-- What has been signed before an event has been signed at the end. -/
theorem Along.delivers {c final : Cluster N} (ha : Along C (SignedBefore C) events c)
    (hfinal : c.run C events = final) :
    Along C (fun c e => e.2.Delivers C (fun cert => final.Proposes C (cert.hash C.blake3))
      (fun _ => True) (c e.1)) events c := by
  induction events generalizing c with
  | nil => trivial
  | cons e events ih =>
    refine ⟨?_, ih ha.2 hfinal⟩
    obtain ⟨i, action⟩ := e
    have hhead := ha.1
    unfold Action.Delivers
    split
    · next isDynamic cert heq =>
      intro hauth
      have heq : action = .receive isDynamic (.cert cert) := heq
      subst heq
      obtain ⟨j, p, hp, hhash⟩ := hhead hauth
      exact ⟨j, p, (hfinal ▸ proposals_run _ c j).subset hp, hhash⟩
    · trivial
    · trivial

/-! ## Where stored certificates come from -/

/-- Every certificate in the store has a digest in `H` or one that the node has signed itself; those
    that wait have one in `H`. -/
structure Sourced (C : Crypto) (H : CertHash → Prop) (s : State) : Prop where
  stored : ∀ (h : CertHash) (cert : Certificate), s.dag.get h = some cert →
    H h ∨ ∃ p ∈ s.proposals, p.1.hash C.blake3 = h
  waiting : ∀ (h : CertHash), ∀ cert ∈ s.orphans[h]?.getD [], H (cert.hash C.blake3)

theorem sourced_new (H : CertHash → Prop) (manifest : GenesisManifest) (selfId : AuthorityId) :
    Sourced C H (State.new C manifest selfId) where
  stored h cert hget := by
    rw [show (State.new C manifest selfId).dag = DagStore.new from rfl, DagStore.get_new] at hget
    cases hget
  waiting h cert hmem := by
    have hmem : cert ∈ (∅ : ExtTreeMap CertHash (List Certificate))[h]?.getD [] := hmem
    simp at hmem

variable {H : CertHash → Prop}

variable {s : State}

theorem sourced_onInserted (hs : Sourced C H s) {cert : Certificate} {h : CertHash} {dag : DagStore}
    (hq : H (cert.hash C.blake3)) (hins : s.dag.insert C.blake3 cert = .ok (h, dag)) :
    Sourced C H (onInserted s cert h dag) := by
  refine ⟨?_, ?_⟩
  · intro k c hget
    rcases DagStore.get_insert_cases hins hget with ⟨rfl, -⟩ | hold
    · exact .inl hq
    · exact hs.stored k c hold
  · intro k c hmem
    have hmem : c ∈ (s.orphans.erase h)[k]?.getD [] := hmem
    rw [ExtTreeMap.getElem?_erase] at hmem
    split at hmem
    · cases hmem
    · exact hs.waiting k c hmem

theorem sourced_bufferOrphan (hs : Sourced C H s) {cert : Certificate} (hq : H (cert.hash C.blake3))
    (missing : CertHash) : Sourced C H (bufferOrphan s cert missing) := by
  unfold bufferOrphan
  split
  · exact hs
  refine ⟨hs.stored, ?_⟩
  intro k c hmem
  have hmem : c ∈ (s.orphans.insert missing (s.orphans[missing]?.getD [] ++ [cert]))[k]?.getD [] := hmem
  rw [ExtTreeMap.getElem?_insert] at hmem
  split at hmem
  · rcases List.mem_append.mp hmem with hold | hnew
    · exact hs.waiting missing c hold
    · rw [List.mem_singleton.mp hnew]
      exact hq
  · exact hs.waiting k c hmem

theorem sourced_authorRound (hs : Sourced C H s) (timedOut : Bool) (signature : List UInt8) :
    Sourced C H (authorRound C s timedOut signature).1 := by
  unfold authorRound
  split
  · exact hs
  split
  · exact hs
  refine ⟨?_, hs.waiting⟩
  intro k c hget
  have hold : s.dag.get k = some c → H k ∨ ∃ p ∈ s.proposals ++
      [((draft C s signature).cert, (draft C s signature).block)], p.1.hash C.blake3 = k := by
    intro hold
    exact (hs.stored k c hold).imp id fun ⟨p, hp, hk⟩ => ⟨p, List.mem_append_left _ hp, hk⟩
  have hget : (publish C s (draft C s signature)).dag.get k = some c := hget
  rcases dag_publish_cases C s (draft C s signature) with ⟨h, hins⟩ | heq
  · rcases DagStore.get_insert_cases hins hget with ⟨rfl, -⟩ | hget
    · exact .inr ⟨_, List.mem_append_right _ List.mem_cons_self, rfl⟩
    · exact hold hget
  · rw [heq] at hget
    exact hold hget

theorem sourced_nodeInvariant :
    NodeInvariant C (fun cert => H (cert.hash C.blake3)) (fun _ => True) (Sourced C H) where
  need h hs := ⟨hs.stored, hs.waiting⟩
  execute := by
    intro s h cert block hs _ _ _
    refine ⟨?_, ?_⟩
    · rw [executeCert_dag, executeCert_frame State.proposals (by intros; rfl)]; exact hs.stored
    · rw [executeCert_frame State.orphans (by intros; rfl)]; exact hs.waiting
  eject hs := ⟨hs.stored, hs.waiting⟩
  insert hs hq _ hins := sourced_onInserted hs hq hins
  buffer missing hs hq := sourced_bufferOrphan hs hq missing
  waiting hs hmem := hs.waiting _ _ hmem
  vote v hs := ⟨hs.stored, hs.waiting⟩
  store hs _ := ⟨hs.stored, hs.waiting⟩
  author timedOut signature hs := sourced_authorRound hs timedOut signature
  accept intent limited nowMs hs := ⟨hs.stored, hs.waiting⟩
  remember hash auth hs := ⟨hs.stored, hs.waiting⟩

/-! ## Where proposed intents come from -/

def State.proposedIntents (s : State) : List Intent := s.proposals.flatMap fun p => p.2.intents

/-- A proposal is digested as it stands, and every copy of an intent that is proposed or queued has
    been accepted. -/
structure Proposed (C : Crypto) (s : State) : Prop where
  digest : ∀ p ∈ s.proposals,
    computePayloadDigest C.blake3 p.2.intents p.2.governanceAuth = p.1.payloadDigest
  count : ∀ x, s.proposedIntents.count x + s.mempool.intents.count x ≤ s.accepted.count x

theorem proposed_new (manifest : GenesisManifest) (selfId : AuthorityId) :
    Proposed C (State.new C manifest selfId) where
  digest p hp := by cases hp
  count x := by
    have hempty : (State.new C manifest selfId).mempool.intents = [] := by
      show (∅ : ExtTreeMap EntryKey Entry).toList.map _ = []
      simp
    rw [hempty]
    exact Nat.zero_le _

theorem proposed_authorRound (hs : Proposed C s) (timedOut : Bool) (signature : List UInt8) :
    Proposed C (authorRound C s timedOut signature).1 := by
  unfold authorRound
  split
  · exact hs
  split
  · exact hs
  refine ⟨?_, ?_⟩
  · intro p hp
    rcases List.mem_append.mp hp with hp | hp
    · exact hs.digest p hp
    · rw [List.mem_singleton.mp hp]
      rfl
  · intro x
    have hdrain := Mempool.count_drainForBlock maxIntentsPerBlock s.mempool x
    have hcount := hs.count x
    show ((s.proposals ++ [((draft C s signature).cert, (draft C s signature).block)]).flatMap
      fun p => p.2.intents).count x + (s.mempool.drainForBlock maxIntentsPerBlock).2.intents.count x ≤
        s.accepted.count x
    rw [List.flatMap_append, List.count_append, List.flatMap_singleton]
    show s.proposedIntents.count x + (s.mempool.drainForBlock maxIntentsPerBlock).1.count x + _ ≤ _
    omega

theorem proposed_admitIntent (hs : Proposed C s) (intent : Intent) (limited : Option UInt64)
    (nowMs : UInt64) : Proposed C (admitIntent C s intent limited nowMs).2 := by
  refine ⟨hs.digest, ?_⟩
  intro x
  have hcount := hs.count x
  obtain ⟨r, pool, hout⟩ : ∃ r pool, s.mempool.submit C.blake3 intent 0 limited nowMs = (r, pool) :=
    ⟨_, _, rfl⟩
  have hsubmit := Mempool.count_submit hout x
  show s.proposedIntents.count x + (s.mempool.submit C.blake3 intent 0 limited nowMs).2.intents.count x ≤
    (s.accepted ++ if (s.mempool.submit C.blake3 intent 0 limited nowMs).1.isOk then [intent]
      else []).count x
  rw [hout, List.count_append]
  dsimp only
  split
  · next hok =>
    rw [List.count_singleton]
    simp only [hok, true_and, beq_iff_eq] at hsubmit ⊢
    omega
  · next hrefused =>
    rw [if_neg fun h => hrefused h.1] at hsubmit
    omega

theorem proposed_nodeInvariant :
    NodeInvariant C (fun _ => True) (fun _ => True) (Proposed C) where
  need h hs := ⟨hs.digest, hs.count⟩
  execute := by
    intro s h cert block hs _ _ _
    have hproposals : (executeCert C s h cert block).proposals = s.proposals :=
      executeCert_frame State.proposals (by intros; rfl)
    refine ⟨?_, ?_⟩
    · rw [hproposals]; exact hs.digest
    · rw [State.proposedIntents, hproposals, executeCert_frame State.mempool (by intros; rfl),
        executeCert_frame State.accepted (by intros; rfl)]
      exact hs.count
  eject hs := ⟨hs.digest, hs.count⟩
  insert hs _ _ _ := ⟨hs.digest, hs.count⟩
  buffer missing hs _ := by
    unfold bufferOrphan
    split
    · exact hs
    · exact ⟨hs.digest, hs.count⟩
  waiting _ _ := trivial
  vote v hs := ⟨hs.digest, hs.count⟩
  store hs _ := ⟨hs.digest, hs.count⟩
  author timedOut signature hs := proposed_authorRound hs timedOut signature
  accept intent limited nowMs hs := proposed_admitIntent hs intent limited nowMs
  remember hash auth hs := ⟨hs.digest, hs.count⟩

/-! ## From execution back to a proposal -/

/-- BLAKE3 does not collide on what the cluster has stored and signed. -/
structure CollisionFree (C : Crypto) (c : Cluster N) : Prop where
  certs : NoCollision C.blake3 fun cert =>
    (∃ i h, (c i).dag.get h = some cert) ∨ ∃ i, ∃ p ∈ (c i).proposals, p.1 = cert
  payloads : BindsPayloads C.blake3 fun intents auth =>
    (∃ i, ∃ e ∈ (c i).executions, e.intents = intents ∧ e.governanceAuth = auth) ∨
      ∃ i, ∃ p ∈ (c i).proposals, p.2.intents = intents ∧ p.2.governanceAuth = auth

/-- The certificates and payloads of a node are listed. -/
def ListedAt (certs : List Certificate) (payloads : List (List Intent × List (UInt32 × GovAuth)))
    (s : State) : Prop :=
  (∀ e ∈ s.dag.certs.toList, e.2 ∈ certs) ∧
  (∀ p ∈ s.proposals, p.1 ∈ certs ∧ (p.2.intents, p.2.governanceAuth) ∈ payloads) ∧
  ∀ e ∈ s.executions, (e.intents, e.governanceAuth) ∈ payloads

instance (certs : List Certificate) (payloads : List (List Intent × List (UInt32 × GovAuth)))
    (s : State) : Decidable (ListedAt certs payloads s) := by
  unfold ListedAt
  infer_instance

/-- Those of the cluster are listed, with distinct hashes. -/
def Listed (C : Crypto) (certs : List Certificate)
    (payloads : List (List Intent × List (UInt32 × GovAuth))) (c : Cluster N) : Prop :=
  (certs.map (Certificate.hash C.blake3)).Nodup ∧
  (payloads.map fun p => computePayloadDigest C.blake3 p.1 p.2).Nodup ∧
  ∀ i, ListedAt certs payloads (c i)

instance [Fintype N] (certs : List Certificate)
    (payloads : List (List Intent × List (UInt32 × GovAuth))) (c : Cluster N) :
    Decidable (Listed C certs payloads c) := by
  unfold Listed
  infer_instance

omit [DecidableEq N] in
theorem Listed.collisionFree {certs : List Certificate}
    {payloads : List (List Intent × List (UInt32 × GovAuth))} (hc : Listed C certs payloads c) :
    CollisionFree C c where
  certs := by
    refine noCollision_of_nodup hc.1 ?_
    rintro cert (⟨i, h, hget⟩ | ⟨i, p, hp, rfl⟩)
    · exact (hc.2.2 i).1 (h, cert) (ExtTreeMap.mem_toList_iff_getElem?_eq_some.mpr hget)
    · exact ((hc.2.2 i).2.1 p hp).1
  payloads := by
    refine bindsPayloads_of_nodup hc.2.1 ?_
    rintro intents auth (⟨i, e, he, rfl, rfl⟩ | ⟨i, p, hp, rfl, rfl⟩)
    · exact (hc.2.2 i).2.2 e he
    · exact ((hc.2.2 i).2.1 p hp).2

/-- **What is executed has been proposed**: behind every executed block stands the proposal of a node
    with the same certificate and the same intents. -/
theorem executed_is_proposed {manifest : GenesisManifest} {selfId : N → AuthorityId}
    {final : Cluster N} (hfinal : (Cluster.new C manifest selfId).run C events = final)
    (hhonest : Along C (SignedBefore C) events (Cluster.new C manifest selfId))
    (hfree : CollisionFree C final) {i : N} {e : ExecutedBlock} (he : e ∈ (final i).executions) :
    ∃ j, ∃ p ∈ (final j).proposals, p.1.hash C.blake3 = e.cert ∧ p.2.intents = e.intents := by
  have hsourced : Sourced C (final.Proposes C) (final i) := by
    have hrun := Along.invariant (I := fun c => ∀ i, Sourced C (final.Proposes C) (c i))
      (fun c e hc hd => sourced_nodeInvariant.step hc hd)
      (fun i => sourced_new _ manifest (selfId i)) (hhonest.delivers hfinal) i
    exact (congrFun hfinal i : _ = final i) ▸ hrun
  have hgrounded : Grounded C (final i) := by
    rw [← hfinal]
    exact grounded_nodeInvariant.cluster (fun i => grounded_new manifest (selfId i)) i
  have hproposed : ∀ j, Proposed C (final j) := by
    intro j
    rw [← hfinal]
    exact proposed_nodeInvariant.cluster (fun i => proposed_new manifest (selfId i)) j
  obtain ⟨cert, hcert, -, hdigest⟩ := hgrounded.bound e he
  obtain ⟨j, p, hp, hhash⟩ : final.Proposes C e.cert := by
    rcases hsourced.stored _ _ hcert with hsigned | ⟨p, hp, hhash⟩
    · exact hsigned
    · exact ⟨i, p, hp, hhash⟩
  refine ⟨j, p, hp, hhash, ?_⟩
  -- one digest, so one certificate; one payload digest, so one payload
  have hsame : p.1.encode = cert.encode := hfree.certs p.1 cert (.inr ⟨j, p, hp, rfl⟩)
    (.inl ⟨i, _, hcert⟩) (hhash.trans (hgrounded.reachable.wellFormed.hashed hcert).symm)
  obtain ⟨-, -, -, hpayload⟩ := encode_inj hsame
  exact (hfree.payloads _ _ _ _ (.inr ⟨j, p, hp, rfl, rfl⟩) (.inl ⟨i, e, he, rfl, rfl⟩)
    (by rw [(hproposed j).digest p hp, hpayload, hdigest])).1

end Rules

end SuwappuDag.Node
