/-
  WHAT CLIENTS CAN BRING ABOUT.

  1. **Ingress** — `Action.cleared`: the intents of a submission whose signatures pass.  An intent gets
     into the mempool only so, at most once per message, and only if it is not queued there already
     (`count_accepted_exec`).
  2. **Powers** — seven kinds of intent are left by the substrate to a quorum gate of the daemon.  The
     daemon's gate knows three other kinds, so that ONE seated key is enough for the seven
     (`single_key_rotates_vk`).  They stay out exactly as long as nobody signs them
     (`gated_never_executed`).
  3. **Replay** — the mempool forgets what it hands to a block and nothing else remembers it: the same
     signed bytes can be submitted and executed again (`resubmitted_transfer_pays_twice`).  They are
     executed at most once as long as no submission comes after the intent has left the queue, and
     none at a second node (`applied_at_most_once`).
-/
import SuwappuDag.Node.Cluster
import SuwappuDag.Node.Governance

namespace SuwappuDag.Node

open Words Consensus Execution
open Std (ExtTreeMap)

/-! ## Ingress -/

/-- The intents of a submission that pass its checks. -/
def Action.cleared (C : Crypto) (s : State) : Action → List Intent
  | .client _ (.submit intent signature signer) =>
    if verifySignedIntent C s.committee.authorityRegistry s.networkId intent signature signer = .ok
    then [intent] else []
  | .client _ (.submitBatch intents signatures signer) =>
    if signatures.length = intents.length ∧ ∀ p ∈ intents.zip signatures,
      verifySignedIntent C s.committee.authorityRegistry s.networkId p.1 p.2 signer = .ok
    then intents else []
  | .client _ (.submitGoverned intent auth) =>
    if (verifyGovernedIntent C s.committee.authorityRegistry s.networkId intent auth).isOk
    then [intent] else []
  | .rpc _ (.ok intent) signature signer _ =>
    if verifySignedIntent C s.committee.authorityRegistry s.networkId intent signature signer = .ok
    then [intent] else []
  | _ => []

section Ingress

variable {C : Crypto} {s : State}

theorem AuthOutcome.text_eq_none_iff {batch : String} {outcome : AuthOutcome} :
    outcome.text batch = none ↔ outcome = .ok := by
  cases outcome <;> simp [AuthOutcome.text]

theorem refuseBatch_eq_none {signer : Bytes32} {entries : List (Intent × List UInt8)}
    (h : refuseBatch C s signer entries = none) : ∀ p ∈ entries,
      verifySignedIntent C s.committee.authorityRegistry s.networkId p.1 p.2 signer = .ok := by
  induction entries with
  | nil => exact fun p hp => by cases hp
  | cons e entries ih =>
    obtain ⟨intent, signature⟩ := e
    rw [refuseBatch] at h
    split at h
    · cases h
    · next hnone =>
      exact List.forall_mem_cons.mpr ⟨AuthOutcome.text_eq_none_iff.mp hnone, ih h⟩

/-- The copies of `x` that the mempool would still take: none while it is queued. -/
def openFor (C : Crypto) (s : State) (x : Intent) : Nat :=
  if intentHash C.blake3 x ∈ s.mempool.seen then 0 else 1

/-- **One submission**: what is accepted is no longer open, and only the intent submitted is accepted. -/
theorem accepted_admitIntent (x intent : Intent) (limited : Option UInt64) (nowMs : UInt64) :
    (admitIntent C s intent limited nowMs).2.accepted.count x +
        openFor C (admitIntent C s intent limited nowMs).2 x ≤ s.accepted.count x + openFor C s x ∧
    (intent ≠ x → (admitIntent C s intent limited nowMs).2.accepted.count x = s.accepted.count x) := by
  obtain ⟨r, pool, hout⟩ : ∃ r pool, s.mempool.submit C.blake3 intent 0 limited nowMs = (r, pool) :=
    ⟨_, _, rfl⟩
  obtain ⟨hgrow, haccept⟩ := Mempool.submit_seen hout
  have haccepted : (admitIntent C s intent limited nowMs).2.accepted =
      s.accepted ++ if r.isOk then [intent] else [] := by
    rw [admitIntent, hout]
  have hpool : (admitIntent C s intent limited nowMs).2.mempool = pool := by
    rw [admitIntent, hout]
  have hopen : openFor C (admitIntent C s intent limited nowMs).2 x ≤ openFor C s x := by
    unfold openFor
    rw [hpool]
    by_cases hseen : intentHash C.blake3 x ∈ s.mempool.seen
    · rw [if_pos hseen, if_pos (hgrow hseen)]
    · rw [if_neg hseen]
      split <;> omega
  rw [haccepted, List.count_append]
  by_cases hok : r.isOk = true
  · rw [if_pos hok]
    by_cases hx : intent = x
    · subst hx
      obtain ⟨hnew, hin⟩ := haccept hok
      refine ⟨?_, fun hne => absurd rfl hne⟩
      unfold openFor
      rw [hpool, if_pos hin, if_neg hnew, List.count_singleton_self]
    · have hnone : [intent].count x = 0 := List.count_eq_zero.mpr (by simpa using Ne.symm hx)
      rw [hnone]
      exact ⟨by omega, fun _ => rfl⟩
  · rw [if_neg hok, List.count_nil]
    exact ⟨by omega, fun _ => rfl⟩

/-- A batch, by its submissions. -/
theorem accepted_submitAll (x : Intent) (ambient : Ambient) : ∀ (intents : List Intent) (k : Nat)
    (hashes : List Bytes32) (s : State),
    (submitAll C ambient k intents hashes s).1.accepted.count x +
        openFor C (submitAll C ambient k intents hashes s).1 x ≤ s.accepted.count x + openFor C s x ∧
    (x ∉ intents → (submitAll C ambient k intents hashes s).1.accepted.count x = s.accepted.count x) := by
  intro intents
  induction intents with
  | nil => exact fun _ _ _ => ⟨le_rfl, fun _ => rfl⟩
  | cons intent intents ih =>
    intro k hashes s
    obtain ⟨hopen, hother⟩ := accepted_admitIntent (C := C) (s := s) x intent (ambient.limited k)
      (ambient.nowMs k)
    rw [submitAll]
    split
    · next hash t heq =>
      rw [heq] at hopen hother
      obtain ⟨hrest, hnone⟩ := ih (k + 1) (hashes ++ [intentHash C.blake3 intent]) t
      refine ⟨hrest.trans hopen, fun hout => ?_⟩
      rw [List.mem_cons, not_or] at hout
      exact (hnone hout.2).trans (hother (Ne.symm hout.1))
    · next e t heq =>
      rw [heq] at hopen hother
      exact ⟨hopen, fun hout => hother fun h => hout (h ▸ List.mem_cons_self)⟩

theorem accepted_submitOne (x intent : Intent) (ambient : Ambient) :
    (submitOne C ambient intent s).1.accepted.count x ≤ s.accepted.count x +
      if x ∈ [intent] then openFor C s x else 0 := by
  obtain ⟨hopen, hother⟩ := accepted_admitIntent (C := C) (s := s) x intent (ambient.limited 0)
    (ambient.nowMs 0)
  have hstate : (submitOne C ambient intent s).1 =
      (admitIntent C s intent (ambient.limited 0) (ambient.nowMs 0)).2 := by
    rw [submitOne]
    split <;> next heq => rw [heq]
  rw [hstate]
  by_cases hx : intent = x
  · rw [if_pos (by rw [hx]; exact List.mem_cons_self)]
    omega
  · rw [hother hx]
    exact Nat.le_add_right _ _

theorem accepted_inbox (a : List Intent) :
    InboxInvariant C (fun _ => True) (fun _ => True) (fun s => s.accepted = a) where
  need h hs := hs
  execute hs _ _ _ := (executeCert_frame State.accepted (by intros; rfl)).trans hs
  eject hs := hs
  insert hs _ _ _ := hs
  buffer missing hs _ := (bufferOrphan_frame State.accepted (by intros; rfl)).trans hs
  waiting _ _ := trivial
  vote v hs := hs
  store hs _ := hs

theorem accepted_handleClient (x : Intent) (ambient : Ambient) (msg : ClientMessage) :
    (handleClient C ambient msg s).1.accepted.count x ≤ s.accepted.count x +
      if x ∈ (Action.client ambient msg).cleared C s then openFor C s x else 0 := by
  cases msg with
  | submit intent signature signer =>
    rw [handleClient]
    split
    · exact Nat.le_add_right _ _
    · next hnone =>
      have hcleared : (Action.client ambient (.submit intent signature signer)).cleared C s = [intent] :=
        if_pos (AuthOutcome.text_eq_none_iff.mp hnone)
      rw [hcleared]
      exact accepted_submitOne x intent ambient
  | submitBatch intents signatures signer =>
    rw [handleClient]
    split
    · exact Nat.le_add_right _ _
    next hlen =>
    split
    · exact Nat.le_add_right _ _
    · next hnone =>
      have hcleared : (Action.client ambient (.submitBatch intents signatures signer)).cleared C s =
          intents := if_pos ⟨not_not.mp hlen, refuseBatch_eq_none hnone⟩
      rw [hcleared]
      obtain ⟨hopen, hother⟩ := accepted_submitAll (C := C) x ambient intents 0 [] s
      by_cases hx : x ∈ intents
      · rw [if_pos hx]
        omega
      · rw [hother hx]
        exact Nat.le_add_right _ _
  | ping n => exact Nat.le_add_right _ _
  | submitGoverned intent auth =>
    rw [handleClient]
    split
    · exact Nat.le_add_right _ _
    · next hok =>
      have hcleared : (Action.client ambient (.submitGoverned intent auth)).cleared C s = [intent] :=
        if_pos (by rw [hok]; rfl)
      rw [hcleared]
      exact accepted_submitOne (s := rememberGovernanceEnvelope s _ auth) x intent ambient

theorem accepted_submitIntent (x : Intent) (bytes : List UInt8) (decoded : Except String Intent)
    (signature : List UInt8) (signer : Bytes32) (nowMs : UInt64) :
    (submitIntent C bytes decoded signature signer nowMs s).1.accepted.count x ≤ s.accepted.count x +
      if x ∈ (Action.rpc bytes decoded signature signer nowMs).cleared C s then openFor C s x
      else 0 := by
  unfold submitIntent
  split
  · exact Nat.le_add_right _ _
  next intent =>
  split
  · exact Nat.le_add_right _ _
  · exact Nat.le_add_right _ _
  · exact Nat.le_add_right _ _
  next hok =>
  obtain ⟨hopen, hother⟩ := accepted_admitIntent (C := C) (s := s) x intent none nowMs
  have hcleared : (Action.rpc bytes (.ok intent) signature signer nowMs).cleared C s = [intent] :=
    if_pos hok
  rw [hcleared]
  have hbound : (admitIntent C s intent none nowMs).2.accepted.count x ≤
      s.accepted.count x + if x ∈ [intent] then openFor C s x else 0 := by
    by_cases hx : intent = x
    · rw [if_pos (by rw [hx]; exact List.mem_cons_self)]
      omega
    · rw [hother hx]
      exact Nat.le_add_right _ _
  split
  · next t heq => rwa [heq] at hbound
  · next t heq => rwa [heq] at hbound

/-- **What one action accepts**: nothing but a cleared intent that is open, and that once. -/
theorem accepted_exec (x : Intent) (action : Action) :
    (action.exec C s).accepted.count x ≤ s.accepted.count x +
      if x ∈ action.cleared C s then openFor C s x else 0 := by
  have hsame : ∀ (t : State) (k : Nat), t.accepted = s.accepted →
      t.accepted.count x ≤ s.accepted.count x + k := by
    intro t k ht
    rw [ht]
    exact Nat.le_add_right _ _
  cases action with
  | receive isDynamic msg =>
    exact hsame _ _ ((accepted_inbox s.accepted).receive rfl (delivers_true _ _))
  | commit => exact hsame _ _ ((accepted_inbox s.accepted).tryCommit rfl)
  | tick timedOut signature =>
    refine hsame _ _ ?_
    show (authorRound C s timedOut signature).1.accepted = s.accepted
    unfold authorRound
    split
    · rfl
    split
    · rfl
    · rfl
  | client ambient msg => exact accepted_handleClient x ambient msg
  | rpc bytes decoded signature signer nowMs =>
    exact accepted_submitIntent x bytes decoded signature signer nowMs

end Ingress

section Histories

variable {C : Crypto} {N : Type} [DecidableEq N]

theorem accepted_step (x : Intent) (c : Cluster N) (e : N × Action) (i : N) :
    (c.step C e i).accepted.count x ≤ (c i).accepted.count x +
      if i = e.1 ∧ x ∈ e.2.cleared C (c e.1) then openFor C (c e.1) x else 0 := by
  by_cases hi : i = e.1
  · subst hi
    rw [Cluster.step, Function.update_self]
    simpa using accepted_exec x e.2
  · rw [Cluster.step, Function.update_of_ne hi]
    exact Nat.le_add_right _ _

theorem mem_accepted_step {x : Intent} {c : Cluster N} {e : N × Action} {i : N}
    (hx : x ∈ (c.step C e i).accepted) :
    x ∈ (c i).accepted ∨ i = e.1 ∧ x ∈ e.2.cleared C (c e.1) := by
  have hcount := accepted_step (C := C) x c e i
  have hpos := List.count_pos_iff.mpr hx
  by_cases hnew : i = e.1 ∧ x ∈ e.2.cleared C (c e.1)
  · exact .inr hnew
  · rw [if_neg hnew] at hcount
    exact .inl (List.count_pos_iff.mp (by omega))

/-- **What is executed has been accepted**, at the node that proposed it. -/
theorem executed_is_accepted {manifest : GenesisManifest} {selfId : N → AuthorityId}
    {events : List (N × Action)} {final : Cluster N}
    (hfinal : (Cluster.new C manifest selfId).run C events = final) {j : N}
    {p : Certificate × BlockPayload} (hp : p ∈ (final j).proposals) {x : Intent}
    (hx : x ∈ p.2.intents) : x ∈ (final j).accepted := by
  have hproposed : Proposed C (final j) := by
    rw [← hfinal]
    exact proposed_nodeInvariant.cluster (fun i => proposed_new manifest (selfId i)) j
  have hpos : 0 < (final j).proposedIntents.count x :=
    List.count_pos_iff.mpr (List.mem_flatMap.mpr ⟨p, hp, hx⟩)
  have hcount := hproposed.count x
  exact List.count_pos_iff.mp (by omega)

/-! ## Gated powers -/

/-- The kinds of intent that the substrate leaves to a quorum gate of the daemon. -/
def isQuorumGated : Intent → Bool
  | .setL2VerifyingKey .. => true
  | .addBridgeAsset .. => true
  | .pauseBridgeAsset .. => true
  | .removeBridgeAsset .. => true
  | .disburseTreasury .. => true
  | .claimInsurance .. => true
  | .slashSequencer .. => true
  | _ => false

/-- The keys, by their hashes, of the seated authorities whose valid signature a submission carries. -/
def Action.signers (C : Crypto) (s : State) (action : Action) : List Bytes32 :=
  let valid (intent : Intent) (signature : List UInt8) (signer : Bytes32) : Bool :=
    verifySingleSignature C s.committee.authorityRegistry s.networkId intent signature signer = .ok
  match action with
  | .client _ (.submit intent signature signer) => [signer].filter (valid intent signature)
  | .client _ (.submitBatch intents signatures signer) =>
    (intents.zip signatures).flatMap fun p => [signer].filter (valid p.1 p.2)
  | .client _ (.submitGoverned intent auth) =>
    [auth.sponsorPubkeyHash].filter (valid intent auth.sponsorSignature) ++
      [auth.coSignerPubkeyHash].filter (valid intent auth.coSignature)
  | .rpc _ (.ok intent) signature signer _ => [signer].filter (valid intent signature)
  | _ => []

/-- A submission carries valid signatures of at most one seated authority. -/
def OneSigner (C : Crypto) (c : Cluster N) (e : N × Action) : Prop :=
  (e.2.signers C (c e.1)).dedup.length ≤ 1

instance (c : Cluster N) (e : N × Action) : Decidable (OneSigner C c e) :=
  inferInstanceAs (Decidable ((e.2.signers C (c e.1)).dedup.length ≤ 1))

/-- No submission of a gated intent passes its checks. -/
def NoGatedCleared (C : Crypto) (c : Cluster N) (e : N × Action) : Prop :=
  ∀ x ∈ e.2.cleared C (c e.1), isQuorumGated x = false

instance (c : Cluster N) (e : N × Action) : Decidable (NoGatedCleared C c e) :=
  inferInstanceAs (Decidable (∀ x ∈ e.2.cleared C (c e.1), isQuorumGated x = false))

/-- **Nobody exercises a gated power** at any node of a cluster with honest authors, as long as no
    seated authority signs one. -/
theorem gated_never_executed {manifest : GenesisManifest} {selfId : N → AuthorityId}
    {events : List (N × Action)} {final : Cluster N}
    (hfinal : (Cluster.new C manifest selfId).run C events = final)
    (hhonest : Along C (SignedBefore C) events (Cluster.new C manifest selfId))
    (hfree : CollisionFree C final)
    (hgate : Along C (NoGatedCleared C) events (Cluster.new C manifest selfId)) :
    ∀ i, ∀ e ∈ (final i).executions, ∀ x ∈ e.intents, isQuorumGated x = false := by
  intro i e he x hx
  obtain ⟨j, p, hp, -, hintents⟩ := executed_is_proposed hfinal hhonest hfree he
  have haccepted := executed_is_accepted hfinal hp (hintents ▸ hx)
  have hinv : ∀ j, ∀ x ∈ (final j).accepted, isQuorumGated x = false := by
    rw [← hfinal]
    refine Along.invariant (I := fun c => ∀ j, ∀ x ∈ (c j).accepted, isQuorumGated x = false)
      ?_ (fun j x hx => by cases hx) hgate
    intro c e hc hgate j x hx
    rcases mem_accepted_step hx with hold | ⟨-, hnew⟩
    · exact hc j x hold
    · exact hgate x hnew
  exact hinv j x haccepted

/-! ## Replay -/

/-- The intents that `execute_block` hands to `apply_intent`: those before and at the first failure. -/
def ExecutedBlock.applied (C : Crypto) (e : ExecutedBlock) : List Intent :=
  e.intents.zipIdx.filterMap fun p => if (e.substrateAt C p.2).isSome then some p.1 else none

def State.applied (C : Crypto) (s : State) : List Intent := s.executions.flatMap (ExecutedBlock.applied C)

/-- A selection by index and value is part of the list. -/
theorem selected_sublist (xs : List Intent) (p : Intent × Nat → Prop) [DecidablePred p] :
    (xs.zipIdx.filterMap fun e => if p e then some e.1 else none).Sublist xs := by
  have hsel : ∀ l : List (Intent × Nat),
      (l.filterMap fun e => if p e then some e.1 else none).Sublist (l.map Prod.fst) := by
    intro l
    induction l with
    | nil => exact List.Sublist.refl _
    | cons e l ih =>
      rw [List.filterMap_cons, List.map_cons]
      by_cases he : p e
      · rw [if_pos he]
        exact ih.cons_cons _
      · rw [if_neg he]
        exact ih.cons _
  have hall : xs.zipIdx.map Prod.fst = xs := List.zipIdx_map_fst _ _
  have hsub := hsel xs.zipIdx
  rwa [hall] at hsub

theorem ExecutedBlock.applied_sublist (e : ExecutedBlock) : (e.applied C).Sublist e.intents :=
  selected_sublist e.intents fun p => (e.substrateAt C p.2).isSome = true

/-- A submission of `x` that passes its checks finds it queued, or is the first one anywhere. -/
def FirstUse (C : Crypto) (x : Intent) (c : Cluster N) (e : N × Action) : Prop :=
  x ∈ e.2.cleared C (c e.1) →
    intentHash C.blake3 x ∈ (c e.1).mempool.seen ∨ ∀ j, x ∉ (c j).accepted

instance [Fintype N] (x : Intent) (c : Cluster N) (e : N × Action) : Decidable (FirstUse C x c e) :=
  inferInstanceAs (Decidable (x ∈ e.2.cleared C (c e.1) →
    intentHash C.blake3 x ∈ (c e.1).mempool.seen ∨ ∀ j, x ∉ (c j).accepted))

/-- At most one copy of `x` has been accepted in the whole cluster. -/
def AcceptedOnce (x : Intent) (c : Cluster N) : Prop :=
  (∀ i, (c i).accepted.count x ≤ 1) ∧ ∀ i j, x ∈ (c i).accepted → x ∈ (c j).accepted → i = j

theorem acceptedOnce_step {x : Intent} {c : Cluster N} {e : N × Action} (hc : AcceptedOnce x c)
    (hfirst : FirstUse C x c e) : AcceptedOnce x (c.step C e) := by
  have hopen : openFor C (c e.1) x ≤ 1 := by
    unfold openFor
    split <;> omega
  by_cases hnew : x ∈ e.2.cleared C (c e.1)
  · rcases hfirst hnew with hqueued | hnone
    · -- queued: nothing is accepted
      have hzero : openFor C (c e.1) x = 0 := if_pos hqueued
      have hle : ∀ i, (c.step C e i).accepted.count x ≤ (c i).accepted.count x := by
        intro i
        have := accepted_step (C := C) x c e i
        rw [hzero, ite_self] at this
        omega
      have hback : ∀ i, x ∈ (c.step C e i).accepted → x ∈ (c i).accepted := by
        intro i hi
        have hpos := List.count_pos_iff.mpr hi
        exact List.count_pos_iff.mp (by have := hle i; omega)
      exact ⟨fun i => (hle i).trans (hc.1 i), fun i j hi hj => hc.2 i j (hback i hi) (hback j hj)⟩
    · -- the first one: it can be accepted here, and it has been accepted nowhere
      have hzero : ∀ i, (c i).accepted.count x = 0 := fun i => List.count_eq_zero.mpr (hnone i)
      refine ⟨fun i => ?_, fun i j hi hj => ?_⟩
      · have := accepted_step (C := C) x c e i
        rw [hzero i] at this
        split_ifs at this <;> omega
      · have hi := (mem_accepted_step hi).resolve_left (hnone i)
        have hj := (mem_accepted_step hj).resolve_left (hnone j)
        exact hi.1.trans hj.1.symm
  · have hle : ∀ i, (c.step C e i).accepted.count x ≤ (c i).accepted.count x := by
      intro i
      have := accepted_step (C := C) x c e i
      rwa [if_neg fun h => hnew h.2] at this
    have hback : ∀ i, x ∈ (c.step C e i).accepted → x ∈ (c i).accepted := fun i hi =>
      (mem_accepted_step hi).resolve_right fun h => hnew h.2
    exact ⟨fun i => (hle i).trans (hc.1 i), fun i j hi hj => hc.2 i j (hback i hi) (hback j hj)⟩

/-- Executed copies have been accepted, copy by copy. -/
theorem count_executed_le_one {manifest : GenesisManifest} {selfId : N → AuthorityId}
    {events : List (N × Action)} {final : Cluster N} {x : Intent}
    (hfinal : (Cluster.new C manifest selfId).run C events = final)
    (hhonest : Along C (SignedBefore C) events (Cluster.new C manifest selfId))
    (hfree : CollisionFree C final) (honce : AcceptedOnce x final) (i : N) :
    ((final i).executions.flatMap ExecutedBlock.intents).count x ≤ 1 := by
  by_cases hnone : ∀ e ∈ (final i).executions, x ∉ e.intents
  · have hzero : x ∉ (final i).executions.flatMap ExecutedBlock.intents := by
      rw [List.mem_flatMap]
      rintro ⟨e, he, hx⟩
      exact hnone e he hx
    rw [List.count_eq_zero.mpr hzero]
    omega
  -- all copies were proposed by the one node that has accepted `x`
  push Not at hnone
  obtain ⟨e₀, he₀, hx₀⟩ := hnone
  obtain ⟨j, p₀, hp₀, -, hintents₀⟩ := executed_is_proposed hfinal hhonest hfree he₀
  have hj := executed_is_accepted hfinal hp₀ (hintents₀ ▸ hx₀)
  have hgrounded : Grounded C (final i) := by
    rw [← hfinal]
    exact grounded_nodeInvariant.cluster (fun i => grounded_new manifest (selfId i)) i
  have hproposed : Proposed C (final j) := by
    rw [← hfinal]
    exact proposed_nodeInvariant.cluster (fun i => proposed_new manifest (selfId i)) j
  have hle : ((final i).executions.map fun e => e.intents.count x).sum ≤
      ((final j).proposals.map fun p => p.2.intents.count x).sum := by
    refine MapSum.sum_le_sum_of_key ExecutedBlock.cert (fun p => p.1.hash C.blake3) _ _
      (hgrounded.log ▸ hgrounded.once) ?_
    intro e he hpos
    obtain ⟨k, p, hp, hhash, hintents⟩ := executed_is_proposed hfinal hhonest hfree he
    have hx : x ∈ p.2.intents := hintents ▸ List.count_pos_iff.mp hpos
    obtain rfl := honce.2 _ _ (executed_is_accepted hfinal hp hx) hj
    exact ⟨p, hp, hhash, by rw [hintents]⟩
  have hcount := hproposed.count x
  have hone := honce.1 j
  rw [State.proposedIntents, List.count_flatMap] at hcount
  rw [List.count_flatMap]
  show ((final i).executions.map fun e => e.intents.count x).sum ≤ 1
  have hcount : ((final j).proposals.map fun p => p.2.intents.count x).sum +
    (final j).mempool.intents.count x ≤ (final j).accepted.count x := hcount
  omega

/-- Governance calls at the boundaries are made for executed intents, one for one. -/
theorem count_drains_le {s : State} (hs : Drained C s) (x : Intent) :
    (s.drains.map Drain.intent).count x ≤ (s.executions.flatMap ExecutedBlock.intents).count x := by
  have hdrained := congrArg (List.map Prod.fst) hs
  rw [List.map_map, List.map_append, List.map_map] at hdrained
  have hcalls : (s.drains.map Drain.intent).count x ≤ ((s.occurrences C).map Occurrence.intent).count x := by
    show (s.drains.map (Prod.fst ∘ fun d => (d.intent, d.auth))).count x ≤
      ((s.occurrences C).map (Prod.fst ∘ fun o => (o.intent, o.auth))).count x
    rw [hdrained, List.count_append]
    exact Nat.le_add_right _ _
  have hblock : ∀ e : ExecutedBlock, ((e.occurrences C).map Occurrence.intent).Sublist e.intents := by
    intro e
    have hmap : (e.occurrences C).map Occurrence.intent = e.intents.zipIdx.filterMap fun p =>
        if isGovernanceIntent p.1 = true then some p.1 else none := by
      rw [ExecutedBlock.occurrences, List.map_filterMap]
      congr 1
      funext p
      split <;> rfl
    rw [hmap]
    exact selected_sublist e.intents fun p => isGovernanceIntent p.1 = true
  refine hcalls.trans ?_
  rw [State.occurrences, List.map_flatMap, List.count_flatMap, List.count_flatMap]
  exact List.sum_le_sum fun e _ => (hblock e).count_le x

/-- **A signed authorisation is executed at most once**, at every node of a cluster with honest
    authors, as long as no submission of it comes after it has left a queue or at a second node. -/
theorem applied_at_most_once {manifest : GenesisManifest} {selfId : N → AuthorityId}
    {events : List (N × Action)} {final : Cluster N} {x : Intent}
    (hfinal : (Cluster.new C manifest selfId).run C events = final)
    (hhonest : Along C (SignedBefore C) events (Cluster.new C manifest selfId))
    (hfree : CollisionFree C final)
    (hfirst : Along C (FirstUse C x) events (Cluster.new C manifest selfId)) (i : N) :
    ((final i).applied C).count x ≤ 1 ∧ ((final i).drains.map Drain.intent).count x ≤ 1 := by
  have honce : AcceptedOnce x final := by
    rw [← hfinal]
    exact Along.invariant (fun c e hc hf => acceptedOnce_step hc hf)
      ⟨fun i => Nat.zero_le _, fun i j hi => by cases hi⟩ hfirst
  have hdrained : Drained C (final i) := by
    have hnew : ∀ i, Drained C (Cluster.new C manifest selfId i) := fun _ => rfl
    rw [← hfinal]
    exact drained_nodeInvariant.cluster hnew i
  have hexecuted := count_executed_le_one hfinal hhonest hfree honce i
  refine ⟨le_trans ?_ hexecuted, (count_drains_le hdrained x).trans hexecuted⟩
  rw [State.applied, List.count_flatMap, List.count_flatMap]
  exact List.sum_le_sum fun e _ => e.applied_sublist.count_le x

end Histories

/-! ## Two nodes

    Authority 1 holds three quarters of the stake, so that its votes alone carry a leader of
    authority 0.  Node 0 never hears from node 1 and goes on by its timeout. -/

def duoManifest : GenesisManifest :=
  ⟨List.replicate 32 7, [echoValidator 0, { echoValidator 1 with validatorStakeSuwappu := 75000 }],
    [(1, 10)], 0⟩

def duo : Cluster (Fin 2) := Cluster.new echoScheme duoManifest fun i => UInt32.ofNat i.val

/-- A submission under the signature of one authority. -/
def submission (id : AuthorityId) (x : Intent) : Action :=
  .client ⟨fun _ => none, fun _ => 0⟩ (.submit x (echoSign (echoKey id)
    (beBytes 32 (intentSigningDigest echoScheme duoManifest.networkId x).toNat))
      (Blake3.hash (echoKey id)))

/-- A tick of the driver, which signs the certificate `p`. -/
def proposes (p : CertHash × Certificate) : Action := .tick true (signed p).signature

def delivers (p : CertHash × Certificate) : Action := .receive false (.cert (signed p))

/-- The block behind `p` comes in. -/
def brings (p : CertHash × Certificate) (intents : List Intent) : Action :=
  .receive false (.block ⟨p.2.payloadDigest, p.2.author, p.2.round, p.1, intents, []⟩)

def rotation : Intent := .setL2VerifyingKey 0 1 0

def rotA0 : CertHash × Certificate :=
  (0x9dc7aa1debcd5cd0577d68cccd0bcf37bf66f19dcfd305978398d145e3ed89fd#256,
    ⟨0, 0, [], 0x2fcfd2b27a45367389981c186920c611bc3dca56699b50b76667c5baf50c6f85#256, []⟩)

def rotA1 : CertHash × Certificate :=
  (0x0b7f46b615040436946669ab43280ca1fffa6608ca86edb36d55c611859f1390#256,
    ⟨0, 1, [rotA0.1], emptyPayload, []⟩)

def duoB0 : CertHash × Certificate :=
  (0x49e2c2a711bbb2d2b64e0a8afe657cadc0ceaeceeac055daac73c38c1ae449fc#256,
    ⟨1, 0, [], emptyPayload, []⟩)

def rotB1 : CertHash × Certificate :=
  (0x3bc246f6c5de76013c792eb312e05a8c922818bf9da572925e839d2441067c2d#256,
    ⟨1, 1, [rotA0.1, duoB0.1], emptyPayload, []⟩)

/-- Authority 0 rotates the verifying keys of an L2 chain. -/
def rotationRun : List (Fin 2 × Action) :=
  [(0, submission 0 rotation), (0, proposes rotA0), (0, proposes rotA1),
    (1, delivers rotA0), (1, brings rotA0 [rotation]), (1, proposes duoB0), (1, proposes rotB1),
    (1, delivers rotA1)]

/-- Authority 0 pays, submits the same bytes again after its block has left, and goes on. -/
def payment : Intent := .transfer 1 2 3

def payA0 : CertHash × Certificate :=
  (0x4cb44f0cc6a40606f8428016e1b80e57696593eae07d391736ae3cd1af8346a5#256,
    ⟨0, 0, [], 0x1f79c3dcf9ca0168973f4ac45f46782242d61e5f679ddd6fca6fad458bddad5a#256, []⟩)

def payA1 : CertHash × Certificate :=
  (0x24e76fa03f9e7e187ab5b86976e242ad93088f63c86a3cca2bba12a793116867#256,
    ⟨0, 1, [payA0.1], payA0.2.payloadDigest, []⟩)

def payA2 : CertHash × Certificate :=
  (0x9f44293f2d90dd463a5fdf71e0e29cc1402f5c9389434be1f6ac1d4f325f4a36#256,
    ⟨0, 2, [payA1.1], emptyPayload, []⟩)

def payA3 : CertHash × Certificate :=
  (0x9134a878e93f2697500d0796b2d57981c1b907415fcac8c79d8b8a54a6f8f54d#256,
    ⟨0, 3, [payA2.1], emptyPayload, []⟩)

def payB1 : CertHash × Certificate :=
  (0xdc5c3ec4cb9830ad871cd057ca5d1040fa631606ba7a2e54f6dd45189a6ccc21#256,
    ⟨1, 1, [payA0.1, duoB0.1], emptyPayload, []⟩)

def payB2 : CertHash × Certificate :=
  (0xd162c72f6b915dacb849552b0415eb10b3d75a4415ef20aa337e4dd9bf803eda#256,
    ⟨1, 2, [payA1.1, payB1.1], emptyPayload, []⟩)

def payB3 : CertHash × Certificate :=
  (0x7b0dbb28e72d04042a2242c7842fff1273cb52232a067421b6f0497411ec72d4#256,
    ⟨1, 3, [payA2.1, payB2.1], emptyPayload, []⟩)

def payTwiceRun : List (Fin 2 × Action) :=
  [(0, submission 0 payment), (0, proposes payA0), (0, submission 0 payment), (0, proposes payA1),
    (0, proposes payA2), (0, proposes payA3),
    (1, delivers payA0), (1, brings payA0 [payment]), (1, proposes duoB0), (1, proposes payB1),
    (1, delivers payA1), (1, brings payA1 [payment]), (1, proposes payB2),
    (1, delivers payA2), (1, brings payA2 []), (1, proposes payB3), (1, delivers payA3)]

/-- What the rotation's run does. -/
theorem rotationRun_facts :
    (Along echoScheme (SignedBefore echoScheme) rotationRun duo ∧
      Along echoScheme (OneSigner echoScheme) rotationRun duo ∧
      isQuorumGated rotation = true ∧
      (duo.run echoScheme rotationRun 1).applied echoScheme = [rotation] ∧
      (duo.run echoScheme rotationRun 1).substrate.readBytes
        (Reserved.l2RegistryAddress Blake3.hash) ≠ none) ∧
    Along echoScheme (FirstUse echoScheme rotation) rotationRun duo ∧
    Listed echoScheme ([rotA0, rotA1, duoB0, rotB1].map signed) [([rotation], []), ([], [])]
      (duo.run echoScheme rotationRun) := by
  decide +kernel

/-- **One key is enough**: authors are honest and the one submission is signed by authority 0 alone,
    and node 1 executes the rotation, which writes the L2 registry. -/
theorem single_key_rotates_vk :
    Along echoScheme (SignedBefore echoScheme) rotationRun duo ∧
    Along echoScheme (OneSigner echoScheme) rotationRun duo ∧
    isQuorumGated rotation = true ∧
    (duo.run echoScheme rotationRun 1).applied echoScheme = [rotation] ∧
    (duo.run echoScheme rotationRun 1).substrate.readBytes
      (Reserved.l2RegistryAddress Blake3.hash) ≠ none := rotationRun_facts.1

/-- **The same bytes pay twice**: authors are honest, and node 1 applies the transfer from its first
    and from its second block. -/
theorem resubmitted_transfer_pays_twice :
    Along echoScheme (SignedBefore echoScheme) payTwiceRun duo ∧
    (duo.run echoScheme payTwiceRun 1).applied echoScheme = [payment, payment] ∧
    (duo.run echoScheme payTwiceRun 1).substrate.balance 2 = 6 := by
  decide +kernel

/-- In the rotation's run the one submission is the first. -/
theorem applied_at_most_once_rotation :
    ((duo.run echoScheme rotationRun 1).applied echoScheme).count rotation ≤ 1 ∧
      ((duo.run echoScheme rotationRun 1).drains.map Drain.intent).count rotation ≤ 1 := by
  obtain ⟨⟨hsigned, -⟩, hfirst, hlisted⟩ := rotationRun_facts
  exact applied_at_most_once rfl hsigned hlisted.collisionFree hfirst 1

/-- The payment's run up to the commit of its first block. -/
def payOnceRun : List (Fin 2 × Action) :=
  [(0, submission 0 payment), (0, proposes payA0), (0, submission 0 payment), (0, proposes payA1),
    (1, delivers payA0), (1, brings payA0 [payment]), (1, proposes duoB0), (1, proposes payB1),
    (1, delivers payA1)]

/-- Nothing gated is submitted there, and a block is executed. -/
theorem gated_never_executed_payment :
    (duo.run echoScheme payOnceRun 1).committed = [payA0.1] ∧
    ∀ i, ∀ e ∈ (duo.run echoScheme payOnceRun i).executions, ∀ x ∈ e.intents,
      isQuorumGated x = false := by
  have hrun : (duo.run echoScheme payOnceRun 1).committed = [payA0.1] ∧
      Along echoScheme (SignedBefore echoScheme) payOnceRun duo ∧
      Along echoScheme (NoGatedCleared echoScheme) payOnceRun duo ∧
      Listed echoScheme ([payA0, payA1, duoB0, payB1].map signed) [([payment], []), ([], [])]
        (duo.run echoScheme payOnceRun) := by decide +kernel
  exact ⟨hrun.1, gated_never_executed rfl hrun.2.1 hrun.2.2.2.collisionFree hrun.2.2.1⟩

end SuwappuDag.Node
