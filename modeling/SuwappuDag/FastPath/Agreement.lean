/-
  FAST-PATH AGREEMENT.

  `n` nodes follow the code.  A run proposes, delivers any partial certificate that was ever broadcast
  to any node any number of times, and feeds the main-lane indices.

  1. **Invariant** — a node signs one digest per `(object, nonce)`: the first it has seen.  Every signer
     in a broadcast or pending certificate has itself broadcast that digest (`Bound`).
  2. **Payoff** — so a commit rests on a quorum of broadcasts, and two quorums share a node.
  3. **The gap** — `propose_fastpath_tx` does not compare its digest with the first one, and puts a
     new pending entry in the old one's place.  Clients that propose two digests to one node make it
     sign both (`conflicting_commits`); the invariant needs that they do not (`Binds`).
-/
import SuwappuDag.Lib.Runs
import SuwappuDag.Consensus.Growth
import SuwappuDag.FastPath.Lane

namespace SuwappuDag.FastPath

open Words Consensus
open Runs (Along)
open Std (ExtTreeMap)

/-! ## The network -/

/-- The lanes of all nodes, and all that was broadcast and logged, by whom. -/
structure Network where
  lanes : AuthorityId → Lane
  sent : List (AuthorityId × FastPathCert)
  events : List (AuthorityId × FastPathEvent)

inductive NetworkStep where
  | propose (node : AuthorityId) (tx : FastPathTx)
  | deliver (node : AuthorityId) (cert : FastPathCert)
  | mainLane (node : AuthorityId) (tx : MainLaneTx)

namespace Network

def new (n : CommitteeSize) : Network := ⟨fun _ => ⟨n, ∅, ∅, ∅, []⟩, [], []⟩

def react (N : Network) (node : AuthorityId) (r : Reaction) : Network where
  lanes := Function.update N.lanes node r.lane
  sent := N.sent ++ r.sent.map (node, ·)
  events := N.events ++ r.events.map (node, ·)

/-- One call at one of the `n` nodes; only what was broadcast can be delivered. -/
def step (n : CommitteeSize) (N : Network) : NetworkStep → Network
  | .propose node tx =>
    if node < n then N.react node (proposeFastpathTx node tx (N.lanes node)) else N
  | .deliver node cert =>
    if node < n ∧ ∃ p ∈ N.sent, p.2 = cert then
      N.react node (handleFastpathCert node cert (N.lanes node))
    else N
  | .mainLane node tx =>
    if node < n then
      let s := N.lanes node
      N.react node ⟨{ s with mainLaneIndex := s.mainLaneIndex ++ [tx] }, [], []⟩
    else N

def run (n : CommitteeSize) (steps : List NetworkStep) : Network := steps.foldl (step n) (new n)

end Network

/-! ## Broadcasts -/

section Broadcasts

variable {sent sent' : List (AuthorityId × FastPathCert)} {n : CommitteeSize} {key : FastPathKey}
  {digest : Bytes32}

/-- The node has broadcast a partial certificate for the digest that names it as a signer. -/
def Broadcast (sent : List (AuthorityId × FastPathCert)) (key : FastPathKey) (digest : Bytes32)
    (node : AuthorityId) : Prop :=
  ∃ cert, (node, cert) ∈ sent ∧ fastpathKey cert.tx = key ∧ cert.tx.payloadDigest = digest ∧
    node ∈ cert.signers

/-- All of them are nodes that have broadcast the digest. -/
def AllBroadcast (n : CommitteeSize) (sent : List (AuthorityId × FastPathCert)) (key : FastPathKey)
    (digest : Bytes32) (signers : Finset AuthorityId) : Prop :=
  ∀ node ∈ signers, node < n ∧ Broadcast sent key digest node

/-- A quorum of nodes has broadcast the digest. -/
def Certified (n : CommitteeSize) (sent : List (AuthorityId × FastPathCert)) (key : FastPathKey)
    (digest : Bytes32) : Prop :=
  ∃ signers : Finset AuthorityId, (fastPathQuorumSize n).toNat ≤ signers.card ∧
    AllBroadcast n sent key digest signers

theorem AllBroadcast.mono {signers : Finset AuthorityId} (h : AllBroadcast n sent key digest signers)
    (hsub : sent ⊆ sent') : AllBroadcast n sent' key digest signers := by
  intro node hnode
  obtain ⟨hlt, cert, hcert, hrest⟩ := h node hnode
  exact ⟨hlt, cert, hsub hcert, hrest⟩

theorem Certified.mono (h : Certified n sent key digest) (hsub : sent ⊆ sent') :
    Certified n sent' key digest := by
  obtain ⟨signers, hcard, hall⟩ := h
  exact ⟨signers, hcard, hall.mono hsub⟩

/-- Two certified digests of one key have a common broadcaster. -/
theorem Certified.common {digest' : Bytes32} (hn : 0 < n) (h : Certified n sent key digest)
    (h' : Certified n sent key digest') :
    ∃ node, Broadcast sent key digest node ∧ Broadcast sent key digest' node := by
  obtain ⟨S, hS, hall⟩ := h
  obtain ⟨S', hS', hall'⟩ := h'
  have hq : (fastPathQuorumSize n).toNat = n.toNat - (n.toNat - 1) / 3 := toNat_quorumThreshold hn
  have htwo := Quorum.two_quorums (UInt32.lt_iff_toNat_lt.mp hn) (Nat.zero_le _)
  obtain ⟨node, hin, hin', -⟩ := Quorum.exists_common_not_mem (F := ∅) (U := committee n)
    (fun x hx => mem_committee.mpr (hall x hx).1) (fun x hx => mem_committee.mpr (hall' x hx).1)
    (by rw [card_committee, Finset.card_empty]; omega)
  exact ⟨node, (hall node hin).2, (hall' node hin').2⟩

end Broadcasts

/-! ## One call -/

section Calls

variable {sent : List (AuthorityId × FastPathCert)} {n : CommitteeSize} {node : AuthorityId} {s : Lane}

/-- A pending entry has the digest that was seen first, and its signers have broadcast it. -/
structure LaneOk (n : CommitteeSize) (sent : List (AuthorityId × FastPathCert)) (s : Lane) : Prop where
  size : s.nAuthorities = n
  pending : ∀ (key : FastPathKey) (entry : FastPathCert), s.pending[key]? = some entry →
    s.firstPayload[key]? = some entry.tx.payloadDigest ∧
      AllBroadcast n sent key entry.tx.payloadDigest entry.signers

/-- What a call keeps: the first digests; the lane's order, with its own broadcasts counted; what it
    broadcasts is its first digest, signed by broadcasters; and what it commits is certified. -/
structure Reacts (n : CommitteeSize) (sent : List (AuthorityId × FastPathCert)) (node : AuthorityId)
    (s : Lane) (r : Reaction) : Prop where
  first : ∀ (key : FastPathKey) (digest : Bytes32), s.firstPayload[key]? = some digest →
    r.lane.firstPayload[key]? = some digest
  lane : LaneOk n (sent ++ r.sent.map (node, ·)) r.lane
  emitted : ∀ cert ∈ r.sent,
    r.lane.firstPayload[fastpathKey cert.tx]? = some cert.tx.payloadDigest ∧
      AllBroadcast n (sent ++ r.sent.map (node, ·)) (fastpathKey cert.tx) cert.tx.payloadDigest
        cert.signers
  commits : ∀ e ∈ r.events, e.kind = .committed →
    Certified n (sent ++ r.sent.map (node, ·)) e.key e.certHash

theorem LaneOk.mono {sent' : List (AuthorityId × FastPathCert)} (h : LaneOk n sent s)
    (hsub : sent ⊆ sent') : LaneOk n sent' s :=
  ⟨h.size, fun key entry hentry => (h.pending key entry hentry).imp_right fun hall => hall.mono hsub⟩

/-- A digest that is recorded if there was none. -/
theorem firstPayload_insertIfNew {key : FastPathKey} {digest : Bytes32}
    (h : s.firstPayload[key]? = none ∨ s.firstPayload[key]? = some digest) :
    (s.firstPayload.insertIfNew key digest)[key]? = some digest ∧
      ∀ (key' : FastPathKey) (digest' : Bytes32), s.firstPayload[key']? = some digest' →
        (s.firstPayload.insertIfNew key digest)[key']? = some digest' := by
  constructor
  · rw [ExtTreeMap.getElem?_insertIfNew]
    split
    · rfl
    · next hold =>
      rcases h with h | h
      · refine absurd ⟨compare_eq_iff_eq.mpr rfl, fun hin => ?_⟩ hold
        rw [ExtTreeMap.mem_iff_isSome_getElem?, h] at hin
        cases hin
      · exact h
  · intro key' digest' h'
    rw [ExtTreeMap.getElem?_insertIfNew, if_neg]
    · exact h'
    · rintro ⟨heq, hnew⟩
      rw [compare_eq_iff_eq] at heq
      subst heq
      rw [ExtTreeMap.mem_iff_isSome_getElem?, h'] at hnew
      exact hnew rfl

/-- Recording a first digest leaves the pending entries in order. -/
theorem LaneOk.record {key : FastPathKey} {digest : Bytes32} (hs : LaneOk n sent s)
    (h : s.firstPayload[key]? = none ∨ s.firstPayload[key]? = some digest) :
    LaneOk n sent { s with firstPayload := s.firstPayload.insertIfNew key digest } :=
  ⟨hs.size, fun key' entry hentry => (hs.pending key' entry hentry).imp_left fun hfirst =>
    (firstPayload_insertIfNew h).2 key' _ hfirst⟩

theorem LaneOk.settle {key : FastPathKey} {entry : FastPathCert} (hs : LaneOk n sent s)
    (hfirst : s.firstPayload[key]? = some entry.tx.payloadDigest)
    (hall : AllBroadcast n sent key entry.tx.payloadDigest entry.signers) :
    LaneOk n sent (settle s key entry) := by
  unfold FastPath.settle
  split
  · refine ⟨hs.size, fun key' entry' hentry => hs.pending key' entry' ?_⟩
    have hget : (s.pending.erase key)[key']? = some entry' := hentry
    rw [ExtTreeMap.getElem?_erase] at hget
    split at hget
    · cases hget
    · exact hget
  · refine ⟨hs.size, fun key' entry' hentry => ?_⟩
    have hget : (s.pending.insert key entry)[key']? = some entry' := hentry
    rw [ExtTreeMap.getElem?_insert] at hget
    split at hget
    · next heq =>
      rw [compare_eq_iff_eq] at heq
      cases heq
      cases hget
      exact ⟨hfirst, hall⟩
    · exact hs.pending key' entry' hget

theorem settle_firstPayload (s : Lane) (key : FastPathKey) (entry : FastPathCert) :
    (settle s key entry).firstPayload = s.firstPayload := by
  unfold settle
  split <;> rfl

theorem certified_of_commitEvents {tx : FastPathTx} {signers : Finset AuthorityId} {e : FastPathEvent}
    (hs : s.nAuthorities = n) (he : e ∈ commitEvents s tx signers)
    (hall : AllBroadcast n sent (fastpathKey tx) tx.payloadDigest signers) :
    Certified n sent e.key e.certHash := by
  unfold commitEvents at he
  split at he
  · next hquorum =>
    rw [List.mem_singleton.mp he]
    refine ⟨signers, ?_, hall⟩
    rw [hs, UInt32.le_iff_toNat_le, UInt32.toNat_ofNat'] at hquorum
    exact hquorum.trans (Nat.mod_le _ _)
  · cases he

/-- A call that broadcasts and commits nothing. -/
theorem reacts_of_quiet {r : Reaction} (hsent : r.sent = [])
    (hevents : ∀ e ∈ r.events, e.kind ≠ .committed) (hlane : LaneOk n sent r.lane)
    (hfirst : ∀ (key : FastPathKey) (digest : Bytes32), s.firstPayload[key]? = some digest →
      r.lane.firstPayload[key]? = some digest) : Reacts n sent node s r := by
  refine ⟨hfirst, ?_, fun cert hcert => ?_, fun e he hkind => absurd hkind (hevents e he)⟩
  · rw [hsent, List.map_nil, List.append_nil]
    exact hlane
  · rw [hsent] at hcert
    cases hcert

theorem propose_reacts (hnode : node < n) (hs : LaneOk n sent s) {tx : FastPathTx}
    (hbinds : fastpathKey tx ∈ s.committed ∨ s.firstPayload[fastpathKey tx]? = none ∨
      s.firstPayload[fastpathKey tx]? = some tx.payloadDigest) :
    Reacts n sent node s (proposeFastpathTx node tx s) := by
  unfold proposeFastpathTx
  dsimp only
  split
  · exact reacts_of_quiet rfl (fun e he => by cases he) hs fun _ _ h => h
  · next hnew =>
    have hfirst := firstPayload_insertIfNew (hbinds.resolve_left hnew)
    have hall : AllBroadcast n (sent ++ [(node, ⟨tx, {node}⟩)]) (fastpathKey tx) tx.payloadDigest
        {node} := by
      intro k hk
      rw [Finset.mem_singleton.mp hk]
      exact ⟨hnode, _, List.mem_append_right _ (List.mem_singleton.mpr rfl), rfl, rfl,
        Finset.mem_singleton_self _⟩
    have hrecord := (hs.record (hbinds.resolve_left hnew)).mono
      (List.subset_append_left sent [(node, (⟨tx, {node}⟩ : FastPathCert))])
    refine ⟨fun key digest h => ?_, hrecord.settle hfirst.1 hall, fun cert hcert => ?_,
      fun e he hkind => ?_⟩
    · rw [settle_firstPayload]
      exact hfirst.2 key digest h
    · rw [List.mem_singleton.mp hcert, settle_firstPayload]
      exact ⟨hfirst.1, hall⟩
    · rcases List.mem_cons.mp he with rfl | he
      · cases hkind
      · exact certified_of_commitEvents hs.size he hall

/-- Receiving and signing are not committing. -/
theorem uncommitted_of_mem {P Q : Prop} [Decidable P] [Decidable Q] {tx : FastPathTx}
    {e : FastPathEvent} (h : e ∈ (if P then [event .received tx] else []) ++
      (if Q then [] else [event .signed tx])) : e.kind ≠ .committed := by
  rcases List.mem_append.mp h with h | h
  · split at h
    · rw [List.mem_singleton.mp h]
      exact fun hkind => by cases hkind
    · cases h
  · split at h
    · cases h
    · rw [List.mem_singleton.mp h]
      exact fun hkind => by cases hkind

theorem accumulate_reacts (hnode : node < n) (hs : LaneOk n sent s) {cert : FastPathCert}
    (hfirst : s.firstPayload[fastpathKey cert.tx]? = some cert.tx.payloadDigest)
    (hcert : AllBroadcast n sent (fastpathKey cert.tx) cert.tx.payloadDigest cert.signers) :
    Reacts n sent node s (accumulate node cert s) := by
  unfold accumulate
  dsimp only
  set entry := s.pending[fastpathKey cert.tx]?.getD ⟨cert.tx, ∅⟩ with hentry
  set signers := if node ∈ entry.signers then entry.signers ∪ cert.signers
    else insert node (entry.signers ∪ cert.signers) with hsigners
  set out : List FastPathCert := if node ∈ entry.signers then [] else [⟨cert.tx, signers⟩] with hout
  -- the entry, old or new, is about the same digest
  have hold : entry.tx.payloadDigest = cert.tx.payloadDigest ∧
      AllBroadcast n sent (fastpathKey cert.tx) cert.tx.payloadDigest entry.signers := by
    cases hpending : s.pending[fastpathKey cert.tx]? with
    | none =>
      rw [hpending] at hentry
      rw [hentry]
      exact ⟨rfl, fun k hk => absurd hk (Finset.notMem_empty k)⟩
    | some old =>
      rw [hpending] at hentry
      obtain ⟨hdigest, hall⟩ := hs.pending _ old hpending
      rw [hfirst] at hdigest
      rw [hentry]
      exact ⟨(Option.some.inj hdigest).symm, Option.some.inj hdigest ▸ hall⟩
  have hall : AllBroadcast n (sent ++ out.map (node, ·)) (fastpathKey cert.tx)
      cert.tx.payloadDigest signers := by
    intro k hk
    have hmerged : k ∈ entry.signers ∪ cert.signers →
        k < n ∧ Broadcast (sent ++ out.map (node, ·)) (fastpathKey cert.tx) cert.tx.payloadDigest k := by
      intro hk
      rcases Finset.mem_union.mp hk with hk | hk
      · exact hold.2.mono (List.subset_append_left _ _) k hk
      · exact hcert.mono (List.subset_append_left _ _) k hk
    by_cases hself : node ∈ entry.signers
    · rw [hsigners, if_pos hself] at hk
      exact hmerged hk
    · rw [hsigners, if_neg hself] at hk
      rcases Finset.mem_insert.mp hk with rfl | hk
      · refine ⟨hnode, ⟨cert.tx, signers⟩, List.mem_append_right _ ?_, rfl, rfl, ?_⟩
        · rw [hout, if_neg hself]
          exact List.mem_singleton.mpr rfl
        · show _ ∈ signers
          rw [hsigners, if_neg hself]
          exact Finset.mem_insert_self _ _
      · exact hmerged hk
  refine ⟨fun key digest h => ?_, ?_, fun c hc => ?_, fun e he hkind => ?_⟩
  · rw [settle_firstPayload]
    exact h
  · refine (hs.mono (List.subset_append_left _ _)).settle ?_ ?_
    · rw [hfirst, hold.1]
    · show AllBroadcast n _ _ entry.tx.payloadDigest signers
      rw [hold.1]
      exact hall
  · have hc : c ∈ out := hc
    rw [hout] at hc
    split at hc
    · cases hc
    · rw [List.mem_singleton.mp hc, settle_firstPayload]
      exact ⟨hfirst, hall⟩
  · rcases List.mem_append.mp he with he | he
    · exact absurd hkind (uncommitted_of_mem he)
    · exact certified_of_commitEvents hs.size he hall

theorem handle_reacts (hnode : node < n) (hs : LaneOk n sent s) {cert : FastPathCert}
    (hcert : AllBroadcast n sent (fastpathKey cert.tx) cert.tx.payloadDigest cert.signers) :
    Reacts n sent node s (handleFastpathCert node cert s) := by
  have hslashed : ∀ e ∈ [event .slashed cert.tx], e.kind ≠ .committed := by
    intro e he
    rw [List.mem_singleton.mp he]
    exact fun h => by cases h
  unfold handleFastpathCert
  dsimp only
  split
  · exact reacts_of_quiet rfl (fun e he => by cases he) hs fun _ _ h => h
  split
  · exact reacts_of_quiet rfl hslashed hs fun _ _ h => h
  · next hsame =>
    have hfree : s.firstPayload[fastpathKey cert.tx]? = none ∨
        s.firstPayload[fastpathKey cert.tx]? = some cert.tx.payloadDigest := by
      cases hfirst : s.firstPayload[fastpathKey cert.tx]? with
      | none => exact Or.inl rfl
      | some digest =>
        rw [hfirst] at hsame
        exact Or.inr (congrArg some (by simpa using hsame))
    have hrecord := hs.record hfree
    have hfirst := firstPayload_insertIfNew hfree
    split
    · exact reacts_of_quiet rfl hslashed hrecord hfirst.2
    split
    · exact reacts_of_quiet rfl (fun e he => by cases he) hrecord hfirst.2
    · obtain ⟨hkeep, hlane, hsent, hcommits⟩ := accumulate_reacts hnode hrecord hfirst.1 hcert
      exact ⟨fun key digest h => hkeep key digest (hfirst.2 key digest h), hlane, hsent, hcommits⟩

end Calls

/-! ## Runs -/

section Runs

variable {n : CommitteeSize} {N : Network}

/-- What every state of a run keeps. -/
structure Bound (n : CommitteeSize) (N : Network) : Prop where
  lanes : ∀ node, LaneOk n N.sent (N.lanes node)
  sent : ∀ node cert, (node, cert) ∈ N.sent →
    (N.lanes node).firstPayload[fastpathKey cert.tx]? = some cert.tx.payloadDigest ∧
      AllBroadcast n N.sent (fastpathKey cert.tx) cert.tx.payloadDigest cert.signers
  commits : ∀ node e, (node, e) ∈ N.events → e.kind = .committed →
    Certified n N.sent e.key e.certHash

theorem bound_new : Bound n (Network.new n) where
  lanes node := ⟨rfl, fun key entry hentry => by
    have hentry : (∅ : ExtTreeMap FastPathKey FastPathCert)[key]? = some entry := hentry
    rw [ExtTreeMap.getElem?_empty] at hentry
    cases hentry⟩
  sent node cert h := by cases h
  commits node e h := by cases h

/-- One node reacts, the others stay. -/
theorem Bound.react (hN : Bound n N) {node : AuthorityId} {r : Reaction}
    (hr : Reacts n N.sent node (N.lanes node) r) : Bound n (N.react node r) := by
  have hsub : N.sent ⊆ N.sent ++ r.sent.map (node, ·) := List.subset_append_left _ _
  have hfirst : ∀ (k : AuthorityId) (key : FastPathKey) (digest : Bytes32),
      (N.lanes k).firstPayload[key]? = some digest →
      ((N.react node r).lanes k).firstPayload[key]? = some digest := by
    intro k key digest h
    show (Function.update N.lanes node r.lane k).firstPayload[key]? = some digest
    by_cases hk : k = node
    · subst hk
      rw [Function.update_self]
      exact hr.first key digest h
    · rw [Function.update_of_ne hk]
      exact h
  refine ⟨fun k => ?_, fun k cert hcert => ?_, fun k e he hkind => ?_⟩
  · show LaneOk n (N.sent ++ r.sent.map (node, ·)) (Function.update N.lanes node r.lane k)
    by_cases hk : k = node
    · subst hk
      rw [Function.update_self]
      exact hr.lane
    · rw [Function.update_of_ne hk]
      exact (hN.lanes k).mono hsub
  · rcases List.mem_append.mp hcert with hold | hnew
    · obtain ⟨hdigest, hall⟩ := hN.sent k cert hold
      exact ⟨hfirst k _ _ hdigest, hall.mono hsub⟩
    · obtain ⟨c, hc, heq⟩ := List.mem_map.mp hnew
      cases heq
      obtain ⟨hdigest, hall⟩ := hr.emitted cert hc
      refine ⟨?_, hall⟩
      show (Function.update N.lanes node r.lane node).firstPayload[fastpathKey cert.tx]? = _
      rw [Function.update_self]
      exact hdigest
  · rcases List.mem_append.mp he with hold | hnew
    · exact (hN.commits k e hold hkind).mono hsub
    · obtain ⟨e', he', heq⟩ := List.mem_map.mp hnew
      cases heq
      exact hr.commits e he' hkind

/-- A proposal meets a node that has seen no digest for the key, or this one, or has committed. -/
def Binds (N : Network) : NetworkStep → Prop
  | .propose node tx => fastpathKey tx ∈ (N.lanes node).committed ∨
      (N.lanes node).firstPayload[fastpathKey tx]? = none ∨
      (N.lanes node).firstPayload[fastpathKey tx]? = some tx.payloadDigest
  | _ => True

instance (N : Network) : ∀ step, Decidable (Binds N step)
  | .propose _ _ => inferInstanceAs (Decidable (_ ∨ _ ∨ _))
  | .deliver _ _ => .isTrue trivial
  | .mainLane _ _ => .isTrue trivial

theorem Bound.step (hN : Bound n N) {step : NetworkStep} (hstep : Binds N step) :
    Bound n (N.step n step) := by
  cases step with
  | propose node tx =>
    rw [Network.step]
    split
    · next hnode => exact hN.react (propose_reacts hnode (hN.lanes node) hstep)
    · exact hN
  | deliver node cert =>
    rw [Network.step]
    split
    · next h =>
      obtain ⟨hnode, ⟨k, cert'⟩, hsent, rfl⟩ := h
      exact hN.react (handle_reacts hnode (hN.lanes node) (hN.sent k cert' hsent).2)
    · exact hN
  | mainLane node tx =>
    rw [Network.step]
    split
    · have hlane := hN.lanes node
      exact hN.react (reacts_of_quiet rfl (fun e he => by cases he) ⟨hlane.size, hlane.pending⟩
        fun _ _ h => h)
    · exact hN

/-- **Fast-path agreement.**  In every run whose proposals all bind, no two commits of one
    `(object, nonce)`, on whatever nodes, are of different digests; and behind each of them a quorum of
    nodes has broadcast the digest, each naming itself. -/
theorem fastPath_agreement {steps : List NetworkStep} (hn : 1 ≤ n)
    (hbinds : Along (Network.step n) Binds steps (Network.new n)) :
    (∀ p ∈ (Network.run n steps).events, ∀ p' ∈ (Network.run n steps).events,
      p.2.kind = .committed → p'.2.kind = .committed → p.2.key = p'.2.key →
      p.2.certHash = p'.2.certHash) ∧
    ∀ p ∈ (Network.run n steps).events, p.2.kind = .committed →
      Certified n (Network.run n steps).sent p.2.key p.2.certHash := by
  have hbound : Bound n (Network.run n steps) :=
    Along.invariant (fun N step hN hstep => hN.step hstep) bound_new hbinds
  refine ⟨?_, fun p hp => hbound.commits p.1 p.2 hp⟩
  intro p hp p' hp' hkind hkind' hkey
  have hcert := hbound.commits p.1 p.2 hp hkind
  have hcert' := hbound.commits p'.1 p'.2 hp' hkind'
  rw [← hkey] at hcert'
  obtain ⟨node, ⟨c, hc, hck, hcd, -⟩, ⟨c', hc', hck', hcd', -⟩⟩ := hcert.common hn hcert'
  -- the common broadcaster has one first digest
  have hfirst := (hbound.sent node c hc).1
  have hfirst' := (hbound.sent node c' hc').1
  rw [hck, hcd] at hfirst
  rw [hck', hcd'] at hfirst'
  exact Option.some.inj (hfirst.symm.trans hfirst')

/-- A transaction of object 1 with nonce 0. -/
def someTx (digest : Bytes32) : FastPathTx := ⟨1, 2, 0, 3, 0, digest⟩

/-- One proposal, signed by the other node and returned. -/
def oneProposal : List NetworkStep :=
  [.propose 0 (someTx 10), .deliver 1 ⟨someTx 10, {0}⟩, .deliver 0 ⟨someTx 10, {0, 1}⟩]

/-- Both of two nodes commit it. -/
theorem fastPath_agreement_two :
    ((Network.run 2 oneProposal).events.filter fun p => p.2.kind = .committed).map
        (fun p => (p.1, p.2.certHash)) = [(1, 10), (0, 10)] ∧
      ∀ p ∈ (Network.run 2 oneProposal).events, p.2.kind = .committed →
        Certified 2 (Network.run 2 oneProposal).sent p.2.key p.2.certHash :=
  ⟨by decide +kernel, (fastPath_agreement (by decide) (by decide +kernel)).2⟩

/-- **Two digests for one object and nonce.**  A client proposes 10 and then 11 to node 0, and 11 and
    then 10 to node 1.  Each node meets the other's second proposal, which is its own first. -/
theorem conflicting_commits :
    ((Network.run 2 [.propose 0 (someTx 10), .propose 0 (someTx 11), .propose 1 (someTx 11),
      .propose 1 (someTx 10), .deliver 0 ⟨someTx 10, {1}⟩, .deliver 1 ⟨someTx 11, {0}⟩]).events.filter
        fun p => p.2.kind = .committed).map (fun p => (p.1, p.2.key, p.2.certHash)) =
      [(0, fastpathKey (someTx 10), 10), (1, fastpathKey (someTx 10), 11)] := by
  decide +kernel

end Runs

end SuwappuDag.FastPath
