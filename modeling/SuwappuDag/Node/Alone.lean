/-
  A WALK ALONE does what the atomic step of a node says.

  **`commit_alone`** — the sections of a walk, with nobody in between, end, and make `tryCommit`.  One
  lemma per loop: the governance queue, the equivocation queue, the history of a leader, the candidate
  rounds.
-/
import SuwappuDag.Node.Tasks

namespace SuwappuDag.Node

open Words Consensus Execution Interleave
open Std (ExtTreeMap)

section Alone

variable {C : Crypto}

/-! ## Governance -/

theorem verifyGovernedIntent_eq (registry : AuthorityRegistry) (networkId : List UInt8)
    (intent : Intent) (auth : GovAuth) : verifyGovernedIntent C registry networkId intent auth =
      (checkSponsor C registry networkId intent auth).bind fun _ =>
        checkCoSigner C registry networkId intent auth := by
  unfold verifyGovernedIntent checkSponsor checkCoSigner
  cases isGovernanceIntent intent with
  | false => rfl
  | true =>
    cases hseat : checkSeat "sponsor" "sponsor signature" (verifySingleSignature C registry networkId
      intent auth.sponsorSignature auth.sponsorPubkeyHash) with
    | error text => rfl
    | ok _ => rfl

/-- A walk from one of its points to another, alone. -/
abbrev WalkThrough (C : Crypto) : CommitPc × State → CommitPc × State → Prop :=
  Through (CommitPc.step C) CommitPc.inside

theorem remove_through (back : Back) (id : AuthorityId) (s : State) :
    WalkThrough C (.removeValidator back id, s) (back.next, { s with committee :=
      { stakeTable := s.committee.stakeTable.erase id
        authorityRegistry := s.committee.authorityRegistry
        validatorRegistry := s.committee.validatorRegistry.erase id
        nAuthorities := UInt32.ofNat s.committee.authorityRegistry.size
        pendingStake := s.committee.pendingStake.erase id } }) :=
  .next rfl (.next rfl (.next rfl (.next rfl .refl)))

theorem enact_through (p : Sweep) (queued : List (Intent × Option GovAuth)) (intent : Intent)
    (s : State) : WalkThrough C (enactIntent p queued intent, s)
      (nextIntent p queued, { s with committee := s.committee.enact intent }) := by
  have hunseat : ∀ id, WalkThrough C (.unseat p id queued, s)
      (nextIntent p queued, { s with committee := s.committee.unseat id }) := by
    intro id
    unfold Committee.unseat
    by_cases hid : id ∈ s.committee.authorityRegistry
    · rw [if_pos hid]
      refine .next rfl ?_
      rw [CommitPc.step, if_pos hid]
      exact (remove_through (.governance p queued) id _)
    · rw [if_neg hid]
      refine .next rfl ?_
      rw [CommitPc.step, if_neg hid]
      exact .refl
  cases intent with
  | admitAuthority id stake key _ =>
    show WalkThrough C (.seatAuthority p id stake key queued, s) _
    refine .next rfl ?_
    rw [CommitPc.step, Committee.enact]
    cases s.committee.authorityRegistry.tryAdmit ⟨id, stake, key⟩ with
    | error _ => exact .refl
    | ok registry => exact .next rfl (.next rfl .refl)
  | exitAuthority id => exact hunseat id
  | ejectAuthority id _ => exact hunseat id
  | _ => exact .refl

/-- One call of `apply_governance_intent`. -/
def called (C : Crypto) (intent : Intent) (auth : Option GovAuth) (s : State) : State :=
  { s with
    committee := s.committee.applyGovernanceIntent C s.networkId intent auth
    drains := s.drains ++ [⟨intent, auth, s.committee⟩]
    reshapes := s.reshapes ++ [.govern intent auth] }

theorem call_through (p : Sweep) (intent : Intent) (auth : Option GovAuth)
    (queued : List (Intent × Option GovAuth)) (s : State) :
    WalkThrough C (.govern p intent auth queued, s) (nextIntent p queued, called C intent auth s) := by
  unfold called Committee.applyGovernanceIntent
  cases auth with
  | none => exact .next rfl .refl
  | some envelope =>
    dsimp only
    rw [verifyGovernedIntent_eq]
    cases hsponsor : checkSponsor C s.committee.authorityRegistry s.networkId intent envelope with
    | error _ =>
      refine .next rfl ?_
      rw [CommitPc.step, hsponsor]
      exact .refl
    | ok _ =>
      refine .next rfl ?_
      rw [CommitPc.step, hsponsor]
      cases hcosign : checkCoSigner C s.committee.authorityRegistry s.networkId intent envelope with
      | error _ =>
        refine .next rfl ?_
        rw [CommitPc.step]
        dsimp only
        rw [hcosign]
        exact .refl
      | ok _ =>
        refine .next rfl ?_
        rw [CommitPc.step]
        dsimp only
        rw [hcosign]
        exact enact_through p queued intent _

/-- The queue, applied. -/
def drained (C : Crypto) (queued : List (Intent × Option GovAuth)) (s : State) : State :=
  let out := drainQueue C s.networkId queued s.committee
  { s with
    committee := out.1
    drains := s.drains ++ out.2
    reshapes := s.reshapes ++ queued.map fun q => .govern q.1 q.2 }

theorem governance_through (p : Sweep) : ∀ (queued : List (Intent × Option GovAuth)) (s : State),
    WalkThrough C (nextIntent p queued, s) (.epoch p, drained C queued s) := by
  intro queued
  induction queued with
  | nil =>
    intro s
    have hnil : drained C [] s = s := by
      unfold drained drainQueue
      dsimp only
      rw [List.map_nil, List.append_nil, List.append_nil]
    rw [hnil]
    exact .refl
  | cons q queued ih =>
    intro s
    obtain ⟨intent, auth⟩ := q
    have hcons : drained C ((intent, auth) :: queued) s = drained C queued (called C intent auth s) := by
      simp only [drained, called, drainQueue, List.append_assoc, List.map_cons, List.singleton_append]
    rw [hcons]
    exact (call_through p intent auth queued s).trans (ih _)

theorem boundary_through (p : Sweep) (c : Claim) (s : State) :
    WalkThrough C (.boundary p c, s) (p.next, crossBoundary C s c.round) := by
  unfold crossBoundary
  by_cases hcross : s.epoch.boundaryCrossedBy c.round = true
  · rw [if_pos hcross]
    refine .next rfl ?_
    rw [CommitPc.step, if_pos hcross]
    refine (.next rfl ?_)
    exact (governance_through p s.pendingGovernance _).trans (.next rfl .refl)
  · rw [if_neg hcross]
    refine .next rfl ?_
    rw [CommitPc.step, if_neg hcross]
    exact .refl

/-! ## The equivocation queue -/

/-- The proven authors, unseated. -/
def ejected (proofs : List EquivocationProof) (s : State) : State :=
  { s with
    committee := proofs.foldl (fun c proof => c.unseat proof.author) s.committee
    reshapes := s.reshapes ++ proofs.map fun proof => .eject proof.author }

theorem eject_through : ∀ (proofs : List EquivocationProof) (s : State),
    WalkThrough C (nextProof proofs, s) (.done, ejected proofs s) := by
  intro proofs
  induction proofs with
  | nil =>
    intro s
    have hnil : ejected [] s = s := by
      unfold ejected
      rw [List.map_nil, List.append_nil]
      rfl
    rw [hnil]
    exact .refl
  | cons proof proofs ih =>
    intro s
    have hcons : ejected (proof :: proofs) s = ejected proofs { s with
        committee := s.committee.unseat proof.author
        reshapes := s.reshapes ++ [.eject proof.author] } := by
      unfold ejected
      dsimp only
      rw [List.append_assoc]
      rfl
    rw [hcons]
    refine Through.trans ?_ (ih _)
    show WalkThrough C (.seated proof.author proofs, s) _
    unfold Committee.unseat
    by_cases hseated : proof.author ∈ s.committee.authorityRegistry
    · rw [if_pos hseated]
      refine .next rfl ?_
      rw [CommitPc.step, if_pos hseated]
      refine (.next rfl ?_)
      exact remove_through (.equivocation proofs) proof.author _
    · rw [if_neg hseated]
      refine .next rfl ?_
      rw [CommitPc.step, if_neg hseated]
      exact .refl

/-! ## The walk -/

theorem execute_through (p : Sweep) {s : State} {h : CertHash} (hfresh : h ∉ s.committed)
    (cert : Certificate) (block : BlockPayload) :
    WalkThrough C (.claim p ⟨h, cert.round, block.intents, block.governanceAuth⟩, s)
      (p.next, executeCert C s h cert block) := by
  refine .next rfl ?_
  rw [CommitPc.step, if_neg hfresh]
  refine .next rfl (.next rfl (.next rfl (.next rfl ?_)))
  exact boundary_through p _ _

/-- Where the inner loop hands over to the outer one. -/
def afterHistory (w : Walk) : State × Bool → CommitPc × State
  | (s, true) => (w.next, s)
  | (s, false) => (.equivocations, s)

theorem history_through (w : Walk) : ∀ (history : List CertHash) (s : State),
    WalkThrough C (Sweep.next ⟨w, history⟩, s) (afterHistory w (commitHistory C history s)) := by
  intro history
  induction history with
  | nil => exact fun s => .refl
  | cons h history ih =>
    intro s
    show WalkThrough C (.claimed ⟨w, history⟩ h, s) _
    rw [commitHistory]
    by_cases hclaimed : h ∈ s.committed
    · rw [if_pos hclaimed]
      refine .next rfl ?_
      rw [CommitPc.step, if_pos hclaimed]
      exact (ih s)
    rw [if_neg hclaimed]
    refine .next rfl ?_
    rw [CommitPc.step, if_neg hclaimed]
    cases hcert : s.dag.get h with
    | none =>
      refine .next rfl ?_
      rw [CommitPc.step, hcert]
      exact (ih s)
    | some cert =>
      refine .next rfl ?_
      rw [CommitPc.step, hcert]
      dsimp only
      cases hblock : matchingBlock s h cert with
      | none =>
        refine .next rfl ?_
        rw [CommitPc.step, hblock]
        exact (.next rfl .refl)
      | some block =>
        refine .next rfl ?_
        rw [CommitPc.step, hblock]
        exact (execute_through ⟨w, history⟩ hclaimed cert block).trans (ih _)

theorem rounds_through (votes : List Vote) (n : CommitteeSize) : ∀ (rounds : List Round) (s : State),
    WalkThrough C (Walk.next ⟨votes, n, rounds⟩, s)
      (.equivocations, commitWalk C votes n rounds s) := by
  intro rounds
  induction rounds with
  | nil => exact fun s => .refl
  | cons round rounds ih =>
    intro s
    show WalkThrough C (.slot ⟨votes, n, rounds⟩ round, s) _
    rw [commitWalk]
    cases hslot : decideSlot s.dag round n with
    | skip =>
      refine .next rfl ?_
      rw [CommitPc.step, hslot]
      exact (ih s)
    | undecided =>
      refine .next rfl ?_
      rw [CommitPc.step, hslot]
      exact (ih s)
    | direct leaderHash =>
      refine .next rfl ?_
      rw [CommitPc.step, hslot]
      dsimp only
      by_cases hclaimed : leaderHash ∈ s.committed
      · rw [if_pos hclaimed]
        refine .next rfl ?_
        rw [CommitPc.step, if_pos hclaimed]
        exact (ih s)
      rw [if_neg hclaimed]
      refine .next rfl ?_
      rw [CommitPc.step, if_neg hclaimed]
      by_cases hquorum : (!validatorQuorumMet s.committee.stakeTable leaderHash votes) = true
      · rw [if_pos hquorum]
        refine .next rfl ?_
        rw [CommitPc.step, if_pos hquorum]
        exact .refl
      rw [if_neg hquorum]
      refine .next rfl ?_
      rw [CommitPc.step, if_neg hquorum]
      refine (.next rfl ?_)
      refine (history_through ⟨votes, n, rounds⟩ _ s).trans ?_
      cases hhistory : commitHistory C (causalHistory s.dag leaderHash) s with
      | mk t stop =>
        cases stop with
        | true => exact ih t
        | false => exact .refl

/-- **A walk alone is `tryCommit`**, from behind its first section. -/
theorem commit_alone (s : State) :
    WalkThrough C (.size (votesFlat s), s) (.done, tryCommit C s) := by
  refine .next rfl (.next rfl ?_)
  exact (rounds_through _ _ _ s).trans (.next rfl (eject_through _ _))

end Alone

end SuwappuDag.Node
