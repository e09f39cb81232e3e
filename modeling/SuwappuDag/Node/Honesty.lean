/-
  WHAT AN HONEST NODE PUTS ITS NAME TO.

  A node that follows the code signs certificates and emits votes.  Can either be held against it?

  1. **Certificates** — within one lifetime the driver signs rounds `0, 1, 2, …` once each
     (`counted_nodeInvariant`).  The counter lives in memory: a restarted node begins at round 0 again,
     also when its old certificates have come back to it, and what it signs then conflicts with what it
     signed before (`restart_signs_round_again`).  With one authoring lifetime it never does
     (`signs_once_per_round`).
  2. **Votes** — a seated node votes for EVERY certificate it takes in, and the detector holds any two
     votes against it: two certificates are enough (`two_honest_votes_slashable`).
-/
import SuwappuDag.Node.Submissions

namespace SuwappuDag.Node

open Words Consensus Execution
open Std (ExtTreeMap)

/-! ## Certificates -/

/-- The certificates signed in one lifetime of a process. -/
def signedIn (C : Crypto) (manifest : GenesisManifest) (selfId : AuthorityId)
    (actions : List Action) : List Certificate :=
  (runActions C actions (State.new C manifest selfId)).proposals.map Prod.fst

/-- Those of a sequence of lifetimes; nothing is carried from one to the next. -/
def signedOver (C : Crypto) (manifest : GenesisManifest) (selfId : AuthorityId)
    (lifetimes : List (List Action)) : List Certificate :=
  lifetimes.flatMap (signedIn C manifest selfId)

/-- A tick that passes the gates of the round driver. -/
def Action.Proposes (s : State) : Action → Prop
  | .tick timedOut _ => s.selfId ∈ s.committee.authorityRegistry ∧ mayPropose s timedOut = true
  | _ => False

instance (s : State) (action : Action) : Decidable (action.Proposes s) := by
  unfold Action.Proposes
  split <;> infer_instance

/-- No tick of the lifetime passes. -/
def Quiet (C : Crypto) : List Action → State → Prop
  | [], _ => True
  | action :: actions, s => ¬ action.Proposes s ∧ Quiet C actions (action.exec C s)

instance decidableQuiet (C : Crypto) : ∀ (actions : List Action) (s : State),
    Decidable (Quiet C actions s)
  | [], _ => .isTrue trivial
  | action :: actions, s => @instDecidableAnd _ _ _ (decidableQuiet C actions (action.exec C s))

def Action.isTick : Action → Bool
  | .tick .. => true
  | _ => false

section Signing

variable {C : Crypto}

/-- The driver's counter: as long as it has not gone round, the proposals are those of the rounds
    `0, 1, …` in order, and the last one is remembered. -/
def Counted (s : State) : Prop :=
  s.proposals.length ≤ 2 ^ 64 →
    s.proposals.map (fun p => p.1.round.toNat) = List.range s.proposals.length ∧
    s.lastAuthoredRound.map UInt64.toNat =
      if s.proposals.length = 0 then none else some (s.proposals.length - 1)

theorem counted_authorRound {s : State} (hs : Counted s) (timedOut : Bool)
    (signature : List UInt8) : Counted (authorRound C s timedOut signature).1 := by
  unfold authorRound
  split
  · exact hs
  split
  · exact hs
  intro hlen
  have hproposals : (publish C s (draft C s signature)).proposals =
      s.proposals ++ [((draft C s signature).cert, (draft C s signature).block)] := rfl
  have hlen : s.proposals.length + 1 ≤ 2 ^ 64 := by
    have hlen : (publish C s (draft C s signature)).proposals.length ≤ 2 ^ 64 := hlen
    rwa [hproposals, List.length_append, List.length_singleton] at hlen
  obtain ⟨hrounds, hlast⟩ := hs (by omega)
  -- the target is the number of proposals so far
  have htarget : (targetRound s).toNat = s.proposals.length := by
    unfold targetRound
    cases hauthored : s.lastAuthoredRound with
    | none =>
      rw [hauthored, Option.map_none] at hlast
      split at hlast
      · next hzero => rw [hzero]; rfl
      · cases hlast
    | some r =>
      rw [hauthored, Option.map_some] at hlast
      split at hlast
      · cases hlast
      · have hr := Option.some.inj hlast
        show (r + 1).toNat = _
        rw [UInt64.toNat_add, hr, UInt64.toNat_one]
        omega
  have hlast : (publish C s (draft C s signature)).lastAuthoredRound = some (targetRound s) := rfl
  show (publish C s (draft C s signature)).proposals.map (fun p => p.1.round.toNat) = _ ∧
    (publish C s (draft C s signature)).lastAuthoredRound.map UInt64.toNat = _
  rw [hlast, hproposals, List.map_append, hrounds, List.length_append, List.length_singleton, List.range_succ,
    if_neg (by omega), Option.map_some, htarget]
  refine ⟨?_, by rw [Nat.add_sub_cancel]⟩
  show List.range s.proposals.length ++ [(targetRound s).toNat] = _
  rw [htarget]

theorem counted_nodeInvariant : NodeInvariant C (fun _ => True) (fun _ => True) Counted where
  need h hs := hs
  execute hs _ _ _ := (executeCert_frame Counted (by intros; rfl)).mpr hs
  eject hs := hs
  insert hs _ _ _ := hs
  buffer missing hs _ := (bufferOrphan_frame Counted (by intros; rfl)).mpr hs
  waiting _ _ := trivial
  vote v hs := hs
  store hs _ := hs
  author timedOut signature hs := counted_authorRound hs timedOut signature
  accept intent limited nowMs hs := hs
  remember hash auth hs := hs

/-- Messages add no proposal. -/
theorem proposals_inbox (past : List (Certificate × BlockPayload)) :
    InboxInvariant C (fun _ => True) (fun _ => True) (fun s => s.proposals = past) where
  need h hs := hs
  execute hs _ _ _ := (executeCert_frame State.proposals (by intros; rfl)).trans hs
  eject hs := hs
  insert hs _ _ _ := hs
  buffer missing hs _ := (bufferOrphan_frame State.proposals (by intros; rfl)).trans hs
  waiting _ _ := trivial
  vote v hs := hs
  store hs _ := hs

/-- Neither do clients. -/
theorem proposals_client (past : List (Certificate × BlockPayload)) :
    ClientInvariant C (fun s => s.proposals = past) where
  accept intent limited nowMs hs := hs
  remember hash auth hs := hs

theorem proposals_exec_of_not_proposes {action : Action} {s : State} (hquiet : ¬ action.Proposes s) :
    (action.exec C s).proposals = s.proposals := by
  cases action with
  | receive isDynamic msg => exact (proposals_inbox s.proposals).receive rfl (delivers_true _ _)
  | commit => exact (proposals_inbox s.proposals).tryCommit rfl
  | tick timedOut signature =>
    show (authorRound C s timedOut signature).1.proposals = s.proposals
    unfold authorRound
    split
    · rfl
    next hseat =>
    split
    · rfl
    next hmay => exact absurd ⟨not_not.mp hseat, by simpa using hmay⟩ hquiet
  | client ambient msg => exact (proposals_client s.proposals).handleClient ambient msg rfl
  | rpc bytes decoded signature signer nowMs =>
    exact (proposals_client s.proposals).submitIntent bytes decoded signature signer nowMs rfl

theorem proposals_run_of_quiet : ∀ {actions : List Action} {s : State}, Quiet C actions s →
    (runActions C actions s).proposals = s.proposals := by
  intro actions
  induction actions with
  | nil => exact fun _ => rfl
  | cons action actions ih =>
    intro s hquiet
    exact (ih hquiet.2).trans (proposals_exec_of_not_proposes hquiet.1)

theorem length_proposals_exec (action : Action) (s : State) :
    (action.exec C s).proposals.length ≤ s.proposals.length + if action.isTick then 1 else 0 := by
  by_cases hp : action.Proposes s
  · cases action with
    | tick timedOut signature =>
      show (authorRound C s timedOut signature).1.proposals.length ≤ s.proposals.length + 1
      unfold authorRound
      split
      · exact Nat.le_succ _
      split
      · exact Nat.le_succ _
      · exact List.length_append.le
    | receive isDynamic msg => exact hp.elim
    | commit => exact hp.elim
    | client ambient msg => exact hp.elim
    | rpc bytes decoded signature signer nowMs => exact hp.elim
  · rw [proposals_exec_of_not_proposes hp]
    exact Nat.le_add_right _ _

/-- At most one proposal per tick. -/
theorem length_proposals_run : ∀ (actions : List Action) (s : State),
    (runActions C actions s).proposals.length ≤ s.proposals.length + actions.countP Action.isTick := by
  intro actions
  induction actions with
  | nil => exact fun s => le_rfl
  | cons action actions ih =>
    intro s
    have hstep := length_proposals_exec (C := C) action s
    have hrest := ih (action.exec C s)
    rw [List.countP_cons]
    show (runActions C actions (action.exec C s)).proposals.length ≤ _
    omega

variable {manifest : GenesisManifest} {selfId : AuthorityId}

/-- **One lifetime**: two certificates of one round are one. -/
theorem eq_of_mem_signedIn {actions : List Action} (hticks : actions.countP Action.isTick ≤ 2 ^ 64)
    {c d : Certificate} (hc : c ∈ signedIn C manifest selfId actions)
    (hd : d ∈ signedIn C manifest selfId actions) (hround : c.round = d.round) : c = d := by
  have hcounted : Counted (runActions C actions (State.new C manifest selfId)) :=
    counted_nodeInvariant.run (P := Counted) (fun _ => ⟨rfl, rfl⟩) fun _ _ _ => trivial
  have hlen := length_proposals_run (C := C) actions (State.new C manifest selfId)
  have hnew : (State.new C manifest selfId).proposals.length = 0 := rfl
  obtain ⟨hrounds, -⟩ := hcounted (by omega)
  have hnodup : ((signedIn C manifest selfId actions).map fun c => c.round.toNat).Nodup := by
    rw [signedIn, List.map_map]
    exact hrounds ▸ List.nodup_range
  exact List.inj_on_of_nodup_map hnodup hc hd (congrArg UInt64.toNat hround)

theorem signedIn_of_quiet {actions : List Action}
    (hquiet : Quiet C actions (State.new C manifest selfId)) :
    signedIn C manifest selfId actions = [] := by
  rw [signedIn, proposals_run_of_quiet hquiet]
  rfl

/-- **An honest node signs one certificate a round**, and no detector names it, in every sequence of
    lifetimes of which at most one passes the driver's gates. -/
theorem signs_once_per_round {lifetimes : List (List Action)}
    (hone : lifetimes.Pairwise fun earlier later =>
      Quiet C earlier (State.new C manifest selfId) ∨ Quiet C later (State.new C manifest selfId))
    (hticks : ∀ actions ∈ lifetimes, actions.countP Action.isTick ≤ 2 ^ 64) :
    (∀ c ∈ signedOver C manifest selfId lifetimes, ∀ d ∈ signedOver C manifest selfId lifetimes,
      c.round = d.round → c = d) ∧
    ∀ dag : DagStore, dag.Reachable C.blake3 →
      (∀ h c, dag.get h = some c → c.author = selfId →
        ∃ signed ∈ signedOver C manifest selfId lifetimes, signed.encode = c.encode) →
      ∀ p ∈ detectAuthorityEquivocation dag, p.author ≠ selfId := by
  have hunique : ∀ c ∈ signedOver C manifest selfId lifetimes,
      ∀ d ∈ signedOver C manifest selfId lifetimes, c.round = d.round → c = d := by
    intro c hc d hd hround
    obtain ⟨earlier, hearlier, hc⟩ := List.mem_flatMap.mp hc
    obtain ⟨later, hlater, hd⟩ := List.mem_flatMap.mp hd
    by_cases hsame : earlier = later
    · subst hsame
      exact eq_of_mem_signedIn (hticks _ hearlier) hc hd hround
    · -- of two lifetimes one signs nothing
      have hsymm : Std.Symm fun a b =>
          Quiet C a (State.new C manifest selfId) ∨ Quiet C b (State.new C manifest selfId) :=
        ⟨fun _ _ h => h.symm⟩
      rcases hone.forall hearlier hlater hsame with hquiet | hquiet
      · rw [signedIn_of_quiet hquiet] at hc
        cases hc
      · rw [signedIn_of_quiet hquiet] at hd
        cases hd
  refine ⟨hunique, ?_⟩
  intro dag hreach hauthentic p hp hself
  obtain ⟨c, d, ⟨h, hc⟩, ⟨k, hd⟩, hca, hda, hround, hne⟩ :=
    (detectAuthorityEquivocation_iff hreach).mp ⟨p, hp, hself⟩
  obtain ⟨c', hc', hec⟩ := hauthentic h c hc hca
  obtain ⟨d', hd', hed⟩ := hauthentic k d hd hda
  have hsame : c' = d' := hunique c' hc' d' hd' (by
    rw [(encode_inj hec).2.1, (encode_inj hed).2.1, hround])
  apply hne
  rw [Certificate.hash, Certificate.hash, ← hec, ← hed, hsame]

end Signing

/-! ### A restart -/

/-- Authority 0 signs its first certificate; after a restart it gets that certificate back from a peer,
    accepts a payment and ticks. -/
def restartedRun : List (List Action) :=
  [[proposes root0], [delivers root0, submission 0 payment, proposes payA0]]

/-- **A restarted node signs round 0 again**, although its first certificate is in its store, and the
    detector names it on that store. -/
theorem restart_signs_round_again :
    signedOver echoScheme duoManifest 0 restartedRun = [signed root0, signed payA0] ∧
    (signed root0).round = (signed payA0).round ∧ signed root0 ≠ signed payA0 ∧
    ∃ p ∈ detectAuthorityEquivocation (runActions echoScheme
      [delivers root0, submission 0 payment, proposes payA0]
      (State.new echoScheme duoManifest 0)).dag, p.author = 0 := by
  have hrun : signedOver echoScheme duoManifest 0 restartedRun = [signed root0, signed payA0] ∧
      (signed root0).round = (signed payA0).round ∧ signed root0 ≠ signed payA0 ∧
      (detectAuthorityEquivocation (runActions echoScheme
        [delivers root0, submission 0 payment, proposes payA0]
        (State.new echoScheme duoManifest 0)).dag).any (fun p => p.author = 0) = true := by
    decide +kernel
  obtain ⟨p, hp, hauthor⟩ := List.any_eq_true.mp hrun.2.2.2
  exact ⟨hrun.1, hrun.2.1, hrun.2.2.1, p, hp, of_decide_eq_true hauthor⟩

/-- A restarted node that only listens has signed one certificate. -/
theorem signs_once_per_round_listening :
    signedOver echoScheme duoManifest 0 [[proposes root0], [delivers root0]] = [signed root0] ∧
    ∀ c ∈ signedOver echoScheme duoManifest 0 [[proposes root0], [delivers root0]],
      ∀ d ∈ signedOver echoScheme duoManifest 0 [[proposes root0], [delivers root0]],
        c.round = d.round → c = d :=
  ⟨by decide +kernel,
    (signs_once_per_round (by decide +kernel) (by decide)).1⟩

/-! ## Votes -/

/-- The votes an action emits: one for each certificate taken in, if the node is seated then. -/
def Action.votes (C : Crypto) (s : State) : Action → List Vote
  | .receive _ (.cert cert) =>
    let out := ingestCert C s cert
    if out.1.selfId ∈ out.1.committee.authorityRegistry then
      out.2.map fun ic => ⟨out.1.selfId, ic.hash⟩
    else []
  | _ => []

/-- The votes of a run, in order. -/
def votesOver (C : Crypto) : List Action → State → List Vote
  | [], _ => []
  | action :: actions, s => action.votes C s ++ votesOver C actions (action.exec C s)

/-- A certificate that comes in at a seated node with a good signature and that the store takes is the
    first one the node votes for, and none waits for it. -/
def FirstVote (C : Crypto) (emitted : List Vote) (s : State) : Action → Prop
  | .receive _ (.cert cert) =>
    s.selfId ∈ s.committee.authorityRegistry →
      authored C s.committee.authorityRegistry cert = true →
      (s.dag.insert C.blake3 cert).isOk = true →
      emitted = [] ∧ s.orphans[cert.hash C.blake3]?.getD [] = []
  | _ => True

/-- Every action of the run meets it. -/
def VotesOnce (C : Crypto) : List Vote → List Action → State → Prop
  | _, [], _ => True
  | emitted, action :: actions, s => FirstVote C emitted s action ∧
      VotesOnce C (emitted ++ action.votes C s) actions (action.exec C s)

section Voting

variable {C : Crypto}

/-- Ingest leaves the node's id and the registry alone. -/
theorem ingestLoop_seat : ∀ (fuel : Nat) (i : Ingest),
    (ingestLoop C fuel i).state.selfId = i.state.selfId ∧
    (ingestLoop C fuel i).state.committee.authorityRegistry = i.state.committee.authorityRegistry := by
  have hbuffer : ∀ (s : State) (cert : Certificate) (missing : CertHash),
      (bufferOrphan s cert missing).selfId = s.selfId :=
    fun _ _ _ => bufferOrphan_frame State.selfId (by intros; rfl)
  intro fuel
  induction fuel with
  | zero => exact fun _ => ⟨rfl, rfl⟩
  | succ fuel ih =>
    intro i
    rw [ingestLoop]
    split
    · exact ⟨rfl, rfl⟩
    next cert work hcons =>
    obtain ⟨hself, hreg⟩ := ih (ingestStep C cert { i with work })
    rw [hself, hreg]
    unfold ingestStep
    dsimp only
    split
    · exact ⟨rfl, rfl⟩
    split
    · exact ⟨rfl, onInserted_authorityRegistry _ _ _ _⟩
    · exact ⟨hbuffer _ _ _, by rw [bufferOrphan_committee]⟩
    · exact ⟨rfl, rfl⟩

/-- One turn of the ingest loop for a certificate that releases no other. -/
theorem ingestStep_alone {s : State} {cert : Certificate}
    (hfree : authored C s.committee.authorityRegistry cert = true →
      (s.dag.insert C.blake3 cert).isOk = true → s.orphans[cert.hash C.blake3]?.getD [] = []) :
    (ingestStep C cert ⟨s, [], []⟩).work = [] ∧
    (ingestStep C cert ⟨s, [], []⟩).inserted.length ≤
      if authored C s.committee.authorityRegistry cert = true ∧
        (s.dag.insert C.blake3 cert).isOk = true then 1 else 0 := by
  unfold ingestStep
  dsimp only
  split
  · exact ⟨rfl, Nat.zero_le _⟩
  next hauth =>
  have hauth : authored C s.committee.authorityRegistry cert = true := by simpa using hauth
  split
  · next h dag hins =>
    obtain ⟨-, -, -, rfl, -⟩ := DagStore.insert_ok_iff.mp hins
    have hok : (s.dag.insert C.blake3 cert).isOk = true := by rw [hins]; rfl
    rw [hfree hauth hok, if_pos ⟨hauth, hok⟩]
    exact ⟨rfl, le_rfl⟩
  · exact ⟨rfl, Nat.zero_le _⟩
  · exact ⟨rfl, Nat.zero_le _⟩

theorem ingestLoop_of_work_eq_nil {i : Ingest} (hwork : i.work = []) (fuel : Nat) :
    ingestLoop C fuel i = i := by
  cases fuel with
  | zero => rfl
  | succ fuel =>
    rw [ingestLoop]
    split
    · rfl
    · next hcons =>
      rw [hwork] at hcons
      cases hcons

theorem length_ingestCert_alone {s : State} {cert : Certificate}
    (hfree : authored C s.committee.authorityRegistry cert = true →
      (s.dag.insert C.blake3 cert).isOk = true → s.orphans[cert.hash C.blake3]?.getD [] = []) :
    (ingestCert C s cert).2.length ≤ if authored C s.committee.authorityRegistry cert = true ∧
      (s.dag.insert C.blake3 cert).isOk = true then 1 else 0 := by
  obtain ⟨hwork, hlen⟩ := ingestStep_alone hfree
  obtain ⟨fuel, hfirst⟩ := ingestCert_eq C s cert
  rw [hfirst, ingestLoop_of_work_eq_nil hwork fuel]
  exact hlen

/-- **One action** of a node that meets the condition adds a vote only to none. -/
theorem length_votes_le {emitted : List Vote} {s : State} {action : Action}
    (hfirst : FirstVote C emitted s action) (hone : emitted.length ≤ 1) :
    (emitted ++ action.votes C s).length ≤ 1 := by
  unfold Action.votes
  split
  · next isDynamic cert =>
    obtain ⟨hself, hreg⟩ := ingestLoop_seat (C := C) (ingestFuel s) ⟨s, [cert], []⟩
    have hself : (ingestCert C s cert).1.selfId = s.selfId := hself
    have hreg : (ingestCert C s cert).1.committee.authorityRegistry =
      s.committee.authorityRegistry := hreg
    dsimp only
    rw [hself, hreg]
    by_cases hseat : s.selfId ∈ s.committee.authorityRegistry
    · rw [if_pos hseat, List.length_append, List.length_map]
      have hlen := length_ingestCert_alone fun hauth hok => (hfirst hseat hauth hok).2
      split at hlen
      · next htaken =>
        rw [(hfirst hseat htaken.1 htaken.2).1]
        exact Nat.le_trans (Nat.zero_add _).le hlen
      · omega
    · rwa [if_neg hseat, List.append_nil]
  · rwa [List.append_nil]

theorem length_votesOver_le : ∀ {actions : List Action} {emitted : List Vote} {s : State},
    VotesOnce C emitted actions s → emitted.length ≤ 1 →
    (emitted ++ votesOver C actions s).length ≤ 1 := by
  intro actions
  induction actions with
  | nil => exact fun _ h => by rwa [votesOver, List.append_nil]
  | cons action actions ih =>
    intro emitted s hvotes hone
    rw [votesOver, ← List.append_assoc]
    exact ih hvotes.2 (length_votes_le hvotes.1 hone)

/-- **Honest votes are not slashable** in every run in which a seated node takes in one certificate at
    most. -/
theorem honest_votes_not_slashable {manifest : GenesisManifest} {selfId : AuthorityId}
    {actions : List Action} (hvotes : VotesOnce C [] actions (State.new C manifest selfId)) :
    ∀ p ∈ detectValidatorDoubleVote (votesOver C actions (State.new C manifest selfId)),
      p.validator ≠ selfId := by
  intro p hp hself
  have hlen := length_votesOver_le hvotes (Nat.zero_le _)
  rw [List.nil_append] at hlen
  obtain ⟨x, hx, y, hy, -, -, hne⟩ := detectValidatorDoubleVote_iff.mp ⟨p, hp, hself⟩
  -- one vote cannot be two
  match hall : votesOver C actions (State.new C manifest selfId) with
  | [] =>
    rw [hall] at hx
    cases hx
  | [v] =>
    rw [hall, List.mem_singleton] at hx hy
    exact hne (by rw [hx, hy])
  | v :: w :: rest =>
    rw [hall] at hlen
    simp at hlen

end Voting

/-- **Two certificates of two authors** are enough: node 3 votes for both, and the detector names it. -/
theorem two_honest_votes_slashable :
    (signed root0).author ≠ (signed root1).author ∧
    ⟨3, root0.1, root1.1⟩ ∈ detectValidatorDoubleVote (votesOver echoScheme
      [delivers root0, delivers root1] (State.new echoScheme (echoManifest 4) 3)) := by
  decide +kernel

theorem honest_votes_not_slashable_single :
    votesOver echoScheme [delivers root0] (State.new echoScheme (echoManifest 4) 3) =
      [⟨3, root0.1⟩] ∧
    ∀ p ∈ detectValidatorDoubleVote (votesOver echoScheme [delivers root0]
      (State.new echoScheme (echoManifest 4) 3)), p.validator ≠ 3 :=
  ⟨by decide +kernel, honest_votes_not_slashable
    ⟨fun _ _ _ => ⟨rfl, by decide +kernel⟩, trivial⟩⟩

end SuwappuDag.Node
