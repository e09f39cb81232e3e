/-
  OLD SLOTS UNDER A NEW COMMITTEE.

  Every call of `try_commit` decides ALL rounds of the store again, with the committee size of the
  moment.  The size goes into the leader of a slot, into the quorum and so into the anchors.

  1. **Program** — `commitCalls`: the states in which a run calls `try_commit`, in order.
  2. **Stability** — the store only grows from call to call (`commitCalls_extends`), so a slot once
     decided stays decided, for as long as the size is the same (`slot_stays_decided`).
  3. **The crux** — with another size nothing carries over.  Authority 7 is admitted by authorities 0
     and 1; its first certificate makes the size three, and slot 0, decided by two out of two and
     executed long ago, is undecided again (`activation_reopens_slot`).
-/
import SuwappuDag.Node.Membership

namespace SuwappuDag.Node

open Words Consensus Execution
open Std (ExtTreeMap)

/-- The state in which an action calls `try_commit`, if it does. -/
def Action.commitCall (C : Crypto) (s : State) : Action → Option State
  | .receive _ (.cert cert) =>
    let out := ingestCert C s cert
    some (voteFor out.1 out.2)
  | .receive isDynamic (.vote vote) => if isDynamic then none else some (pushVote s vote)
  | .commit => some s
  | _ => none

/-- The calls of a run. -/
def commitCalls (C : Crypto) : List Action → State → List State
  | [], _ => []
  | action :: actions, s => (action.commitCall C s).toList ++ commitCalls C actions (action.exec C s)

section Calls

variable {C : Crypto}

/-- The call is the last thing the action does. -/
theorem exec_of_commitCall {s t : State} {action : Action} (hcall : action.commitCall C s = some t) :
    action.exec C s = tryCommit C t := by
  unfold Action.commitCall at hcall
  split at hcall
  · cases hcall
    rfl
  · next isDynamic vote =>
    split at hcall
    · cases hcall
    · next hpeer =>
      cases hcall
      exact if_neg hpeer
  · cases hcall
    rfl
  · cases hcall

theorem extends_commitCall {s t : State} {action : Action} (hcall : action.commitCall C s = some t) :
    DagStore.Extends C.blake3 s.dag t.dag := by
  have inv := extends_nodeInvariant (C := C) s.dag
  unfold Action.commitCall at hcall
  split at hcall
  · next isDynamic cert =>
    cases hcall
    exact inv.voteFor (P := fun t => DagStore.Extends C.blake3 s.dag t.dag) _
      (inv.ingestLoop (P := fun t => DagStore.Extends C.blake3 s.dag t.dag) _ .refl rfl
        fun _ _ _ => trivial)
  · split at hcall
    · cases hcall
    · cases hcall
      exact .refl
  · cases hcall
    exact .refl
  · cases hcall

theorem extends_of_mem_commitCalls : ∀ {actions : List Action} {s t : State},
    t ∈ commitCalls C actions s → DagStore.Extends C.blake3 s.dag t.dag := by
  intro actions
  induction actions with
  | nil => exact fun ht => absurd ht List.not_mem_nil
  | cons action actions ih =>
    intro s t ht
    rcases List.mem_append.mp ht with ht | ht
    · exact extends_commitCall (Option.mem_toList.mp ht)
    · exact (extends_exec action s).trans (ih ht)

/-- From call to call the store only grows. -/
theorem commitCalls_extends : ∀ (actions : List Action) (s : State),
    (commitCalls C actions s).Pairwise fun x y => DagStore.Extends C.blake3 x.dag y.dag := by
  intro actions
  induction actions with
  | nil => exact fun _ => List.Pairwise.nil
  | cons action actions ih =>
    intro s
    refine List.pairwise_append.mpr ⟨?_, ih _, fun x hx y hy => ?_⟩
    · cases action.commitCall C s with
      | none => exact List.Pairwise.nil
      | some t => exact List.pairwise_singleton _ t
    · have hlast := exec_of_commitCall (Option.mem_toList.mp hx)
      rw [hlast] at hy
      exact (extends_exec .commit x).trans (extends_of_mem_commitCalls hy)

/-- **A decided slot stays decided** at every later call that finds the committee size as it was, in
    a store without equivocation. -/
theorem slot_stays_decided {manifest : GenesisManifest} {selfId : AuthorityId} {actions : List Action}
    {i j : Nat} {x y : State}
    (hi : (commitCalls C actions (State.new C manifest selfId))[i]? = some x)
    (hj : (commitCalls C actions (State.new C manifest selfId))[j]? = some y) (hij : i < j)
    (hone : OneCertPerRound y.dag) (hfit : CountsFit y.dag)
    (hsize : y.committee.nAuthorities = x.committee.nAuthorities) {r : Round} {h : CertHash}
    (hd : decideSlot x.dag r x.committee.nAuthorities = .direct h) :
    decideSlot y.dag r y.committee.nAuthorities = .direct h := by
  obtain ⟨hi', rfl⟩ := List.getElem?_eq_some_iff.mp hi
  obtain ⟨hj', rfl⟩ := List.getElem?_eq_some_iff.mp hj
  have hgrows := List.pairwise_iff_getElem.mp (commitCalls_extends actions _) i j hi' hj' hij
  have hreach := extends_of_mem_commitCalls (List.getElem_mem hi')
  have wf := DagStore.Reachable.wellFormed hreach
  rw [hsize]
  exact hgrows.sub.decided wf (hgrows.wellFormed wf) hfit hone hd

end Calls

/-! ## An activation -/

/-- The first certificate of authority 7. -/
def root7 : CertHash × Certificate :=
  (0x5a44a9d61cfc771856ce789e5ff7e18dca08ce1c318dcae402bf5db868e3d7e3#256,
    ⟨7, 0, [], emptyPayload, []⟩)

/-- The calls of the admission run, and of one more certificate. -/
def activationCalls : List State :=
  commitCalls briefScheme (admissionRun ++ [.receive false (.cert (briefSigned root7))])
    (State.new briefScheme briefManifest 5)

/-- `OneCertPerRound`, entry by entry. -/
def onePerRound (dag : DagStore) : Bool :=
  dag.certs.toList.all fun p => dag.certs.toList.all fun q =>
    p.2.author ≠ q.2.author || p.2.round ≠ q.2.round || p.1 = q.1

theorem oneCertPerRound_of_toList {dag : DagStore} (hall : onePerRound dag = true) :
    OneCertPerRound dag := by
  intro h k c d hc hd ha hr
  have hpair := List.all_eq_true.mp
    (List.all_eq_true.mp hall (h, c) (ExtTreeMap.mem_toList_iff_getElem?_eq_some.mpr hc)) (k, d)
    (ExtTreeMap.mem_toList_iff_getElem?_eq_some.mpr hd)
  simpa [ha, hr] using hpair

/-- Slot 0 is decided at the first vote and claimed; the second vote finds the committee as it was, and
    the certificate of authority 7 does not. -/
theorem activationCalls_run :
    ((activationCalls[6]?).any fun x => x.committee.nAuthorities = 2 ∧
      decideSlot x.dag 0 x.committee.nAuthorities = .direct admit0.1 ∧
      admit0.1 ∈ (tryCommit briefScheme x).committed) = true ∧
    ((activationCalls[7]?).any fun y => y.committee.nAuthorities = 2 ∧ onePerRound y.dag = true ∧
      ∀ p ∈ y.dag.certs.toList, p.2.author < 2) = true ∧
    ((activationCalls[8]?).any fun y => onePerRound y.dag = true ∧
      decideSlot y.dag 0 y.committee.nAuthorities = .undecided) = true := by
  decide +kernel

/-- **Slot 0 was decided and executed, and is undecided again** when authority 7 has shown up; nobody
    has equivocated. -/
theorem activation_reopens_slot :
    ∃ x y, activationCalls[6]? = some x ∧ activationCalls[8]? = some y ∧ OneCertPerRound y.dag ∧
      decideSlot x.dag 0 x.committee.nAuthorities = .direct admit0.1 ∧
      admit0.1 ∈ (tryCommit briefScheme x).committed ∧
      decideSlot y.dag 0 y.committee.nAuthorities = .undecided := by
  obtain ⟨x, hx, hfirst⟩ := Option.any_eq_true _ _ |>.mp activationCalls_run.1
  obtain ⟨y, hy, hlast⟩ := Option.any_eq_true _ _ |>.mp activationCalls_run.2.2
  obtain ⟨-, hdecided, hclaimed⟩ := of_decide_eq_true hfirst
  obtain ⟨hone, hopen⟩ := of_decide_eq_true hlast
  exact ⟨x, y, hx, hy, oneCertPerRound_of_toList hone, hdecided, hclaimed, hopen⟩

/-- At the second vote slot 0 is still decided. -/
theorem slot_stays_decided_voted :
    ∃ x y, activationCalls[6]? = some x ∧ activationCalls[7]? = some y ∧
      decideSlot x.dag 0 x.committee.nAuthorities = .direct admit0.1 ∧
      decideSlot y.dag 0 y.committee.nAuthorities = .direct admit0.1 := by
  obtain ⟨x, hx, hfirst⟩ := Option.any_eq_true _ _ |>.mp activationCalls_run.1
  obtain ⟨y, hy, hnext⟩ := Option.any_eq_true _ _ |>.mp activationCalls_run.2.1
  obtain ⟨hsizeX, hdecided, -⟩ := of_decide_eq_true hfirst
  obtain ⟨hsizeY, hone, hauthors⟩ := of_decide_eq_true hnext
  have wf : y.dag.WellFormed briefScheme.blake3 :=
    DagStore.Reachable.wellFormed (extends_of_mem_commitCalls (List.mem_of_getElem? hy))
  have hbelow : AuthorsBelow 2 y.dag := fun h c hc =>
    hauthors (h, c) (ExtTreeMap.mem_toList_iff_getElem?_eq_some.mpr hc)
  exact ⟨x, y, hx, hy, hdecided, slot_stays_decided hx hy (by decide)
    (oneCertPerRound_of_toList hone) (hbelow.countsFit wf) (hsizeY.trans hsizeX.symm) hdecided⟩

end SuwappuDag.Node
