/-
  HOW MUCH WORK ONE COMMIT DECISION IS.

  1. **Program** — the loops of `decide_slot` and `finalize` once more, each carrying the number of
     evaluations it has made: of `try_direct_decide` in the anchor loop, of `decide_slot` in the walk.
     Forgetting the count gives back the loop (`decideSlotCounted_fst`, `finalizeCounted_fst`).
  2. **Specification** — the work should be bounded by what is stored.
  3. **The crux** — both loops run over round NUMBERS, up to the greatest one in the store, not over the
     rounds that hold a certificate; and `insert` takes any number above the parents'.  So the bound
     holds exactly as long as the greatest round does not pass the number of certificates
     (`commit_work_iff`), and one certificate ten rounds up breaks it (`sparse_round_work`).
-/
import SuwappuDag.Consensus.Agreement

namespace SuwappuDag.Consensus

open Words

/-! ## The loops, counting -/

/-- `scanAnchors`, with `calls` evaluations of `tryDirectDecide` made so far. -/
def scanAnchorsCounted (dag : DagStore) (targetRound : Round) (n : CommitteeSize) :
    Bool → Nat → List Round → LeaderStatus × Nat
  | anyAnchorSeen, calls, [] => (if anyAnchorSeen then .skip else .undecided, calls)
  | anyAnchorSeen, calls, anchorRound :: rest =>
    match tryDirectDecide dag anchorRound n with
    | .direct anchorHash =>
      match tryIndirectDecide dag targetRound anchorHash n with
      | .direct h => (.direct h, calls + 1)
      | _ => scanAnchorsCounted dag targetRound n true (calls + 1) rest
    | _ => scanAnchorsCounted dag targetRound n anyAnchorSeen (calls + 1) rest

/-- `decideSlot` and its evaluations of `tryDirectDecide`. -/
def decideSlotCounted (dag : DagStore) (targetRound : Round) (n : CommitteeSize) :
    LeaderStatus × Nat :=
  match tryDirectDecide dag targetRound n with
  | .direct h => (.direct h, 1)
  | .skip => (.skip, 1)
  | .undecided =>
    match dag.maxRound with
    | none => (.undecided, 1)
    | some maxRound =>
      scanAnchorsCounted dag targetRound n false 1 (roundsIncl (targetRound + 2) maxRound)

/-- `finalizeSlot`, with the evaluations of `decideSlot` made so far. -/
def finalizeSlotCounted (dag : DagStore) (n : CommitteeSize) (acc : List CertHash × Nat) (r : Round) :
    List CertHash × Nat :=
  (finalizeSlot dag n acc.1 r, acc.2 + 1)

/-- `finalize` and its evaluations of `decideSlot`. -/
def finalizeCounted (dag : DagStore) (n : CommitteeSize) : List CertHash × Nat :=
  match dag.maxRound with
  | none => ([], 0)
  | some maxRound => (roundsBelow maxRound).foldl (finalizeSlotCounted dag n) ([], 0)

/-! ## The counting changes nothing -/

section Erase

variable {dag : DagStore} {n : CommitteeSize}

theorem scanAnchorsCounted_fst {targetRound : Round} (rs : List Round) :
    ∀ (seen : Bool) (calls : Nat),
      (scanAnchorsCounted dag targetRound n seen calls rs).1 =
        scanAnchors dag targetRound n seen rs := by
  induction rs with
  | nil => exact fun _ _ => rfl
  | cons R rs ih =>
    intro seen calls
    rw [scanAnchorsCounted, scanAnchors]
    cases tryDirectDecide dag R n with
    | direct a =>
      dsimp only
      cases tryIndirectDecide dag targetRound a n with
      | direct h => rfl
      | skip => exact ih true (calls + 1)
      | undecided => exact ih true (calls + 1)
    | skip => exact ih seen (calls + 1)
    | undecided => exact ih seen (calls + 1)

theorem decideSlotCounted_fst (targetRound : Round) :
    (decideSlotCounted dag targetRound n).1 = decideSlot dag targetRound n := by
  rw [decideSlotCounted, decideSlot]
  cases tryDirectDecide dag targetRound n with
  | direct h => rfl
  | skip => rfl
  | undecided =>
    cases dag.maxRound with
    | none => rfl
    | some maxRound => exact scanAnchorsCounted_fst _ false 1

theorem foldl_finalizeSlotCounted (rs : List Round) : ∀ (acc : List CertHash) (calls : Nat),
    rs.foldl (finalizeSlotCounted dag n) (acc, calls) =
      (rs.foldl (finalizeSlot dag n) acc, calls + rs.length) := by
  induction rs with
  | nil => exact fun _ _ => rfl
  | cons r rs ih =>
    intro acc calls
    rw [List.foldl_cons, List.foldl_cons, finalizeSlotCounted, ih, List.length_cons]
    congr 1
    omega

theorem finalizeCounted_fst : (finalizeCounted dag n).1 = finalize dag n := by
  rw [finalizeCounted, finalize]
  cases dag.maxRound with
  | none => rfl
  | some maxRound => exact congrArg Prod.fst (foldl_finalizeSlotCounted _ [] 0)

end Erase

/-! ## What is counted -/

section Bounds

variable {dag : DagStore} {n : CommitteeSize}

/-- One evaluation for each round of the range at most. -/
theorem scanAnchorsCounted_snd_le (targetRound : Round) (rs : List Round) :
    ∀ (seen : Bool) (calls : Nat),
      (scanAnchorsCounted dag targetRound n seen calls rs).2 ≤ calls + rs.length := by
  induction rs with
  | nil => exact fun _ calls => Nat.le_refl calls
  | cons R rs ih =>
    intro seen calls
    rw [scanAnchorsCounted, List.length_cons]
    split
    · split
      · show calls + 1 ≤ calls + (rs.length + 1)
        omega
      · have hrest := ih true (calls + 1)
        omega
    · have hrest := ih seen (calls + 1)
      omega

theorem length_roundsIncl_le (lo hi : Round) : (roundsIncl lo hi).length ≤ hi.toNat + 1 := by
  rw [roundsIncl, List.length_map, List.length_range']
  omega

/-- Also where `target + 2` wraps to the bottom. -/
theorem decideSlotCounted_snd_le (targetRound : Round) {maxRound : Round}
    (hmax : dag.maxRound = some maxRound) :
    (decideSlotCounted dag targetRound n).2 ≤ maxRound.toNat + 2 := by
  rw [decideSlotCounted]
  split
  · show 1 ≤ maxRound.toNat + 2
    omega
  · show 1 ≤ maxRound.toNat + 2
    omega
  · rw [hmax]
    show (scanAnchorsCounted dag targetRound n false 1 (roundsIncl (targetRound + 2) maxRound)).2 ≤ _
    calc (scanAnchorsCounted dag targetRound n false 1 (roundsIncl (targetRound + 2) maxRound)).2
        ≤ 1 + (roundsIncl (targetRound + 2) maxRound).length := scanAnchorsCounted_snd_le _ _ _ _
      _ ≤ 1 + (maxRound.toNat + 1) := Nat.add_le_add_left (length_roundsIncl_le _ _) 1
      _ = maxRound.toNat + 2 := by omega

/-- The walk evaluates every round number below the greatest one. -/
theorem finalizeCounted_snd {maxRound : Round} (hmax : dag.maxRound = some maxRound) :
    (finalizeCounted dag n).2 = maxRound.toNat := by
  rw [finalizeCounted, hmax]
  show ((roundsBelow maxRound).foldl (finalizeSlotCounted dag n) ([], 0)).2 = maxRound.toNat
  rw [foldl_finalizeSlotCounted, roundsBelow, List.length_map, List.length_range, Nat.zero_add]

end Bounds

/-- **Commit work** is bounded by the number of stored certificates if and only if no round number
    passes it. -/
theorem commit_work_iff (dag : DagStore) (n : CommitteeSize) :
    (∀ target ∈ dag.rounds, (decideSlotCounted dag target n).2 ≤ dag.certs.size + 2) ∧
        (finalizeCounted dag n).2 ≤ dag.certs.size ↔
      ∀ maxRound, dag.maxRound = some maxRound → maxRound.toNat ≤ dag.certs.size := by
  constructor
  · rintro ⟨-, hwalk⟩ maxRound hmax
    rwa [finalizeCounted_snd hmax] at hwalk
  · intro hbound
    cases hmax : dag.maxRound with
    | none =>
      refine ⟨fun target _ => ?_, ?_⟩
      · rw [decideSlotCounted, hmax]
        split <;> exact Nat.le_add_left 1 _
      · rw [finalizeCounted, hmax]
        exact Nat.zero_le _
    | some maxRound =>
      have hle := hbound maxRound hmax
      refine ⟨fun target _ => ?_, ?_⟩
      · have hcalls := decideSlotCounted_snd_le (n := n) target hmax
        omega
      · rw [finalizeCounted_snd hmax]
        exact hle

/-- A certificate ten rounds above its parent. -/
def distant : CertHash × Certificate :=
  (0x3788446a9c634cd8c818b9e8a7c5c9cbe4eb21bed8628cb0707e56644a4f203f#256,
    ⟨0, 10, [twinA.1], 0, []⟩)

/-- **Two certificates, ten evaluations** of each kind: more than `2 + 2` and more than `2`. -/
theorem sparse_round_work :
    (DagStore.new.recordAll [twinA, distant]).Reachable Blake3.hash ∧
    (DagStore.new.recordAll [twinA, distant]).certs.size = 2 ∧
    0 ∈ (DagStore.new.recordAll [twinA, distant]).rounds ∧
    (decideSlotCounted (DagStore.new.recordAll [twinA, distant]) 0 1).2 = 10 ∧
    (finalizeCounted (DagStore.new.recordAll [twinA, distant]) 1).2 = 10 := by
  refine ⟨DagStore.extends_recordAll (by decide +kernel) (by decide +kernel), ?_⟩
  decide +kernel

end SuwappuDag.Consensus
