/-
  EPOCHS AND THE GOVERNANCE QUEUE (`daemon.rs`, the end of `try_commit`).

  1. **Program** — `executeCert` puts the governance of a block at the end of the queue and then, if the
     round lies in a later epoch than the current one, sets the epoch and drains the whole queue.
  2. **Specification** — over the executions so far, in commit order: the epoch is the highest of their
     epochs; and the governance of an execution has been handed over exactly if that execution or a
     later one CROSSED, that is, lay in a higher epoch than every execution before it (`Crosses`).
  3. **Crux (`batched_execute`)** — rounds do not rise in commit order, so `Crosses` compares with all
     that came before.  Handed over is a prefix of the executions, up to the last crossing; a new
     execution either crosses, and everything is handed over, or leaves the prefix where it was.
-/
import SuwappuDag.Node.Governance

namespace SuwappuDag.Node

open Words Consensus Execution

/-! ## Crossings -/

/-- The highest epoch of the executions. -/
def highestEpoch (roundsPerEpoch : UInt64) (l : List ExecutedBlock) : UInt64 :=
  l.foldl (fun m e => max m (e.round / roundsPerEpoch)) 0

/-- The `k`-th execution lies in a higher epoch than all before it. -/
def Crosses (roundsPerEpoch : UInt64) (l : List ExecutedBlock) (k : Nat) : Prop :=
  ∃ e, l[k]? = some e ∧ highestEpoch roundsPerEpoch (l.take k) < e.round / roundsPerEpoch

/-- The governance intents of an execution, each with the first envelope listed for its position. -/
def ExecutedBlock.governance (e : ExecutedBlock) : List (Intent × Option GovAuth) :=
  governanceOf e.intents e.governanceAuth

variable {rpe : UInt64} {l : List ExecutedBlock} {e : ExecutedBlock}

theorem highestEpoch_append_singleton (rpe : UInt64) (l : List ExecutedBlock) (e : ExecutedBlock) :
    highestEpoch rpe (l ++ [e]) = max (highestEpoch rpe l) (e.round / rpe) := by
  rw [highestEpoch, List.foldl_append]
  rfl

theorem Crosses.lt {k : Nat} (h : Crosses rpe l k) : k < l.length := by
  obtain ⟨e, he, -⟩ := h
  exact (List.getElem?_eq_some_iff.mp he).1

theorem crosses_append_of_lt {k : Nat} (hk : k < l.length) :
    Crosses rpe (l ++ [e]) k ↔ Crosses rpe l k := by
  unfold Crosses
  rw [List.getElem?_append_left hk, List.take_append_of_le_length hk.le]

theorem crosses_append_last : Crosses rpe (l ++ [e]) l.length ↔ highestEpoch rpe l < e.round / rpe := by
  unfold Crosses
  simp

/-! ## What has been handed over -/

/-- The epoch is the highest; calls and queue split the governance executed at the last crossing. -/
structure Batched (rpe : UInt64) (s : State) : Prop where
  rounds : s.epoch.roundsPerEpoch = rpe
  epoch : s.epoch.current = highestEpoch rpe s.executions
  split : ∃ n, (∀ i, i < n ↔ ∃ k, i ≤ k ∧ Crosses rpe s.executions k) ∧
    s.drains.map (fun d => (d.intent, d.auth)) =
      (s.executions.take n).flatMap ExecutedBlock.governance ∧
    s.pendingGovernance = (s.executions.drop n).flatMap ExecutedBlock.governance

theorem boundaryCrossedBy_iff {epoch : EpochState} (h0 : epoch.roundsPerEpoch ≠ 0) (round : Round) :
    epoch.boundaryCrossedBy round = true ↔ epoch.current < round / epoch.roundsPerEpoch := by
  rw [EpochState.boundaryCrossedBy, EpochState.epochFor, if_neg h0, decide_eq_true_iff]

/-- **Step lemma**. -/
theorem batched_execute {C : Crypto} (h0 : rpe ≠ 0) {s : State} (hs : Batched rpe s) (h : CertHash)
    (cert : Certificate) (block : BlockPayload) : Batched rpe (executeCert C s h cert block) := by
  obtain ⟨hrpe, hepoch, n, hn, hdrains, hqueue⟩ := hs
  generalize hnew : (⟨h, cert.round, block.intents, block.governanceAuth, s.substrate⟩ :
    ExecutedBlock) = e
  have hgov : governanceOf block.intents block.governanceAuth = e.governance := by rw [← hnew]; rfl
  have hround : e.round = cert.round := by rw [← hnew]
  have hcross : s.epoch.boundaryCrossedBy cert.round = true ↔
      highestEpoch rpe s.executions < e.round / rpe := by
    rw [boundaryCrossedBy_iff (hrpe ▸ h0), hrpe, hepoch, hround]
  have hle : n ≤ s.executions.length := by
    by_contra hlt
    obtain ⟨k, hk, hc⟩ := (hn s.executions.length).mp (not_le.mp hlt)
    exact absurd hc.lt (not_lt.mpr hk)
  by_cases hb : s.epoch.boundaryCrossedBy cert.round = true
  · -- everything up to here is handed over
    have hstate : executeCert C s h cert block = _ := if_pos hb
    have hex : (executeCert C s h cert block).executions = s.executions ++ [e] := by
      rw [executeCert_executions, hnew]
    refine ⟨by rw [hstate]; exact hrpe, ?_, s.executions.length + 1, fun i => ?_, ?_, ?_⟩
    · rw [hex, highestEpoch_append_singleton, max_eq_right (hcross.mp hb).le, hstate, hround, ← hrpe]
      exact if_neg (hrpe ▸ h0)
    · rw [hex]
      refine ⟨fun hi => ⟨s.executions.length, Nat.lt_succ_iff.mp hi,
        crosses_append_last.mpr (hcross.mp hb)⟩, ?_⟩
      rintro ⟨k, hik, hc⟩
      have := hc.lt
      rw [List.length_append, List.length_singleton] at this
      omega
    · rw [hex, List.take_of_length_le (by simp), hstate]
      show (s.drains ++ (drainQueue C _ _ _).2).map _ = _
      rw [List.map_append, drainQueue_map, hdrains, hqueue, hgov, List.flatMap_append,
        List.flatMap_singleton, ← List.append_assoc, ← List.flatMap_append, List.take_append_drop]
    · rw [hex, List.drop_of_length_le (by simp), hstate]
      rfl
  · -- the queue grows
    have hstate : executeCert C s h cert block = _ := if_neg hb
    have hex : (executeCert C s h cert block).executions = s.executions ++ [e] := by
      rw [executeCert_executions, hnew]
    have hlow : ¬ highestEpoch rpe s.executions < e.round / rpe := fun hlt => hb (hcross.mpr hlt)
    refine ⟨by rw [hstate]; exact hrpe, ?_, n, fun i => ?_, ?_, ?_⟩
    · rw [hex, highestEpoch_append_singleton, max_eq_left (not_lt.mp hlow), hstate]
      exact hepoch
    · rw [hn i, hex]
      refine exists_congr fun k => and_congr_right fun _ => ?_
      by_cases hk : k < s.executions.length
      · exact (crosses_append_of_lt hk).symm
      · refine iff_of_false (fun hc => hk hc.lt) fun hc => ?_
        have hlast : k = s.executions.length := by
          have := hc.lt
          rw [List.length_append, List.length_singleton] at this
          omega
        subst hlast
        exact hlow (crosses_append_last.mp hc)
    · rw [hex, List.take_append_of_le_length hle, hstate]
      exact hdrains
    · rw [hex, List.drop_append_of_le_length hle, List.flatMap_append, List.flatMap_singleton,
        ← hqueue, ← hgov, hstate]

/-! ## Runs -/

/-- What depends on the epoch, the executions, the calls and the queue is changed by executions only. -/
theorem queue_nodeInvariant {C : Crypto} {P : State → Prop}
    (hframe : ∀ {s t : State}, P s → t.epoch = s.epoch → t.executions = s.executions →
      t.drains = s.drains → t.pendingGovernance = s.pendingGovernance → P t)
    (hexecute : ∀ {s : State} (h : CertHash) (cert : Certificate) (block : BlockPayload), P s →
      P (executeCert C s h cert block)) : NodeInvariant C (fun _ => True) (fun _ => True) P where
  need h hs := hframe hs rfl rfl rfl rfl
  execute hs _ _ _ := hexecute _ _ _ hs
  eject hs := hframe hs rfl rfl rfl rfl
  insert hs _ _ _ := hframe hs rfl rfl rfl rfl
  buffer missing hs _ := by
    unfold bufferOrphan
    split
    · exact hs
    · exact hframe hs rfl rfl rfl rfl
  waiting _ _ := trivial
  vote v hs := hframe hs rfl rfl rfl rfl
  store hs _ := hframe hs rfl rfl rfl rfl
  author timedOut signature hs := by
    unfold authorRound
    split
    · exact hs
    split
    · exact hs
    · exact hframe hs rfl rfl rfl rfl
  accept intent limited nowMs hs := hframe hs rfl rfl rfl rfl
  remember hash auth hs := hframe hs rfl rfl rfl rfl

theorem batched_nodeInvariant {C : Crypto} (h0 : rpe ≠ 0) :
    NodeInvariant C (fun _ => True) (fun _ => True) (Batched rpe) := by
  refine queue_nodeInvariant ?_ fun h cert block hs => batched_execute h0 hs h cert block
  rintro s t ⟨hrpe, hepoch, hsplit⟩ he hex hd hp
  exact ⟨by rw [he, hrpe], by rw [he, hex, hepoch], by rwa [hex, hd, hp]⟩

/-- The epoch never falls. -/
theorem ahead_nodeInvariant {C : Crypto} (epoch : UInt64) :
    NodeInvariant C (fun _ => True) (fun _ => True) fun s => epoch ≤ s.epoch.current := by
  refine queue_nodeInvariant (fun hs he _ _ _ => he ▸ hs) fun {s} h cert block hs => ?_
  by_cases hb : s.epoch.boundaryCrossedBy cert.round = true
  · have hstate : executeCert C s h cert block = _ := if_pos hb
    rw [hstate]
    exact hs.trans (of_decide_eq_true hb).le
  · have hstate : executeCert C s h cert block = _ := if_neg hb
    rw [hstate]
    exact hs

/-- **Epochs and batches**: in every run the epoch is the highest of the executed certificates' epochs
    and never falls; the governance of the executions up to the last crossing has been handed over, in
    commit order, each intent once and with the first envelope its block lists for it; what came
    later is queued, in that order. -/
theorem governance_batched (C : Crypto) (manifest : GenesisManifest)
    (hrounds : 1 ≤ manifest.roundsPerEpoch) (selfId : AuthorityId) (actions more : List Action) :
    let s := runActions C actions (State.new C manifest selfId)
    s.epoch.current = highestEpoch manifest.roundsPerEpoch s.executions ∧
    s.epoch.current ≤ (runActions C (actions ++ more) (State.new C manifest selfId)).epoch.current ∧
    ∃ n, (∀ i, i < n ↔ ∃ k, i ≤ k ∧ Crosses manifest.roundsPerEpoch s.executions k) ∧
      s.drains.map (fun d => (d.intent, d.auth)) =
        (s.executions.take n).flatMap ExecutedBlock.governance ∧
      s.pendingGovernance = (s.executions.drop n).flatMap ExecutedBlock.governance := by
  intro s
  have h0 : manifest.roundsPerEpoch ≠ 0 := by
    intro heq
    rw [heq] at hrounds
    exact absurd hrounds (by decide)
  have hstart : Batched manifest.roundsPerEpoch (State.new C manifest selfId) :=
    ⟨rfl, rfl, 0, by simp [Crosses, State.new], rfl, rfl⟩
  have hs : Batched manifest.roundsPerEpoch s :=
    (batched_nodeInvariant h0).run hstart fun _ _ _ => trivial
  refine ⟨hs.epoch, ?_, hs.split⟩
  rw [runActions, List.foldl_append]
  exact (ahead_nodeInvariant s.epoch.current).run (P := fun t => s.epoch.current ≤ t.epoch.current)
    (le_refl _) fun _ _ _ => trivial

/-- An epoch a round: the second certificate that commits hands over the admission of the first. -/
theorem governance_batched_admission :
    unsignedAdmissionState.drains.map (fun d => d.intent) = [unsignedAdmission] ∧
    unsignedAdmissionState.epoch.current =
      highestEpoch hastyManifest.roundsPerEpoch unsignedAdmissionState.executions :=
  ⟨by decide +kernel, (governance_batched echoScheme hastyManifest (by decide) 5 unsignedAdmissionRun
    []).1⟩

end SuwappuDag.Node
