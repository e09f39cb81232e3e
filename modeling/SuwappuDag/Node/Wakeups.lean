/-
  ORPHANS AND THE CALLS THAT RELEASE THEM, `ingest_cert` called many times at once.

  A certificate whose parent is missing is buffered under that parent, and whoever inserts the parent
  takes the bucket along.  But the insert that FAILS and the buffering are two lock sections, and so are
  the insert that SUCCEEDS and the taking of the bucket: in between, others move.

  1. **Sections (`orphanStep`)** — what one section does to the store, to the buffer and to the release
     that the call owes.
  2. **In time** — buffering is in time where the parent is not in the store, or the call that put it
     there has yet to come for the bucket.  Then every bucket stays covered (`Covered`).
  3. **Too late** — a bucket opened after its release is opened for good: the parent is never inserted
     a second time, so nobody comes for it (`Stranded`).

  Hence `no_lost_orphan_iff`, and `orphan_left_behind` is the run where the two sections cross.
-/
import SuwappuDag.Node.SignedBlocks

namespace SuwappuDag.Node

open Words Consensus Execution Interleave
open Std (ExtTreeMap)

/-! ## What the sections do to the buffer -/

/-- The certificate that a call has inserted and whose orphans it has yet to take. -/
def IngestPc.releases : IngestPc → Option CertHash
  | .evict _ _ h => some h
  | .note _ _ h => some h
  | _ => none

/-- The parent under which a call is about to buffer its certificate. -/
def IngestPc.waitsFor (pc : IngestPc) (s : State) : Option CertHash :=
  match pc with
  | .buffer _ _ missing => if orphanCount s.orphans < maxOrphanCerts then some missing else none
  | _ => none

/-- The call has not begun, or is over. -/
def IngestPc.resting : IngestPc → Bool
  | .verify i _ => i.work.isEmpty && i.inserted.isEmpty
  | .done _ => true
  | _ => false

/-- What a section changes of the store, of the buffer and of what the call owes. -/
inductive OrphanStep (C : Crypto) (pc : IngestPc) (s : State) (pc' : IngestPc) (s' : State) : Prop where
  | quiet (hdag : s'.dag = s.dag) (horphans : s'.orphans = s.orphans)
      (howed : pc'.releases = pc.releases) (hwaits : pc.waitsFor s = none)
  | insert {cert : Certificate} {h : CertHash} (hins : s.dag.insert C.blake3 cert = .ok (h, s'.dag))
      (horphans : s'.orphans = s.orphans) (hfree : pc.releases = none) (howes : pc'.releases = some h)
      (hwaits : pc.waitsFor s = none)
  | release {h : CertHash} (hdag : s'.dag = s.dag) (horphans : s'.orphans = s.orphans.erase h)
      (howed : pc.releases = some h) (hfree : pc'.releases = none) (hwaits : pc.waitsFor s = none)
  | buffer {cert : Certificate} {missing : CertHash} (hdag : s'.dag = s.dag)
      (horphans : s'.orphans =
        s.orphans.insert missing (s.orphans[missing]?.getD [] ++ [cert]))
      (hfree : pc.releases = none) (hfree' : pc'.releases = none)
      (hwaits : pc.waitsFor s = some missing)

section Steps

variable {C : Crypto}

theorem Ingesting.next_releases (i : Ingesting) : i.next.releases = none := by
  unfold Ingesting.next
  split <;> rfl

/-- **Sections**: every section of `ingest_cert` is one of these. -/
theorem orphanStep (pc : IngestPc) (s : State) :
    OrphanStep C pc s (pc.step C s).1 (pc.step C s).2 := by
  cases pc with
  | verify i cert =>
    refine .quiet rfl rfl ?_ rfl
    unfold IngestPc.step
    dsimp only
    split
    · exact i.next_releases
    · rfl
  | insert i cert =>
    unfold IngestPc.step
    dsimp only
    split
    · next h dag hins => exact .insert hins rfl rfl rfl rfl
    · exact .quiet rfl rfl rfl rfl
    · exact .quiet rfl rfl i.next_releases rfl
  | evict i cert h => exact .quiet rfl rfl rfl rfl
  | note i cert h =>
    refine .release (h := h) rfl rfl rfl ?_ rfl
    unfold IngestPc.step
    dsimp only
    split
    · exact Ingesting.next_releases _
    · rfl
  | activate i author stake => exact .quiet rfl rfl i.next_releases rfl
  | buffer i cert missing =>
    by_cases hroom : orphanCount s.orphans < maxOrphanCerts
    · have hstate : bufferOrphan s cert missing = { s with
          orphans := s.orphans.insert missing (s.orphans[missing]?.getD [] ++ [cert])
          inflightFetches := insert missing s.inflightFetches } :=
        if_neg (Nat.not_le.mpr hroom)
      have horphans : (bufferOrphan s cert missing).orphans =
          s.orphans.insert missing (s.orphans[missing]?.getD [] ++ [cert]) := by rw [hstate]
      refine .buffer ?_ horphans rfl i.next_releases (if_pos hroom)
      show (bufferOrphan s cert missing).dag = s.dag
      rw [hstate]
    · -- the buffer is full and the certificate is dropped
      have hstate : bufferOrphan s cert missing = s := if_pos (Nat.not_lt.mp hroom)
      refine .quiet ?_ ?_ i.next_releases (if_neg hroom)
      · show (bufferOrphan s cert missing).dag = s.dag
        rw [hstate]
      · show (bufferOrphan s cert missing).orphans = s.orphans
        rw [hstate]
  | done inserted => exact .quiet rfl rfl rfl rfl

end Steps

/-! ## Buckets -/

/-- A certificate is buffered under `h`. -/
def State.Waiting (s : State) (h : CertHash) : Prop := ∃ cert, cert ∈ s.orphans[h]?.getD []

/-- No certificate is buffered under a parent that is in the store. -/
def NoLostOrphan (s : State) : Prop := ∀ h, s.Waiting h → s.dag.get h = none

/-- Some call is to take the bucket of `h`. -/
def Owed (m : Machine State IngestPc) (h : CertHash) : Prop := h ∈ m.tasks.filterMap IngestPc.releases

/-- Every bucket waits for an insert or for a call that will take it. -/
def Covered (m : Machine State IngestPc) : Prop :=
  ∀ h, m.shared.Waiting h → m.shared.dag.get h = none ∨ Owed m h

/-- A bucket whose parent is in the store, and nobody comes for it. -/
def Stranded (m : Machine State IngestPc) : Prop :=
  ∃ h, m.shared.Waiting h ∧ m.shared.dag.get h ≠ none ∧ ¬ Owed m h

/-- If call `i` is about to buffer a certificate, then its parent is not in the store, or the call that
    inserted the parent has not come for the bucket yet. -/
def InTime (m : Machine State IngestPc) (i : Nat) : Prop :=
  ∀ pc ∈ m.tasks[i]?, ∀ missing ∈ pc.waitsFor m.shared,
    m.shared.dag.get missing = none ∨ Owed m missing

/-- The calls for `certs`, none of them begun. -/
def ingestCalls (s : State) (certs : List Certificate) : Machine State IngestPc :=
  ⟨s, certs.map (.verify ⟨[], []⟩)⟩

section Buckets

variable {C : Crypto} {m : Machine State IngestPc} {i : Nat}

theorem waiting_of_orphans_eq {s s' : State} (h : s'.orphans = s.orphans) {key : CertHash} :
    s'.Waiting key ↔ s.Waiting key := by
  rw [State.Waiting, State.Waiting, h]

theorem waiting_of_erase {s s' : State} {h key : CertHash} (he : s'.orphans = s.orphans.erase h) :
    s'.Waiting key ↔ key ≠ h ∧ s.Waiting key := by
  simp only [State.Waiting, he, Buckets.mem_getD_erase, exists_and_left]

theorem waiting_of_insert {s s' : State} {cert : Certificate} {missing key : CertHash}
    (hi : s'.orphans = s.orphans.insert missing (s.orphans[missing]?.getD [] ++ [cert])) :
    s'.Waiting key ↔ key = missing ∨ s.Waiting key := by
  simp only [State.Waiting, hi, Buckets.mem_getD_push, exists_or, exists_and_left, exists_eq, and_true]

/-- What the call that moves owes, beside what the others owe. -/
theorem owed_step {pc : IngestPc} (ht : m.tasks[i]? = some pc) (pc' : IngestPc) (s' : State) :
    ∃ others : List CertHash, ∀ h, (Owed m h ↔ pc.releases = some h ∨ h ∈ others) ∧
      (Owed ⟨s', m.tasks.set i pc'⟩ h ↔ pc'.releases = some h ∨ h ∈ others) :=
  mem_filterMap_set IngestPc.releases ht pc'

/-- **Step lemma**: buckets opened in time stay covered. -/
theorem Covered.step (hc : Covered m) (hp : InTime m i) :
    Covered (m.step (IngestPc.step C) i) := by
  unfold Machine.step
  split
  · exact hc
  next pc ht =>
  obtain ⟨others, howed⟩ := owed_step ht (pc.step C m.shared).1 (pc.step C m.shared).2
  intro key hwait
  rw [(howed key).2]
  have hold : m.shared.Waiting key → m.shared.dag.get key = none ∨ pc.releases = some key ∨
      key ∈ others := fun h => (hc key h).imp_right (howed key).1.mp
  cases orphanStep (C := C) pc m.shared with
  | quiet hdag horphans howes hwaits =>
    rw [hdag, howes]
    exact hold ((waiting_of_orphans_eq horphans).mp hwait)
  | @insert cert h hins horphans hfree howes hwaits =>
    rw [howes]
    by_cases hkey : key = h
    · exact .inr (.inl (by rw [hkey]))
    · rw [DagStore.get_insert_ne hins hkey]
      rcases hold ((waiting_of_orphans_eq horphans).mp hwait) with h | h | h
      · exact .inl h
      · rw [hfree] at h; cases h
      · exact .inr (.inr h)
  | @release h hdag horphans howes hfree hwaits =>
    obtain ⟨hne, hwait⟩ := (waiting_of_erase horphans).mp hwait
    rw [hdag]
    rcases hold hwait with h | h | h
    · exact .inl h
    · rw [howes] at h; cases h; exact absurd rfl hne
    · exact .inr (.inr h)
  | @buffer cert missing hdag horphans hfree hfree' hwaits =>
    rw [hdag]
    have hcovered : m.shared.dag.get key = none ∨ pc.releases = some key ∨ key ∈ others := by
      rcases (waiting_of_insert horphans).mp hwait with rfl | hwait
      · exact (hp pc ht key hwaits).imp_right (howed key).1.mp
      · exact hold hwait
    rcases hcovered with h | h | h
    · exact .inl h
    · rw [hfree] at h; cases h
    · exact .inr (.inr h)

/-- A bucket that nobody comes for stays as it is: its parent is not inserted again. -/
theorem Stranded.step (hl : Stranded m) : Stranded (m.step (IngestPc.step C) i) := by
  unfold Machine.step
  split
  · exact hl
  next pc ht =>
  obtain ⟨key, hwait, hstored, hnobody⟩ := hl
  obtain ⟨others, howed⟩ := owed_step ht (pc.step C m.shared).1 (pc.step C m.shared).2
  rw [(howed key).1, not_or] at hnobody
  refine ⟨key, ?_⟩
  rw [(howed key).2, not_or]
  cases orphanStep (C := C) pc m.shared with
  | quiet hdag horphans howes hwaits =>
    rw [hdag, howes]
    exact ⟨(waiting_of_orphans_eq horphans).mpr hwait, hstored, hnobody⟩
  | @insert cert h hins horphans hfree howes hwaits =>
    have hne : key ≠ h := by
      rintro rfl
      exact hstored (DagStore.insert_ok_iff.mp hins).2.2.1
    rw [DagStore.get_insert_ne hins hne, howes]
    exact ⟨(waiting_of_orphans_eq horphans).mpr hwait, hstored,
      fun heq => hne (Option.some.inj heq).symm, hnobody.2⟩
  | @release h hdag horphans howes hfree hwaits =>
    have hne : key ≠ h := by
      rintro rfl
      exact hnobody.1 howes
    rw [hdag, hfree]
    exact ⟨(waiting_of_erase horphans).mpr ⟨hne, hwait⟩, hstored, by simp, hnobody.2⟩
  | @buffer cert missing hdag horphans hfree hfree' hwaits =>
    rw [hdag, hfree']
    exact ⟨(waiting_of_insert horphans).mpr (.inr hwait), hstored, by simp, hnobody.2⟩

/-- Buffering too late loses the certificate. -/
theorem stranded_of_not_inTime (hp : ¬ InTime m i) : Stranded (m.step (IngestPc.step C) i) := by
  simp only [InTime, not_forall, not_or] at hp
  obtain ⟨pc, ht, missing, hwaits, hstored, hnobody⟩ := hp
  have ht : m.tasks[i]? = some pc := ht
  obtain ⟨others, howed⟩ := owed_step ht (pc.step C m.shared).1 (pc.step C m.shared).2
  unfold Machine.step
  rw [ht]
  dsimp only
  rw [(howed missing).1, not_or] at hnobody
  refine ⟨missing, ?_⟩
  rw [(howed missing).2, not_or]
  cases orphanStep (C := C) pc m.shared with
  | @buffer cert key hdag horphans hfree hfree' hkey =>
    rw [hkey] at hwaits
    cases hwaits
    rw [hdag, hfree']
    exact ⟨(waiting_of_insert horphans).mpr (.inl rfl), hstored, by simp, hnobody.2⟩
  | quiet _ _ _ hnone => rw [hnone] at hwaits; cases hwaits
  | insert _ _ _ _ hnone => rw [hnone] at hwaits; cases hwaits
  | release _ _ _ _ hnone => rw [hnone] at hwaits; cases hwaits

theorem not_owed_of_resting (hrest : ∀ pc ∈ m.tasks, pc.resting = true) (h : CertHash) :
    ¬ Owed m h := by
  intro howed
  obtain ⟨pc, hpc, hreleases⟩ := List.mem_filterMap.mp howed
  have hresting := hrest pc hpc
  cases pc with
  | evict | note => cases hresting
  | _ => cases hreleases

theorem covered_ingestCalls {s : State} (hs : NoLostOrphan s) (certs : List Certificate) :
    Covered (ingestCalls s certs) := fun h hwait => .inl (hs h hwait)

/-- **No lost wake-up, exactly**: after any interleaving of any number of calls that leaves none of
    them in progress, no orphan waits for a stored parent iff every buffering on the way was in
    time. -/
theorem no_lost_orphan_iff {s : State} (hs : NoLostOrphan s) (certs : List Certificate)
    (schedule : List Nat)
    (hrest : ∀ pc ∈ ((ingestCalls s certs).run (IngestPc.step C) schedule).tasks, pc.resting = true) :
    NoLostOrphan ((ingestCalls s certs).run (IngestPc.step C) schedule).shared ↔
      Runs.Along (Machine.step (IngestPc.step C)) InTime schedule (ingestCalls s certs) := by
  have hnobody := not_owed_of_resting hrest
  constructor
  · intro hnone
    rcases Runs.along_or_lost (P := InTime) (fun _ _ hc hp => hc.step hp)
      (fun _ _ _ hp => stranded_of_not_inTime hp) (fun _ _ hl => hl.step)
      schedule (covered_ingestCalls hs certs) with halong | ⟨h, hwait, hstored, -⟩
    · exact halong
    · exact absurd (hnone h hwait) hstored
  · intro halong h hwait
    have hcovered : Covered ((ingestCalls s certs).run (IngestPc.step C) schedule) :=
      halong.invariant (I := Covered) (fun _ _ hc hp => hc.step hp) (covered_ingestCalls hs certs)
    exact (hcovered h hwait).resolve_right (hnobody h)

end Buckets

/-! ## A child and its parent from two peers

    The child is looked at first and its insert fails. -/

/-- A call for the child and one for its parent, at a node that has nothing. -/
def parentAndChild : Machine State IngestPc :=
  ingestCalls (State.new briefScheme soloManifest 1) [briefSigned first0, briefSigned root0]

/-- The child is buffered between the insert of the parent and the release. -/
def meeting : List Nat := [0, 0, 1, 1, 0, 1, 1, 1, 1, 1, 1]

/-- The child is buffered behind the release. -/
def crossing : List Nat := [0, 0, 1, 1, 1, 1, 0]

theorem noLostOrphan_of_empty {s : State} (h : s.orphans = ∅) : NoLostOrphan s := by
  rintro key ⟨cert, hcert⟩
  rw [h] at hcert
  simp at hcert

theorem no_lost_orphan_meeting :
    ((parentAndChild.run (IngestPc.step briefScheme) meeting).shared.dag.get first0.1 =
        some (briefSigned first0) ∧
      (parentAndChild.run (IngestPc.step briefScheme) meeting).tasks.map IngestPc.resting =
        [true, true] ∧
      (parentAndChild.run (IngestPc.step briefScheme) meeting).shared.orphans = ∅) ∧
    Runs.Along (Machine.step (IngestPc.step briefScheme)) InTime meeting parentAndChild := by
  have hrun : (parentAndChild.run (IngestPc.step briefScheme) meeting).shared.dag.get first0.1 =
        some (briefSigned first0) ∧
      (parentAndChild.run (IngestPc.step briefScheme) meeting).tasks.map IngestPc.resting =
        [true, true] ∧
      (parentAndChild.run (IngestPc.step briefScheme) meeting).shared.orphans = ∅ := by
    decide +kernel
  have hrest : ∀ pc ∈ (parentAndChild.run (IngestPc.step briefScheme) meeting).tasks,
      pc.resting = true := by
    intro pc hpc
    have hmem := List.mem_map_of_mem (f := IngestPc.resting) hpc
    rw [hrun.2.1] at hmem
    simpa using hmem
  have hempty : NoLostOrphan (parentAndChild.run (IngestPc.step briefScheme) meeting).shared :=
    noLostOrphan_of_empty hrun.2.2
  refine ⟨hrun, ?_⟩
  unfold parentAndChild at hrest hempty ⊢
  exact (no_lost_orphan_iff (noLostOrphan_of_empty rfl) _ meeting hrest).mp hempty

/-- **An orphan is left behind**: both calls are over, the parent is in the store, and the child waits
    for it. -/
theorem orphan_left_behind :
    (∀ pc ∈ (parentAndChild.run (IngestPc.step briefScheme) crossing).tasks, pc.resting = true) ∧
      ¬ NoLostOrphan (parentAndChild.run (IngestPc.step briefScheme) crossing).shared := by
  have hrun : ((parentAndChild.run (IngestPc.step briefScheme) crossing).tasks.all IngestPc.resting &&
      decide ((parentAndChild.run (IngestPc.step briefScheme) crossing).shared.orphans[root0.1]? =
        some [briefSigned first0]) &&
      decide ((parentAndChild.run (IngestPc.step briefScheme) crossing).shared.dag.get root0.1 =
        some (briefSigned root0))) = true := by decide +kernel
  simp only [Bool.and_eq_true, List.all_eq_true, decide_eq_true_eq] at hrun
  obtain ⟨⟨hrest, hwait⟩, hstored⟩ := hrun
  refine ⟨hrest, fun hnone => ?_⟩
  have hmissing := hnone root0.1 ⟨briefSigned first0, by rw [hwait]; exact List.mem_singleton.mpr rfl⟩
  rw [hstored] at hmissing
  cases hmissing

end SuwappuDag.Node
