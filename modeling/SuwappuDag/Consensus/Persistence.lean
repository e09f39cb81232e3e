/-
  WHEN A COMMITTED SLOT STAYS COMMITTED.

  The commit rule's own account is that a committed leader can never be uncommitted because the set
  of its supporters only grows.  The supporters do grow; the LEADER'S CERTIFICATE need not stay: it
  is the least hash of the leader at the round, and a leader that signs a second certificate with a
  smaller hash takes the slot away from the first (`committed_slot_uncommitted`).

  1. **Transfer (`Sub.decideSlot_direct`)** — in a larger store every decision survives as soon as
     each decided slot keeps its leader certificate: supporters and histories carry over, and an
     anchor is itself a decided slot.
  2. **Exact condition (`decideSlot_persists_iff`)** — all decisions of a store survive in an
     extension of it IFF no added certificate undercuts a decided slot of its own author.
-/
import SuwappuDag.Consensus.Agreement

namespace SuwappuDag.Consensus

open Words

namespace DagStore.Sub

variable {blake3 : List UInt8 → Bytes32} {dag dag' : DagStore} {n : CommitteeSize}

/-- A direct decision survives where the leader's certificate does. -/
theorem tryDirectDecide_direct (hs : dag.Sub dag') (wf : dag.WellFormed blake3)
    (wf' : dag'.WellFormed blake3) (hfit : CountsFit dag') {r : Round} {h : CertHash}
    (hd : tryDirectDecide dag r n = .direct h) (hkeep : certAt dag' r (leader r n) = some h) :
    tryDirectDecide dag' r n = .direct h :=
  tryDirectDecide_eq_direct_iff.mpr
    ⟨hkeep, hs.quorum_le wf wf' hfit (tryDirectDecide_eq_direct_iff.mp hd).2⟩

/-- **Transfer**: if every decided slot keeps its leader certificate, every decision survives. -/
theorem decideSlot_direct (hs : dag.Sub dag') (wf : dag.WellFormed blake3)
    (wf' : dag'.WellFormed blake3) (hfit : CountsFit dag')
    (hkeep : ∀ r h, decideSlot dag r n = .direct h → certAt dag' r (leader r n) = some h)
    {r : Round} {h : CertHash} (hd : decideSlot dag r n = .direct h) :
    decideSlot dag' r n = .direct h := by
  refine (decideSlot_eq_direct_iff wf').mpr ⟨hkeep r h hd, ?_⟩
  rcases ((decideSlot_eq_direct_iff wf).mp hd).2 with hdir | ⟨R, a, hlo, hanchor, hmem⟩
  · exact .inl (hs.tryDirectDecide_direct wf wf' hfit hdir (hkeep r h hd))
  · have hslot := decideSlot_of_tryDirectDecide hanchor
    obtain ⟨⟨ca, ha, -⟩, -⟩ :=
      (certAt_eq_some_iff wf).mp (tryDirectDecide_eq_direct_iff.mp hanchor).1
    refine .inr ⟨R, a, hlo, hs.tryDirectDecide_direct wf wf' hfit hanchor (hkeep R a hslot), ?_⟩
    exact (hs.mem_causalHistory_iff wf wf' ha).mpr hmem

end DagStore.Sub

/-! ## The exact condition -/

/-- The certificate `c`, of hash `k`, is not by the leader of its own slot, or that slot is not
    committed in `dag`, or its committed certificate has the smaller hash. -/
def KeepsLeader (n : CommitteeSize) (dag : DagStore) (c : Certificate) (k : CertHash) : Prop :=
  c.author = leader c.round n → ∀ h, decideSlot dag c.round n = .direct h → h ≤ k

/-- If no added certificate undercuts a decided slot, the decided slots keep their certificates. -/
theorem certAt_of_keepsLeader {blake3 : List UInt8 → Bytes32} {n : CommitteeSize}
    {dag dag' : DagStore} (hs : dag.Sub dag') (wf : dag.WellFormed blake3)
    (wf' : dag'.WellFormed blake3)
    (hk : ∀ k c, dag.get k = none → dag'.get k = some c → KeepsLeader n dag c k)
    {r : Round} {h : CertHash} (hd : decideSlot dag r n = .direct h) :
    certAt dag' r (leader r n) = some h := by
  obtain ⟨⟨q, hq, hqr, hqa⟩, hmin⟩ :=
    (certAt_eq_some_iff wf).mp ((decideSlot_eq_direct_iff wf).mp hd).1
  refine (certAt_eq_some_iff wf').mpr ⟨⟨q, hs h q hq, hqr, hqa⟩, ?_⟩
  intro k c hc hcr hca
  cases hold : dag.get k with
  | some c' =>
    have hsame := hs k c' hold
    rw [hc] at hsame; cases hsame
    exact hmin k c hold hcr hca
  | none =>
    subst hcr
    exact hk k c hold hc hca h hd

/-- **When committed slots stay committed**: every decision of a reachable store survives in an
    extension iff no certificate the extension added undercuts a committed slot. -/
theorem decideSlot_persists_iff {blake3 : List UInt8 → Bytes32} {n : CommitteeSize}
    {dag dag' : DagStore} (hr : dag.Reachable blake3) (he : DagStore.Extends blake3 dag dag')
    (hn : AuthorsBelow n dag') :
    (∀ r h, decideSlot dag r n = .direct h → decideSlot dag' r n = .direct h) ↔
      ∀ k c, dag.get k = none → dag'.get k = some c → KeepsLeader n dag c k := by
  have wf := hr.wellFormed
  have wf' := he.wellFormed wf
  constructor
  · intro hall k c _ hc hlead h hd
    -- the surviving decision is the least hash of a slot that now holds `k` too
    have hcert := ((decideSlot_eq_direct_iff wf').mp (hall c.round h hd)).1
    exact ((certAt_eq_some_iff wf').mp hcert).2 k c hc rfl hlead
  · intro hk r h hd
    exact he.sub.decideSlot_direct wf wf' (hn.countsFit wf')
      (fun r h hd => certAt_of_keepsLeader he.sub wf wf' hk hd) hd

/-! ## A leader that signs twice takes its slot back

    Authorities 1, 2 and 3 cite `twinB`, so slot 0 is committed to it; then the leader's other
    genesis certificate `twinA`, of smaller hash and cited by nobody, arrives. -/

def citeB1 : CertHash × Certificate :=
  (0xd076d8318257782db45a4c01bd382f7a4dde7899f7b93495bb3132f6cf2e918e#256,
    ⟨1, 1, [twinB.1], 0, []⟩)

def citeB2 : CertHash × Certificate :=
  (0xf6d311b66e97c7f458db109515fcc5a477d2d66c94bf42e44162f4fefc9782e3#256,
    ⟨2, 1, [twinB.1], 0, []⟩)

def citeB3 : CertHash × Certificate :=
  (0x743f911e8b068e8903f0fe401ad3d50200408c568f9091984b1e7c5014e246be#256,
    ⟨3, 1, [twinB.1], 0, []⟩)

def committedRun : List (CertHash × Certificate) := [twinB, citeB1, citeB2, citeB3]

/-- Slot 0 committed to `twinB`. -/
def committedStore : DagStore := DagStore.new.recordAll committedRun

/-- The same store after the insert of `twinA`. -/
def twinnedStore : DagStore := committedStore.recordAll [twinA]

theorem committedStore_reachable : committedStore.Reachable Blake3.hash :=
  DagStore.extends_recordAll (by decide +kernel) (by decide +kernel)

theorem twinnedStore_extends : DagStore.Extends Blake3.hash committedStore twinnedStore :=
  DagStore.extends_recordAll (by decide +kernel) (by decide +kernel)

theorem mem_twinnedStore {h : CertHash} {c : Certificate} (hc : twinnedStore.get h = some c) :
    (h, c) ∈ committedRun ++ [twinA] := by
  rcases DagStore.mem_of_get_recordAll hc with hc | hc
  · exact List.mem_append_left _ (DagStore.mem_of_get_recordAll_new hc)
  · exact List.mem_append_right _ hc

theorem twinnedStore_authorsBelow : AuthorsBelow 4 twinnedStore := by
  have hall : ∀ p ∈ committedRun ++ [twinA], p.2.author < 4 := by decide +kernel
  exact fun h c hc => hall (h, c) (mem_twinnedStore hc)

theorem twinnedStore_fewEquivocators : FewEquivocators Blake3.hash 4 twinnedStore.Holds := by
  have honly : ∀ p ∈ committedRun ++ [twinA], ∀ q ∈ committedRun ++ [twinA],
      p.2.author = q.2.author → p.2.round = q.2.round → p ≠ q → p.2.author = 0 := by decide +kernel
  refine ⟨{0}, by decide, ?_⟩
  rintro a ⟨c, d, ⟨k, hk⟩, ⟨l, hl⟩, rfl, hda, hr, hne⟩
  rw [Finset.mem_singleton]
  refine honly (k, c) (mem_twinnedStore hk) (l, d) (mem_twinnedStore hl) hda.symm hr ?_
  intro he; cases he; exact hne rfl

/-- **A committed slot is uncommitted** by one insert, with a single equivocating author. -/
theorem committed_slot_uncommitted :
    committedStore.Reachable Blake3.hash ∧
    DagStore.Extends Blake3.hash committedStore twinnedStore ∧ AuthorsBelow 4 twinnedStore ∧
    FewEquivocators Blake3.hash 4 twinnedStore.Holds ∧
    decideSlot committedStore 0 4 = .direct twinB.1 ∧ decideSlot twinnedStore 0 4 = .undecided :=
  ⟨committedStore_reachable, twinnedStore_extends, twinnedStore_authorsBelow,
    twinnedStore_fewEquivocators, by decide +kernel, by decide +kernel⟩

theorem decideSlot_persists_iff_twins :
    (∀ r h, decideSlot committedStore r 4 = .direct h → decideSlot twinnedStore r 4 = .direct h) ↔
      ∀ k c, committedStore.get k = none → twinnedStore.get k = some c →
        KeepsLeader 4 committedStore c k :=
  decideSlot_persists_iff committedStore_reachable twinnedStore_extends twinnedStore_authorsBelow

end SuwappuDag.Consensus
