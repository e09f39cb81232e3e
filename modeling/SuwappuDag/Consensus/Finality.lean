/-
  THE FINALIZED HISTORY OF A GROWING STORE.

  `finalize` writes the histories of the committed leaders, lowest slot first, and skips what is
  still undecided.  An undecided slot BELOW a committed one may be committed later; its history is
  then written in front of what had been final (`finalize_rewritten`).

  1. **Ledger form** — `finalize_eq_emit`: the output is `Emit.emit` of the causal histories over
     `committedLeaders`, which are increasing in the sort key and end their own histories
     (`histories_committedLeaders`).
  2. **Two stores** — with one certificate per author and round, the leaders a store has committed
     are those of any extension, minus the slots committed only there
     (`Sub.committedLeaders_eq_filter`).
  3. **Exact condition (`finalize_prefix_iff`)** — the old output is a prefix of the new one IFF
     every slot filled below an already committed one is harmless (`HarmlessGap`).
-/
import SuwappuDag.Consensus.Persistence

namespace SuwappuDag.Consensus

open Words
open Emit (emit Histories GapsHarmless)

/-! ## Committed leaders -/

/-- The certificate a slot is committed to, if any. -/
def LeaderStatus.committed : LeaderStatus → Option CertHash
  | .direct h => some h
  | _ => none

variable {h : CertHash}

theorem LeaderStatus.committed_eq_some {s : LeaderStatus} :
    s.committed = some h ↔ s = .direct h := by
  cases s <;> simp [committed]

/-- The leaders of the committed slots below `m`, lowest slot first. -/
def leadersBelow (dag : DagStore) (n : CommitteeSize) (m : Round) : List CertHash :=
  (roundsBelow m).filterMap fun r => (decideSlot dag r n).committed

/-- The leaders `finalize` walks through. -/
def committedLeaders (dag : DagStore) (n : CommitteeSize) : List CertHash :=
  match dag.maxRound with
  | none => []
  | some m => leadersBelow dag n m

theorem finalize_eq_emit (dag : DagStore) (n : CommitteeSize) :
    finalize dag n = emit (causalHistory dag) [] (committedLeaders dag n) := by
  rw [finalize, committedLeaders]
  cases dag.maxRound with
  | none => rfl
  | some m =>
    simp only [leadersBelow, emit, List.foldl_filterMap]
    congr 1
    funext acc r
    rw [finalizeSlot]
    cases decideSlot dag r n <;> rfl

section OneStore

variable {blake3 : List UInt8 → Bytes32} {dag : DagStore} {n : CommitteeSize}

theorem quorumThreshold_pos (n : CommitteeSize) : 0 < quorumThreshold n := by
  by_cases hn : n = 0
  · rw [quorumThreshold, if_pos hn]; decide
  · have hpos : 0 < n := lt_of_le_of_ne (UInt32.le_iff_toNat_le.mpr (Nat.zero_le _)) (Ne.symm hn)
    rw [UInt32.lt_iff_toNat_lt, toNat_quorumThreshold hpos]
    have := UInt32.lt_iff_toNat_lt.mp hpos
    simp at this ⊢
    omega

variable {h : CertHash}

/-- A committed slot is committed to a certificate of its leader, at its own round. -/
theorem decided_stored (wf : dag.WellFormed blake3) {r : Round} (hd : decideSlot dag r n = .direct h) :
    ∃ c, dag.get h = some c ∧ c.round = r ∧ c.author = leader r n :=
  ((certAt_eq_some_iff wf).mp ((decideSlot_eq_direct_iff wf).mp hd).1).1

/-- A directly decided leader is cited one round up, hence below some stored certificate. -/
theorem exists_round_gt_of_tryDirectDecide (wf : dag.WellFormed blake3) {r : Round}
    (hd : tryDirectDecide dag r n = .direct h) : ∃ k c, dag.get k = some c ∧ r < c.round := by
  obtain ⟨hc, hq⟩ := tryDirectDecide_eq_direct_iff.mp hd
  obtain ⟨⟨ch, hget, hr, -⟩, -⟩ := (certAt_eq_some_iff wf).mp hc
  have hne : (supporters dag h (r + 1)).Nonempty := by
    rw [Finset.nonempty_iff_ne_empty]
    intro he
    rw [he, Finset.card_empty] at hq
    exact absurd (quorumThreshold_pos n) (not_lt.mpr hq)
  obtain ⟨a, ha⟩ := hne
  obtain ⟨k, c, hk, -, hp, -⟩ := (mem_supporters wf).mp ha
  obtain ⟨q, hqget, hlt⟩ := wf.closed hk hp
  rw [hget] at hqget; cases hqget
  exact ⟨k, c, hk, hr ▸ hlt⟩

/-- Committed slots lie strictly below `max_round`, so the loop bound of `finalize` misses none. -/
theorem decided_lt_maxRound (wf : dag.WellFormed blake3) {r m : Round} (hm : dag.maxRound = some m)
    (hd : decideSlot dag r n = .direct h) : r < m := by
  have hmax := (wf.maxRound_eq_some.mp hm).2
  have hdirect : ∀ {R a}, tryDirectDecide dag R n = .direct a → R < m := by
    intro R a ha
    obtain ⟨k, c, hk, hlt⟩ := exists_round_gt_of_tryDirectDecide wf ha
    exact lt_of_lt_of_le hlt (hmax k c hk)
  obtain ⟨ch, hch, hr, -⟩ := decided_stored wf hd
  rcases ((decideSlot_eq_direct_iff wf).mp hd).2 with hdir | ⟨R, a, -, hanchor, hmem⟩
  · exact hdirect hdir
  · obtain ⟨⟨ca, ha, hR, -⟩, -⟩ :=
      (certAt_eq_some_iff wf).mp (tryDirectDecide_eq_direct_iff.mp hanchor).1
    obtain ⟨cb, hb, hle⟩ := reaches_stored wf ha (mem_causalHistory.mp hmem).2
    rw [hch] at hb; cases hb
    rcases hle with rfl | hlt
    · rw [hch] at ha; cases ha
      rw [← hr, hR]; exact hdirect hanchor
    · rw [← hr]
      exact lt_trans hlt (hR ▸ hdirect hanchor)

theorem mem_leadersBelow {m : Round} :
    h ∈ leadersBelow dag n m ↔ ∃ r, r < m ∧ decideSlot dag r n = .direct h := by
  simp only [leadersBelow, List.mem_filterMap, mem_roundsBelow, LeaderStatus.committed_eq_some]

theorem mem_committedLeaders (wf : dag.WellFormed blake3) :
    h ∈ committedLeaders dag n ↔ ∃ r, decideSlot dag r n = .direct h := by
  rw [committedLeaders]
  cases hm : dag.maxRound with
  | none =>
    simp only [List.not_mem_nil, false_iff, not_exists]
    intro r hd
    rw [decideSlot, hm] at hd
    cases hdir : tryDirectDecide dag r n with
    | skip => rw [hdir] at hd; cases hd
    | undecided => rw [hdir] at hd; cases hd
    | direct k =>
      obtain ⟨k, c, hk, -⟩ := exists_round_gt_of_tryDirectDecide wf hdir
      have hin := wf.present.mpr (List.ne_nil_of_mem (wf.indexed.mpr ⟨c, hk, rfl⟩))
      rw [DagStore.maxRound, List.getLast?_eq_none_iff] at hm
      rw [← Std.ExtTreeMap.mem_keys, hm] at hin; cases hin
  | some m =>
    simp only [mem_leadersBelow]
    constructor
    · rintro ⟨r, -, hr⟩
      exact ⟨r, hr⟩
    · rintro ⟨r, hr⟩
      exact ⟨r, decided_lt_maxRound wf hm hr, hr⟩

/-! ## Leaders and histories in the sort key -/

theorem historyKey_lt_of_round_lt {a b : CertHash} {ca cb : Certificate} (ha : dag.get a = some ca)
    (hb : dag.get b = some cb) (hlt : ca.round < cb.round) : dag.historyKey a < dag.historyKey b := by
  simp only [DagStore.historyKey, ha, hb]
  exact Prod.Lex.toLex_lt_toLex.mpr (.inl hlt)

/-- Committed leaders are ordered as their slots are. -/
theorem historyKey_lt_iff (wf : dag.WellFormed blake3) {r s : Round} {h k : CertHash}
    (hh : decideSlot dag r n = .direct h) (hk : decideSlot dag s n = .direct k) :
    dag.historyKey h < dag.historyKey k ↔ r < s := by
  obtain ⟨ch, hch, hr, -⟩ := decided_stored wf hh
  obtain ⟨ck, hck, hs, -⟩ := decided_stored wf hk
  constructor
  · intro hlt
    by_contra hge
    rcases lt_or_eq_of_le (not_lt.mp hge) with h' | rfl
    · exact lt_asymm hlt (historyKey_lt_of_round_lt hck hch (by rw [hr, hs]; exact h'))
    · rw [hh] at hk; cases hk; exact lt_irrefl _ hlt
  · intro hlt
    exact historyKey_lt_of_round_lt hch hck (by rw [hr, hs]; exact hlt)

/-- A certificate is the last of its own history. -/
theorem historyKey_le_of_mem (wf : dag.WellFormed blake3) {a x : CertHash} {ca : Certificate}
    (ha : dag.get a = some ca) (hx : x ∈ causalHistory dag a) :
    dag.historyKey x ≤ dag.historyKey a := by
  obtain ⟨cx, hcx, hle⟩ := reaches_stored wf ha (mem_causalHistory.mp hx).2
  rcases hle with rfl | hlt
  · exact le_rfl
  · exact (historyKey_lt_of_round_lt hcx ha hlt).le

theorem roundsBelow_increasing (m : Round) : (roundsBelow m).Pairwise (· < ·) := by
  rw [roundsBelow, List.pairwise_map]
  refine List.pairwise_lt_range.imp_of_mem ?_
  intro a b ha hb hlt
  have hm := m.toNat_lt
  have hb' := List.mem_range.mp hb
  have ha64 : a < 2 ^ 64 := by omega
  have hb64 : b < 2 ^ 64 := by omega
  rw [UInt64.lt_iff_toNat_lt, UInt64.toNat_ofNat_of_lt' ha64, UInt64.toNat_ofNat_of_lt' hb64]
  exact hlt

theorem leadersBelow_increasing (wf : dag.WellFormed blake3) (m : Round) :
    (leadersBelow dag n m).Pairwise fun h k => dag.historyKey h < dag.historyKey k := by
  rw [leadersBelow, List.pairwise_filterMap]
  refine (roundsBelow_increasing m).imp ?_
  intro r s hlt h hh k hk
  exact (historyKey_lt_iff wf (LeaderStatus.committed_eq_some.mp hh)
    (LeaderStatus.committed_eq_some.mp hk)).mpr hlt

/-- The committed leaders and their histories are as the ledger asks. -/
theorem histories_committedLeaders (wf : dag.WellFormed blake3) :
    Histories dag.historyKey (causalHistory dag) (committedLeaders dag n) where
  sorted h _ := causalHistory_sorted h
  self h hh := by
    obtain ⟨r, hd⟩ := (mem_committedLeaders wf).mp hh
    obtain ⟨c, hc, -⟩ := decided_stored wf hd
    exact self_mem_causalHistory hc
  below h hh x hx := by
    obtain ⟨r, hd⟩ := (mem_committedLeaders wf).mp hh
    obtain ⟨c, hc, -⟩ := decided_stored wf hd
    exact historyKey_le_of_mem wf hc hx
  increasing := by
    rw [committedLeaders]
    split
    · exact List.Pairwise.nil
    · exact leadersBelow_increasing wf _

end OneStore

/-! ## Two stores -/

/-- No author has two certificates at one round. -/
def OneCertPerRound (dag : DagStore) : Prop :=
  ∀ h k c d, dag.get h = some c → dag.get k = some d → c.author = d.author → c.round = d.round → h = k

/-- `h` is the committed leader of its own slot. -/
def isCommitted (dag : DagStore) (n : CommitteeSize) (h : CertHash) : Bool :=
  (dag.get h).any fun c => decideSlot dag c.round n = .direct h

theorem isCommitted_iff {blake3 : List UInt8 → Bytes32} {dag : DagStore} {n : CommitteeSize}
    (wf : dag.WellFormed blake3) :
    isCommitted dag n h = true ↔ ∃ r, decideSlot dag r n = .direct h := by
  rw [isCommitted, Option.any_eq_true]
  simp only [decide_eq_true_eq]
  constructor
  · rintro ⟨c, -, hd⟩; exact ⟨c.round, hd⟩
  · rintro ⟨r, hd⟩
    obtain ⟨c, hc, rfl, -⟩ := decided_stored wf hd
    exact ⟨c, hc, hd⟩

namespace DagStore.Sub

variable {blake3 : List UInt8 → Bytes32} {dag dag' : DagStore} {n : CommitteeSize}

variable {h : CertHash} {r : Round}

theorem certAt_eq (hs : dag.Sub dag') (wf : dag.WellFormed blake3) (wf' : dag'.WellFormed blake3)
    (hone : OneCertPerRound dag') {a : AuthorityId} (hc : certAt dag r a = some h) :
    certAt dag' r a = some h := by
  obtain ⟨⟨c, hget, hr, ha⟩, -⟩ := (certAt_eq_some_iff wf).mp hc
  refine (certAt_eq_some_iff wf').mpr ⟨⟨c, hs h c hget, hr, ha⟩, ?_⟩
  intro k d hd hdr hda
  rw [hone h k c d (hs h c hget) hd (ha.trans hda.symm) (hr.trans hdr.symm)]

/-- Without equivocation every decision carries over to the larger store. -/
theorem decided (hs : dag.Sub dag') (wf : dag.WellFormed blake3) (wf' : dag'.WellFormed blake3)
    (hfit : CountsFit dag') (hone : OneCertPerRound dag') (hd : decideSlot dag r n = .direct h) :
    decideSlot dag' r n = .direct h :=
  hs.decideSlot_direct wf wf' hfit
    (fun r h hd => hs.certAt_eq wf wf' hone ((decideSlot_eq_direct_iff wf).mp hd).1) hd

/-- A slot committed in the larger store to a leader the smaller one has committed is committed in
    the smaller one: the leader names its slot. -/
theorem decided_of_isCommitted (hs : dag.Sub dag') (wf : dag.WellFormed blake3)
    (wf' : dag'.WellFormed blake3) (hd : decideSlot dag' r n = .direct h)
    (hc : isCommitted dag n h = true) : decideSlot dag r n = .direct h := by
  obtain ⟨q, hq⟩ := (isCommitted_iff wf).mp hc
  obtain ⟨c, hget, rfl, -⟩ := decided_stored wf hq
  obtain ⟨c', hget', rfl, -⟩ := decided_stored wf' hd
  rw [hs h c hget] at hget'; cases hget'
  exact hq

/-- The leaders of the smaller store are those of the larger one that it has committed. -/
theorem committedLeaders_eq_filter (hs : dag.Sub dag') (wf : dag.WellFormed blake3)
    (wf' : dag'.WellFormed blake3) (hn : AuthorsBelow n dag') (hone : OneCertPerRound dag') :
    committedLeaders dag n = (committedLeaders dag' n).filter (isCommitted dag n) := by
  have hsorted : (committedLeaders dag n).Pairwise fun h k => dag'.historyKey h < dag'.historyKey k := by
    refine (histories_committedLeaders (n := n) wf).increasing.imp_of_mem ?_
    intro h k hh hk hlt
    obtain ⟨r, hr⟩ := (mem_committedLeaders wf).mp hh
    obtain ⟨s, hsk⟩ := (mem_committedLeaders wf).mp hk
    obtain ⟨ch, hch, -⟩ := decided_stored wf hr
    obtain ⟨ck, hck, -⟩ := decided_stored wf hsk
    rwa [hs.historyKey_eq hch, hs.historyKey_eq hck]
  refine Emit.eq_of_mem_iff hsorted ((histories_committedLeaders wf').increasing.filter _) fun h => ?_
  rw [List.mem_filter, mem_committedLeaders wf, mem_committedLeaders wf', isCommitted_iff wf]
  exact ⟨fun ⟨r, hd⟩ => ⟨⟨r, hs.decided wf wf' (hn.countsFit wf') hone hd⟩, r, hd⟩, And.right⟩

/-- Both outputs as ledgers over the histories of the larger store. -/
theorem finalize_eq_emit_filter (hs : dag.Sub dag') (wf : dag.WellFormed blake3)
    (wf' : dag'.WellFormed blake3) (hn : AuthorsBelow n dag') (hone : OneCertPerRound dag') :
    finalize dag n =
      emit (causalHistory dag') [] ((committedLeaders dag' n).filter (isCommitted dag n)) := by
  rw [finalize_eq_emit, ← hs.committedLeaders_eq_filter wf wf' hn hone]
  refine Emit.emit_congr (fun h hh => ?_) []
  obtain ⟨r, hd⟩ := (mem_committedLeaders wf).mp hh
  obtain ⟨c, hc, -⟩ := decided_stored wf hd
  exact (hs.causalHistory_eq wf wf' hc).symm

end DagStore.Sub

/-! ## The exact condition -/

/-- Slot `r`, undecided or skipped in `dag`, is committed to `t` in `dag'`, below slot `s` — the next
    slot above it that `dag` has committed, to `u`. -/
structure FilledGap (dag dag' : DagStore) (n : CommitteeSize) (r : Round) (t : CertHash) (s : Round)
    (u : CertHash) : Prop where
  filled : decideSlot dag' r n = .direct t
  openBefore : ∀ h, decideSlot dag r n ≠ .direct h
  below : r < s
  next : decideSlot dag s n = .direct u
  between : ∀ q h, r < q → q < s → decideSlot dag q n ≠ .direct h

/-- Of what no lower committed slot reaches, `t` reaches just what `u` reaches up to `t` in the
    order `(round, author, hash)`. -/
def HarmlessGap (dag' : DagStore) (n : CommitteeSize) (r : Round) (t u : CertHash) : Prop :=
  ∀ x, (∀ q h, q < r → decideSlot dag' q n = .direct h → x ∉ causalHistory dag' h) →
    (x ∈ causalHistory dag' t ↔
      x ∈ causalHistory dag' u ∧ dag'.historyKey x ≤ dag'.historyKey t)

/-- **When the finalized history is append-only**: what a reachable store has finalized is a prefix
    of what an extension finalizes iff every gap the extension fills is harmless. -/
theorem finalize_prefix_iff {blake3 : List UInt8 → Bytes32} {n : CommitteeSize}
    {dag dag' : DagStore} (hr : dag.Reachable blake3) (he : DagStore.Extends blake3 dag dag')
    (hone : OneCertPerRound dag') (hn : AuthorsBelow n dag') :
    finalize dag n <+: finalize dag' n ↔
      ∀ r t s u, FilledGap dag dag' n r t s u → HarmlessGap dag' n r t u := by
  have wf := hr.wellFormed
  have wf' := he.wellFormed wf
  have hs := he.sub
  have hmem : ∀ {h}, h ∈ committedLeaders dag' n ↔ ∃ r, decideSlot dag' r n = .direct h :=
    mem_committedLeaders wf'
  rw [hs.finalize_eq_emit_filter wf wf' hn hone, finalize_eq_emit dag',
    Emit.emit_prefix_iff (histories_committedLeaders wf'),
    Emit.gapsHarmless_iff (histories_committedLeaders wf')]
  constructor
  · intro h r t s u hgap x hx
    have hu' := hs.decided wf wf' (hn.countsFit wf') hone hgap.next
    refine h t (hmem.mpr ⟨r, hgap.filled⟩) ?_ u (hmem.mpr ⟨s, hu'⟩)
      ((isCommitted_iff wf).mpr ⟨s, hgap.next⟩)
      ((historyKey_lt_iff wf' hgap.filled hu').mpr hgap.below) ?_ x ?_
    · rw [Bool.eq_false_iff]
      intro hc
      exact hgap.openBefore t (hs.decided_of_isCommitted wf wf' hgap.filled hc)
    · intro v hv hpv hlt
      obtain ⟨q, hq⟩ := hmem.mp hv
      have hrq := (historyKey_lt_iff wf' hgap.filled hq).mp hlt
      have hqd := hs.decided_of_isCommitted wf wf' hq hpv
      rw [← not_lt, historyKey_lt_iff wf' hq hu']
      exact fun hqs => hgap.between q v hrq hqs hqd
    · intro v hv hlt
      obtain ⟨q, hq⟩ := hmem.mp hv
      exact hx q v ((historyKey_lt_iff wf' hq hgap.filled).mp hlt) hq
  · intro h t ht hpt u hu hpu hlt hfirst x hx
    obtain ⟨r, hr'⟩ := hmem.mp ht
    obtain ⟨s, hs'⟩ := hmem.mp hu
    refine h r t s u ⟨hr', ?_, (historyKey_lt_iff wf' hr' hs').mp hlt,
      hs.decided_of_isCommitted wf wf' hs' hpu, ?_⟩ x ?_
    · intro k hk
      have := hs.decided wf wf' (hn.countsFit wf') hone hk
      rw [hr'] at this; cases this
      rw [(isCommitted_iff wf).mpr ⟨r, hk⟩] at hpt; cases hpt
    · intro q k hrq hqs hk
      have hk' := hs.decided wf wf' (hn.countsFit wf') hone hk
      have hle := hfirst k (hmem.mpr ⟨q, hk'⟩) ((isCommitted_iff wf).mpr ⟨q, hk⟩)
        ((historyKey_lt_iff wf' hr' hk').mpr hrq)
      exact absurd ((historyKey_lt_iff wf' hk' hs').mpr hqs) (not_lt.mpr hle)
    · intro q v hqr hq
      exact hx v (hmem.mpr ⟨q, hq⟩) ((historyKey_lt_iff wf' hq hr').mpr hqr)

/-! ## A slot filled below a committed one

    Four authorities.  In the first store slot 1 is committed to `first1`, which descends from
    `root1` alone; slot 0 has one supporter.  Two late certificates then complete the quorum of
    `root0`, and slot 0 is committed below slot 1. -/

/-- BLAKE3 of the encoding of a block without intents and envelopes (two zero lengths). -/
def emptyPayload : Bytes32 :=
  0xe572dff82304700b856a555ac3a4558d0df3646a3727816500270a93c66aac1e#256

def root0 : CertHash × Certificate :=
  (0x207ab117daed11b073ba6f9b6d5da88621c4d1bd4f6328a3189972d71b6d9ffd#256,
    ⟨0, 0, [], emptyPayload, []⟩)

def root1 : CertHash × Certificate :=
  (0x49e2c2a711bbb2d2b64e0a8afe657cadc0ceaeceeac055daac73c38c1ae449fc#256,
    ⟨1, 0, [], emptyPayload, []⟩)

def first1 : CertHash × Certificate :=
  (0x8833fd5432192d9389ae9a4f37a186f3907daca848c81b0c1ac9e18dce157e04#256,
    ⟨1, 1, [root1.1], emptyPayload, []⟩)

def first2 : CertHash × Certificate :=
  (0xf46a8d7a9f3e6505965d517d9f025acb74cb9d714a6680bdcd7dd533ad0a1dee#256,
    ⟨2, 1, [root0.1], emptyPayload, []⟩)

def second0 : CertHash × Certificate :=
  (0x347a54b5e3e13797360d894bfd0123e4a1910c278d1490a22409312d3f39d829#256,
    ⟨0, 2, [first1.1], emptyPayload, []⟩)

def second2 : CertHash × Certificate :=
  (0x88c06c597b962a6362065b0f13430108d69bda5515a565765c5e90ad04469ab5#256,
    ⟨2, 2, [first1.1], emptyPayload, []⟩)

def second3 : CertHash × Certificate :=
  (0xb38b095f68ca199a9b3bb4606b25b3b56afbfa6c2778827124ef1debda2256d9#256,
    ⟨3, 2, [first1.1], emptyPayload, []⟩)

def first0 : CertHash × Certificate :=
  (0xf14c437d3f1c28c62a02c3987352f8a60256dbbb717841f4c866e26302129de1#256,
    ⟨0, 1, [root0.1], emptyPayload, []⟩)

def first3 : CertHash × Certificate :=
  (0x4e2bb11ba40a288127726f9558fd01bb6f840474c730bbcfeeb0e1f5d040a6a5#256,
    ⟨3, 1, [root0.1], emptyPayload, []⟩)

def lateSlotRun : List (CertHash × Certificate) :=
  [root0, root1, first1, first2, second0, second2, second3]

def lateSlotStore : DagStore := DagStore.new.recordAll lateSlotRun

/-- The same store after the two late supporters of `root0`. -/
def filledSlotStore : DagStore := lateSlotStore.recordAll [first0, first3]

theorem lateSlotStore_reachable : lateSlotStore.Reachable Blake3.hash :=
  DagStore.extends_recordAll (by decide +kernel) (by decide +kernel)

theorem filledSlotStore_extends : DagStore.Extends Blake3.hash lateSlotStore filledSlotStore :=
  DagStore.extends_recordAll (by decide +kernel) (by decide +kernel)

theorem mem_filledSlotStore {c : Certificate} (hc : filledSlotStore.get h = some c) :
    (h, c) ∈ lateSlotRun ++ [first0, first3] := by
  rcases DagStore.mem_of_get_recordAll hc with hc | hc
  · exact List.mem_append_left _ (DagStore.mem_of_get_recordAll_new hc)
  · exact List.mem_append_right _ hc

theorem filledSlotStore_authorsBelow : AuthorsBelow 4 filledSlotStore := by
  have hall : ∀ p ∈ lateSlotRun ++ [first0, first3], p.2.author < 4 := by decide +kernel
  exact fun h c hc => hall (h, c) (mem_filledSlotStore hc)

theorem filledSlotStore_oneCertPerRound : OneCertPerRound filledSlotStore := by
  have hall : ∀ p ∈ lateSlotRun ++ [first0, first3], ∀ q ∈ lateSlotRun ++ [first0, first3],
      p.2.author = q.2.author → p.2.round = q.2.round → p.1 = q.1 := by decide +kernel
  exact fun h k c d hc hd => hall (h, c) (mem_filledSlotStore hc) (k, d) (mem_filledSlotStore hd)

/-- **What was final is rewritten**: an extension without equivocation puts `root0` in front. -/
theorem finalize_rewritten :
    lateSlotStore.Reachable Blake3.hash ∧
    DagStore.Extends Blake3.hash lateSlotStore filledSlotStore ∧
    OneCertPerRound filledSlotStore ∧ AuthorsBelow 4 filledSlotStore ∧
    finalize lateSlotStore 4 = [root1.1, first1.1] ∧
    finalize filledSlotStore 4 = [root0.1, root1.1, first1.1] ∧
    ¬ finalize lateSlotStore 4 <+: finalize filledSlotStore 4 := by
  have hold : finalize lateSlotStore 4 = [root1.1, first1.1] := by decide +kernel
  have hnew : finalize filledSlotStore 4 = [root0.1, root1.1, first1.1] := by decide +kernel
  refine ⟨lateSlotStore_reachable, filledSlotStore_extends, filledSlotStore_oneCertPerRound,
    filledSlotStore_authorsBelow, hold, hnew, ?_⟩
  rw [hold, hnew]
  decide +kernel

theorem finalize_prefix_iff_filledSlot :
    finalize lateSlotStore 4 <+: finalize filledSlotStore 4 ↔
      ∀ r t s u, FilledGap lateSlotStore filledSlotStore 4 r t s u →
        HarmlessGap filledSlotStore 4 r t u :=
  finalize_prefix_iff lateSlotStore_reachable filledSlotStore_extends
    filledSlotStore_oneCertPerRound filledSlotStore_authorsBelow

end SuwappuDag.Consensus
