/-
  THE CERTIFICATE STORE (`suwappu-consensus/src/dag.rs`).

  1. **Program** — `DagStore` holds the certificates by hash and, per round, the hashes in the order
     they came in.  `insert` validates (genesis without parents, every parent present at a strictly
     smaller round, no duplicate hash — in that order) and only then records.
  2. **Inversion** — `insert_ok_iff` says everything a successful insert did; nothing below it
     unfolds `insert` again.
  3. **Invariant** — `WellFormed`: keys are hashes, the round index lists exactly the certificates
     of the round, parents are present at smaller rounds.  It holds of every store reached by
     successful inserts (`Reachable.wellFormed`).
  4. **Growth** — `Extends` is any number of further successful inserts.  A store that extends
     another answers every old lookup in the same way (`Extends.get`).
-/
import SuwappuDag.Consensus.Cert

namespace SuwappuDag.Consensus

open Words
open Std (ExtTreeMap)

/-- `ConsensusError`: why the store refuses a certificate. -/
inductive ConsensusError where
  | unknownParent (h : CertHash)
  | nonMonotonicRound (child parent : Round)
  | duplicateCertificate (h : CertHash)
  | genesisWithParents
deriving DecidableEq, Repr

structure DagStore where
  /-- All certificates, keyed by their content hash. -/
  certs : ExtTreeMap CertHash Certificate
  /-- Inverted index: round to the hashes at that round, in insertion order. -/
  byRound : ExtTreeMap Round (List CertHash)
deriving DecidableEq

namespace DagStore

def new : DagStore := ⟨∅, ∅⟩

def get (dag : DagStore) (h : CertHash) : Option Certificate := dag.certs[h]?

def contains (dag : DagStore) (h : CertHash) : Bool := dag.certs.contains h

/-- Hashes at `round` in insertion order; empty for a round not present. -/
def roundHashes (dag : DagStore) (round : Round) : List CertHash := (dag.byRound[round]?).getD []

/-- The highest round present (`by_round.keys().next_back()`). -/
def maxRound (dag : DagStore) : Option Round := dag.byRound.keys.getLast?

/-- The rounds present, ascending. -/
def rounds (dag : DagStore) : List Round := dag.byRound.keys

/-- Step 2 of `insert`: the parents are checked in the order the certificate lists them. -/
def checkParents (dag : DagStore) (round : Round) : List CertHash → Except ConsensusError Unit
  | [] => .ok ()
  | p :: ps =>
    match dag.certs[p]? with
    | some parent =>
      if round ≤ parent.round then .error (.nonMonotonicRound round parent.round)
      else checkParents dag round ps
    | none => .error (.unknownParent p)

/-- Step 4 of `insert`: push on the round's list, add to the map. -/
def record (dag : DagStore) (hash : CertHash) (cert : Certificate) : DagStore :=
  ⟨dag.certs.insert hash cert, dag.byRound.insert cert.round (dag.roundHashes cert.round ++ [hash])⟩

/-- Validate and record; an error leaves the store as it was. -/
def insert (blake3 : List UInt8 → Bytes32) (dag : DagStore) (cert : Certificate) :
    Except ConsensusError (CertHash × DagStore) :=
  if cert.round = 0 ∧ cert.parents ≠ [] then .error .genesisWithParents
  else
    match checkParents dag cert.round cert.parents with
    | .error e => .error e
    | .ok () =>
      let hash := cert.hash blake3
      if dag.contains hash then .error (.duplicateCertificate hash)
      else .ok (hash, dag.record hash cert)

/-- The sort key within a round.  (The source indexes its map here; every hash of the round index
    resolves, `WellFormed.indexed`.) -/
def roundKey (dag : DagStore) (h : CertHash) : AuthorityId ×ₗ CertHash :=
  match dag.get h with
  | some c => toLex (c.author, h)
  | none => toLex (0, h)

/-- The whole store: rounds ascending, within a round by `(author, hash)`. -/
def linearize (dag : DagStore) : List CertHash :=
  dag.byRound.toList.flatMap fun e =>
    e.2.insertionSort fun h k => dag.roundKey h ≤ dag.roundKey k

/-! ## Lookups after one record -/

variable {dag dag' : DagStore} {h : CertHash}

theorem contains_iff : dag.contains h = true ↔ ∃ c, dag.get h = some c := by
  rw [contains, get, ExtTreeMap.contains_eq_isSome_getElem?, Option.isSome_iff_exists]

theorem get_record (dag : DagStore) (h k : CertHash) (c : Certificate) :
    (dag.record h c).get k = if h = k then some c else dag.get k := by
  simp only [get, record, ExtTreeMap.getElem?_insert, compare_eq_iff_eq]

theorem roundHashes_record (dag : DagStore) (h : CertHash) (c : Certificate) (r : Round) :
    (dag.record h c).roundHashes r =
      if c.round = r then dag.roundHashes r ++ [h] else dag.roundHashes r := by
  simp only [roundHashes, record, ExtTreeMap.getElem?_insert, compare_eq_iff_eq]
  split
  · next h => subst h; rfl
  · rfl

@[simp] theorem get_new (h : CertHash) : new.get h = none := by
  simp [get, new]

@[simp] theorem roundHashes_new (r : Round) : new.roundHashes r = [] := by
  simp [roundHashes, new]

/-! ## What a successful insert did -/

theorem checkParents_ok_iff {round : Round} {ps : List CertHash} :
    dag.checkParents round ps = .ok () ↔
      ∀ p ∈ ps, ∃ c, dag.get p = some c ∧ c.round < round := by
  induction ps with
  | nil => simp [checkParents]
  | cons p ps ih =>
    rw [checkParents, List.forall_mem_cons, ← ih, get]
    cases hp : dag.certs[p]? with
    | none => simp
    | some parent =>
      simp only [Option.some.injEq, exists_eq_left']
      by_cases hr : round ≤ parent.round
      · simp [hr, not_lt.mpr hr]
      · simp [hr, not_le.mp hr]

variable {blake3 : List UInt8 → Bytes32} {c : Certificate}

/-- **Inversion of `insert`**: its guards, the hash it returns and the store it leaves. -/
theorem insert_ok_iff :
    dag.insert blake3 c = .ok (h, dag') ↔
      (c.round = 0 → c.parents = []) ∧
      (∀ p ∈ c.parents, ∃ q, dag.get p = some q ∧ q.round < c.round) ∧
      dag.get h = none ∧ h = c.hash blake3 ∧ dag' = dag.record h c := by
  rw [insert]
  by_cases hgen : c.round = 0 ∧ c.parents ≠ []
  · rw [if_pos hgen]
    constructor
    · intro h; cases h
    · rintro ⟨h0, -⟩; exact absurd (h0 hgen.1) hgen.2
  · rw [if_neg hgen]
    have hgen' : c.round = 0 → c.parents = [] := fun h0 => by
      by_contra hne; exact hgen ⟨h0, hne⟩
    rw [← checkParents_ok_iff]
    cases hpar : dag.checkParents c.round c.parents with
    | error e => simp
    | ok u =>
      have hnone : dag.get (c.hash blake3) = none ↔ ¬ dag.contains (c.hash blake3) = true := by
        rw [contains_iff, Option.eq_none_iff_forall_ne_some]; simp
      by_cases hdup : dag.contains (c.hash blake3) = true
      · simp only [if_pos hdup]
        constructor
        · intro h; cases h
        · rintro ⟨-, -, hn, rfl, -⟩; exact absurd hdup (hnone.mp hn)
      · simp only [if_neg hdup, Except.ok.injEq, Prod.mk.injEq]
        constructor
        · rintro ⟨rfl, rfl⟩; exact ⟨hgen', trivial, hnone.mpr hdup, rfl, rfl⟩
        · rintro ⟨-, -, -, rfl, rfl⟩; exact ⟨rfl, rfl⟩

/-- With parents at lower rounds the check of round 0 is no check of its own. -/
theorem parents_eq_nil_of_lt (hpar : ∀ p ∈ c.parents, ∃ q, dag.get p = some q ∧ q.round < c.round)
    (h0 : c.round = 0) : c.parents = [] := by
  rw [List.eq_nil_iff_forall_not_mem]
  intro p hp
  obtain ⟨q, -, hlt⟩ := hpar p hp
  rw [h0] at hlt
  exact absurd hlt (by simp)

/-! ## Runs of inserts -/

/-- One successful insert. -/
def Inserted (blake3 : List UInt8 → Bytes32) (dag dag' : DagStore) : Prop :=
  ∃ c h, dag.insert blake3 c = .ok (h, dag')

/-- Any number of further successful inserts. -/
def Extends (blake3 : List UInt8 → Bytes32) : DagStore → DagStore → Prop :=
  Relation.ReflTransGen (Inserted blake3)

/-- Built from the empty store by successful inserts. -/
def Reachable (blake3 : List UInt8 → Bytes32) (dag : DagStore) : Prop := Extends blake3 new dag

/-- What every reachable store satisfies. -/
structure WellFormed (blake3 : List UInt8 → Bytes32) (dag : DagStore) : Prop where
  hashed : ∀ {h c}, dag.get h = some c → c.hash blake3 = h
  indexed : ∀ {r h}, h ∈ dag.roundHashes r ↔ ∃ c, dag.get h = some c ∧ c.round = r
  present : ∀ {r}, r ∈ dag.byRound ↔ dag.roundHashes r ≠ []
  closed : ∀ {h c p}, dag.get h = some c → p ∈ c.parents → ∃ q, dag.get p = some q ∧ q.round < c.round

theorem wellFormed_new (blake3 : List UInt8 → Bytes32) : WellFormed blake3 new where
  hashed h := by simp at h
  indexed := by simp
  present := by simp [roundHashes, new]
  closed h := by simp at h

/-- An entry of the round index. -/
theorem snd_of_mem_byRound {e : Round × List CertHash} (he : e ∈ dag.byRound.toList) :
    e.2 = dag.roundHashes e.1 := by
  rw [roundHashes, ExtTreeMap.mem_toList_iff_getElem?_eq_some.mp he, Option.getD_some]

theorem WellFormed.mem_linearize (wf : dag.WellFormed blake3) :
    h ∈ dag.linearize ↔ ∃ c, dag.get h = some c := by
  simp only [linearize, List.mem_flatMap, List.mem_insertionSort]
  constructor
  · rintro ⟨e, hmem, hin⟩
    rw [snd_of_mem_byRound hmem] at hin
    obtain ⟨c, hc, -⟩ := wf.indexed.mp hin
    exact ⟨c, hc⟩
  · rintro ⟨c, hc⟩
    have hin : h ∈ dag.roundHashes c.round := wf.indexed.mpr ⟨c, hc, rfl⟩
    unfold roundHashes at hin
    cases hget : dag.byRound[c.round]? with
    | none =>
      rw [hget] at hin
      cases hin
    | some hs =>
      rw [hget, Option.getD_some] at hin
      exact ⟨(c.round, hs), ExtTreeMap.mem_toList_iff_getElem?_eq_some.mpr hget, hin⟩

/-- A present key stays, with its certificate, when a fresh hash is recorded. -/
theorem get_record_of_some {h k : CertHash} {c q : Certificate} (hfresh : dag.get h = none)
    (hk : dag.get k = some q) : (dag.record h c).get k = some q := by
  rw [get_record, if_neg, hk]
  rintro rfl; rw [hfresh] at hk; cases hk

variable {cert : Certificate}

/-- What is in the store after an insert was there before or is new. -/
theorem get_insert_cases (hins : dag.insert blake3 cert = .ok (h, dag'))
    {k : CertHash} (hget : dag'.get k = some c) :
    k = cert.hash blake3 ∧ c = cert ∨ dag.get k = some c := by
  obtain ⟨-, -, -, rfl, rfl⟩ := insert_ok_iff.mp hins
  rw [get_record] at hget
  split at hget
  · next heq => exact .inl ⟨heq.symm, (Option.some.inj hget).symm⟩
  · exact .inr hget

/-- The new certificate is under its hash. -/
theorem get_insert_self (hins : dag.insert blake3 cert = .ok (h, dag')) :
    dag'.get h = some cert := by
  obtain ⟨-, -, -, -, rfl⟩ := insert_ok_iff.mp hins
  rw [get_record, if_pos rfl]

/-- An insert fills the place of its own hash only. -/
theorem get_insert_ne {h k : CertHash}
    (hins : dag.insert blake3 cert = .ok (h, dag')) (hne : k ≠ h) : dag'.get k = dag.get k := by
  obtain ⟨-, -, -, -, rfl⟩ := insert_ok_iff.mp hins
  rw [get_record, if_neg fun heq => hne heq.symm]

theorem Inserted.get (hi : Inserted blake3 dag dag') (hc : dag.get h = some c) :
    dag'.get h = some c := by
  obtain ⟨d, k, hins⟩ := hi
  obtain ⟨-, -, hfresh, -, rfl⟩ := insert_ok_iff.mp hins
  exact get_record_of_some hfresh hc

/-- **Step lemma**: an insert keeps the store well formed. -/
theorem Inserted.wellFormed (hi : Inserted blake3 dag dag')
    (wf : WellFormed blake3 dag) : WellFormed blake3 dag' := by
  have hkeep : ∀ {h c}, dag.get h = some c → dag'.get h = some c := hi.get
  obtain ⟨d, k, hins⟩ := hi
  obtain ⟨-, hpar, hfresh, rfl, rfl⟩ := insert_ok_iff.mp hins
  refine ⟨?_, ?_, ?_, ?_⟩
  · intro h c hc
    rw [get_record] at hc
    split at hc
    · next he => cases hc; exact he
    · exact wf.hashed hc
  · intro r h
    rw [roundHashes_record]
    by_cases hr : d.round = r
    · rw [if_pos hr, List.mem_append, List.mem_singleton, wf.indexed]
      constructor
      · rintro (⟨c, hc, hcr⟩ | rfl)
        · exact ⟨c, hkeep hc, hcr⟩
        · exact ⟨d, by rw [get_record, if_pos rfl], hr⟩
      · rintro ⟨c, hc, hcr⟩
        rw [get_record] at hc
        split at hc
        · next he => exact .inr he.symm
        · exact .inl ⟨c, hc, hcr⟩
    · rw [if_neg hr, wf.indexed]
      constructor
      · rintro ⟨c, hc, hcr⟩; exact ⟨c, hkeep hc, hcr⟩
      · rintro ⟨c, hc, hcr⟩
        rw [get_record] at hc
        split at hc
        · next he => cases hc; exact absurd hcr hr
        · exact ⟨c, hc, hcr⟩
  · intro r
    rw [roundHashes_record, record, ExtTreeMap.mem_insert, compare_eq_iff_eq, wf.present]
    by_cases hr : d.round = r <;> simp [hr]
  · intro h c p hc hp
    rw [get_record] at hc
    split at hc
    · cases hc
      obtain ⟨q, hq, hlt⟩ := hpar p hp
      exact ⟨q, hkeep hq, hlt⟩
    · obtain ⟨q, hq, hlt⟩ := wf.closed hc hp
      exact ⟨q, hkeep hq, hlt⟩

theorem Extends.get (he : Extends blake3 dag dag') (hc : dag.get h = some c) :
    dag'.get h = some c := by
  induction he with
  | refl => exact hc
  | tail _ hi ih => exact hi.get ih

theorem Extends.wellFormed (he : Extends blake3 dag dag')
    (wf : WellFormed blake3 dag) : WellFormed blake3 dag' := by
  induction he with
  | refl => exact wf
  | tail _ hi ih => exact hi.wellFormed ih

/-- **Run lemma**: every reachable store is well formed. -/
theorem Reachable.wellFormed (hr : Reachable blake3 dag) : WellFormed blake3 dag :=
  Extends.wellFormed hr (wellFormed_new blake3)

/-- No hash is listed twice at a round. -/
theorem Reachable.nodup_roundHashes (hr : Reachable blake3 dag) (r : Round) :
    (dag.roundHashes r).Nodup := by
  induction hr with
  | refl =>
    rw [roundHashes_new]
    exact List.nodup_nil
  | tail hreach hi ih =>
    obtain ⟨c, h, hins⟩ := hi
    obtain ⟨-, -, hfresh, -, rfl⟩ := insert_ok_iff.mp hins
    rw [roundHashes_record]
    split
    · refine List.nodup_append.mpr ⟨ih, List.nodup_singleton h, ?_⟩
      rintro a ha b hb rfl
      rw [List.mem_singleton] at hb
      subst hb
      obtain ⟨q, hq, -⟩ := (Reachable.wellFormed hreach).indexed.mp ha
      rw [hfresh] at hq
      cases hq
    · exact ih

theorem Reachable.nodup_linearize (hr : Reachable blake3 dag) : dag.linearize.Nodup := by
  rw [linearize, List.nodup_flatMap]
  refine ⟨fun e he => ?_, ?_⟩
  · refine (List.perm_insertionSort _ _).nodup_iff.mpr ?_
    rw [snd_of_mem_byRound he]
    exact hr.nodup_roundHashes e.1
  · -- a hash is listed at the round of its certificate only
    refine List.Pairwise.imp_of_mem ?_ (ExtTreeMap.distinct_keys_toList (t := dag.byRound))
    intro e f he hf hne h hhe hhf
    rw [List.mem_insertionSort, snd_of_mem_byRound he] at hhe
    rw [List.mem_insertionSort, snd_of_mem_byRound hf] at hhf
    obtain ⟨c, hc, hce⟩ := hr.wellFormed.indexed.mp hhe
    obtain ⟨d, hd, hdf⟩ := hr.wellFormed.indexed.mp hhf
    rw [hc] at hd
    cases hd
    exact hne (by rw [← hce, ← hdf]; exact Std.ReflCmp.compare_self)

/-! ## A run given by its certificates

    The same inserts with each hash supplied: what a certificate hashes to is settled once, and the
    remaining checks of `insert` are decidable on the store alone. -/

/-- The checks of `insert` for a certificate whose hash is `h`. -/
def admits (dag : DagStore) (h : CertHash) (c : Certificate) : Bool :=
  (c.round != 0 || c.parents.isEmpty) && (dag.checkParents c.round c.parents).isOk && !dag.contains h

def recordAll (dag : DagStore) : List (CertHash × Certificate) → DagStore
  | [] => dag
  | p :: ps => (dag.record p.1 p.2).recordAll ps

def admitsAll (dag : DagStore) : List (CertHash × Certificate) → Bool
  | [] => true
  | p :: ps => dag.admits p.1 p.2 && (dag.record p.1 p.2).admitsAll ps

theorem inserted_of_admits (hh : c.hash blake3 = h) (ha : dag.admits h c = true) :
    dag.insert blake3 c = .ok (h, dag.record h c) := by
  simp only [admits, Bool.and_eq_true, Bool.or_eq_true, bne_iff_ne, List.isEmpty_iff,
    Bool.not_eq_true'] at ha
  obtain ⟨⟨hgen, hpar⟩, hfresh⟩ := ha
  refine insert_ok_iff.mpr ⟨fun h0 => ?_, checkParents_ok_iff.mp ?_, ?_, hh.symm, rfl⟩
  · exact hgen.resolve_left fun hne => hne h0
  · cases hcp : dag.checkParents c.round c.parents with
    | ok u => rfl
    | error e => rw [hcp] at hpar; cases hpar
  · cases hg : dag.get h with
    | none => rfl
    | some q => rw [contains_iff.mpr ⟨q, hg⟩] at hfresh; cases hfresh

variable {ps : List (CertHash × Certificate)}

theorem extends_recordAll :
    ∀ {dag : DagStore}, (∀ p ∈ ps, p.2.hash blake3 = p.1) → dag.admitsAll ps = true →
      Extends blake3 dag (dag.recordAll ps) := by
  induction ps with
  | nil => intro dag _ _; exact .refl
  | cons p ps ih =>
    intro dag hh ha
    rw [admitsAll, Bool.and_eq_true] at ha
    have hstep : Inserted blake3 dag (dag.record p.1 p.2) :=
      ⟨p.2, p.1, inserted_of_admits (hh p List.mem_cons_self) ha.1⟩
    exact .head hstep (ih (fun q hq => hh q (List.mem_cons_of_mem _ hq)) ha.2)

/-- A run stores nothing but its certificates. -/
theorem mem_of_get_recordAll :
    ∀ {dag : DagStore} {h : CertHash} {c : Certificate}, (dag.recordAll ps).get h = some c →
      dag.get h = some c ∨ (h, c) ∈ ps := by
  induction ps with
  | nil => intro dag h c hc; exact .inl hc
  | cons p ps ih =>
    intro dag h c hc
    rcases ih hc with hget | hmem
    · rw [get_record] at hget
      split at hget
      · next he => cases hget; exact .inr (by rw [← he]; exact List.mem_cons_self)
      · exact .inl hget
    · exact .inr (List.mem_cons_of_mem _ hmem)

theorem mem_of_get_recordAll_new (hc : (new.recordAll ps).get h = some c) : (h, c) ∈ ps := by
  rcases mem_of_get_recordAll hc with h | h
  · simp at h
  · exact h

/-- `max_round` is the largest round of a stored certificate. -/
theorem WellFormed.maxRound_eq_some (wf : WellFormed blake3 dag) {m : Round} :
    dag.maxRound = some m ↔
      (∃ h c, dag.get h = some c ∧ c.round = m) ∧ ∀ h c, dag.get h = some c → c.round ≤ m := by
  have hmem : ∀ r, r ∈ dag.byRound ↔ ∃ h c, dag.get h = some c ∧ c.round = r := by
    intro r
    rw [wf.present]
    constructor
    · intro hne
      obtain ⟨h, hh⟩ := List.exists_mem_of_ne_nil _ hne
      exact ⟨h, wf.indexed.mp hh⟩
    · rintro ⟨h, hc⟩ hnil
      have := wf.indexed.mpr hc
      rw [hnil] at this; cases this
  rw [maxRound, ← ExtTreeMap.maxKey?_eq_getLast?_keys,
    ExtTreeMap.maxKey?_eq_some_iff_mem_and_forall, hmem]
  refine and_congr_right fun _ => ⟨fun h k c hc => ?_, fun h r hr => ?_⟩
  · exact Std.isLE_compare.mp (h c.round ((hmem _).mpr ⟨k, c, hc, rfl⟩))
  · obtain ⟨k, c, hc, rfl⟩ := (hmem r).mp hr
    exact Std.isLE_compare.mpr (h k c hc)

/-- A store that holds a certificate has a highest round. -/
theorem WellFormed.maxRound_ne_none (wf : WellFormed blake3 dag) (hget : dag.get h = some c) :
    dag.maxRound ≠ none := by
  intro hm
  have hin : c.round ∈ dag.byRound :=
    wf.present.mpr (List.ne_nil_of_mem (wf.indexed.mpr ⟨c, hget, rfl⟩))
  rw [maxRound, ← ExtTreeMap.maxKey?_eq_getLast?_keys, ExtTreeMap.maxKey?_eq_none_iff] at hm
  rw [hm] at hin
  simp at hin

end DagStore

end SuwappuDag.Consensus
