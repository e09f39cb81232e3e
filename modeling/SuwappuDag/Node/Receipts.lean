/-
  RECEIPTS: what a client is told about the intents it submits.

  1. **Batches** — `submitAll` ends at the first refusal and keeps what went in before it.  An
     acknowledged batch lists hashes that were all new and are all queued; a refused one has left the
     queue alone exactly when the refusal came before the first admission (`batch_receipt_iff`).
  2. **Hashes** — the RPC wire hashes the bytes it was given, while the mempool and the explorer's index
     hash the intent it read from them.  The codec reads a prefix of the bytes, so the two hashes are
     the same exactly when nothing follows the intent (`receipt_hash_iff`).
-/
import SuwappuDag.Node.Bincode
import SuwappuDag.Node.PoolBooks
import SuwappuDag.Node.Scheme

namespace SuwappuDag.Node

open Words Consensus Execution
open Std (ExtTreeMap)

variable {C : Crypto} {s t : State} {intent : Intent} {nowMs : UInt64}

/-! ## One submission -/

theorem mempool_of_refused {limited : Option UInt64} {e : MempoolError}
    (h : admitIntent C s intent limited nowMs = (.error e, t)) : t.mempool = s.mempool := by
  obtain ⟨he, rfl⟩ := Prod.mk.inj h
  show (s.mempool.submit C.blake3 intent 0 limited nowMs).2 = _
  cases limited with
  | some retry => rfl
  | none =>
    cases hroom : s.mempool.makeRoom (intentHash C.blake3 intent) 0 with
    | error e => rw [Mempool.submit_of_makeRoom_error hroom]
    | ok room =>
      rw [Mempool.submit_of_makeRoom_ok hroom] at he
      cases he

/-- What is admitted was not queued and is appended to the queue under its hash. -/
theorem mempool_of_admitted {limited : Option UInt64} {h : IntentHash}
    (hok : admitIntent C s intent limited nowMs = (.ok h, t)) :
    h = intentHash C.blake3 intent ∧ h ∉ s.mempool.seen ∧
      t.mempool = s.mempool.enqueue (entryKey 0 nowMs h) ⟨intent, nowMs⟩ := by
  obtain ⟨he, rfl⟩ := Prod.mk.inj hok
  cases limited with
  | some retry => cases he
  | none =>
    cases hroom : s.mempool.makeRoom (intentHash C.blake3 intent) 0 with
    | error e =>
      rw [Mempool.submit_of_makeRoom_error hroom] at he
      cases he
    | ok room =>
      obtain ⟨hnew, rfl⟩ := Mempool.makeRoom_zero hroom
      rw [Mempool.submit_of_makeRoom_ok hroom] at he ⊢
      cases he
      exact ⟨rfl, hnew, rfl⟩

/-! ## Batches -/

/-- The pool has the hash in its queue. -/
def Mempool.Queues (pool : Mempool) (h : IntentHash) : Prop := ∃ key ∈ pool.queue, EntryKey.hash key = h

/-- Nothing leaves the queue. -/
def Mempool.Grows (pool pool' : Mempool) : Prop :=
  pool.seen ⊆ pool'.seen ∧ ∀ key ∈ pool.queue, key ∈ pool'.queue

theorem grows_enqueue (pool : Mempool) (key : EntryKey) (entry : Entry) :
    pool.Grows (pool.enqueue key entry) :=
  ⟨Finset.subset_insert _ _, fun _ hk => ExtTreeMap.mem_insert.mpr (.inr hk)⟩

theorem Mempool.Grows.trans {p q r : Mempool} (hpq : p.Grows q) (hqr : q.Grows r) : p.Grows r :=
  ⟨hpq.1.trans hqr.1, fun k hk => hqr.2 k (hpq.2 k hk)⟩

theorem grows_submitAll (ambient : Ambient) : ∀ (intents : List Intent) (k : Nat)
    (hashes : List Bytes32) (s : State),
    s.mempool.Grows (submitAll C ambient k intents hashes s).1.mempool := by
  intro intents
  induction intents with
  | nil => exact fun _ _ s => ⟨subset_rfl, fun _ h => h⟩
  | cons intent intents ih =>
    intro k hashes s
    rw [submitAll]
    split
    · next h t hadmitted =>
      have hpool := (mempool_of_admitted hadmitted).2.2
      exact (hpool ▸ grows_enqueue s.mempool _ _).trans (ih (k + 1) _ t)
    · next e t hadmitted =>
      rw [mempool_of_refused hadmitted]
      exact ⟨subset_rfl, fun _ h => h⟩

/-- An acknowledged batch adds its hashes, each of them new. -/
theorem submitAll_acked (ambient : Ambient) : ∀ (intents : List Intent) (k : Nat)
    (hashes out : List Bytes32) (s : State),
    (submitAll C ambient k intents hashes s).2 = .ackBatch out → ∀ h ∈ out, h ∈ hashes ∨
      h ∉ s.mempool.seen ∧ (submitAll C ambient k intents hashes s).1.mempool.Queues h := by
  intro intents
  induction intents with
  | nil =>
    rintro k hashes out s hack h hh
    cases hack
    exact Or.inl hh
  | cons intent intents ih =>
    intro k hashes out s
    rw [submitAll]
    split
    · next h' t hadmitted =>
      intro hack h hh
      obtain ⟨rfl, hnew, hpool⟩ := mempool_of_admitted hadmitted
      have hgrows : s.mempool.Grows t.mempool := hpool ▸ grows_enqueue s.mempool _ _
      rcases ih _ _ _ t hack h hh with hmem | ⟨hfresh, hqueued⟩
      · rcases List.mem_append.mp hmem with hold | hlast
        · exact Or.inl hold
        · rw [List.mem_singleton] at hlast
          subst hlast
          refine Or.inr ⟨hnew, entryKey 0 (ambient.nowMs k) _, ?_, rfl⟩
          refine (grows_submitAll ambient intents (k + 1) _ t).2 _ ?_
          rw [hpool]
          exact ExtTreeMap.mem_insert_self
      · exact Or.inr ⟨fun h => hfresh (hgrows.1 h), hqueued⟩
    · intro hack
      cases hack

/-- Every check of the batch passes, and the mempool takes its first intent. -/
def AdmitsFirst (C : Crypto) (s : State) (ambient : Ambient) (intents : List Intent)
    (signatures : List (List UInt8)) (signer : Bytes32) : Prop :=
  signatures.length = intents.length ∧ refuseBatch C s signer (intents.zip signatures) = none ∧
  ∃ intent ∈ intents.head?, (admitIntent C s intent (ambient.limited 0) (ambient.nowMs 0)).1.isOk = true

/-- A refused batch changes the queue exactly when its first intent went in. -/
theorem queue_submitAll (hsound : s.mempool.Sound C.blake3) {ambient : Ambient} {intents : List Intent} :
    (submitAll C ambient 0 intents [] s).1.mempool.queue = s.mempool.queue ↔
      ¬ ∃ intent ∈ intents.head?,
        (admitIntent C s intent (ambient.limited 0) (ambient.nowMs 0)).1.isOk = true := by
  cases intents with
  | nil => simp [submitAll]
  | cons intent intents =>
    rw [submitAll]
    split
    · next h t hadmitted =>
      obtain ⟨rfl, hnew, hpool⟩ := mempool_of_admitted hadmitted
      refine iff_of_false (fun heq => ?_) fun hnone => hnone ⟨intent, rfl, by rw [hadmitted]; rfl⟩
      -- the new key was not in the queue, and stays there
      have hkey : entryKey 0 (ambient.nowMs 0) (intentHash C.blake3 intent) ∈ t.mempool.queue := by
        rw [hpool]
        exact ExtTreeMap.mem_insert_self
      have hstays := (grows_submitAll (C := C) ambient intents 1 [intentHash C.blake3 intent] t).2 _ hkey
      have hfresh : (entryKey 0 (ambient.nowMs 0) (intentHash C.blake3 intent)).hash ∉ _ := hnew
      exact Mempool.not_mem_queue_of_fresh hsound hfresh (heq ▸ hstays)
    · next e t hadmitted =>
      refine iff_of_true (by rw [mempool_of_refused hadmitted]) ?_
      rintro ⟨x, hx, hok⟩
      cases hx
      rw [hadmitted] at hok
      cases hok

/-- **What a batch leaves behind**: the hashes of an acknowledged batch were not queued before and are
    queued now; a refused batch leaves the queue as it was, unless its first intent had gone in. -/
theorem batch_receipt_iff (C : Crypto) (s : State) (hsound : s.mempool.Sound C.blake3)
    (ambient : Ambient) (intents : List Intent) (signatures : List (List UInt8)) (signer : Bytes32) :
    let out := handleClient C ambient (.submitBatch intents signatures signer) s
    (∀ hashes, out.2 = .ackBatch hashes →
      ∀ h ∈ hashes, ¬ s.mempool.Queues h ∧ out.1.mempool.Queues h) ∧
    (∀ text, out.2 = .err text → (out.1.mempool.queue = s.mempool.queue ↔
      ¬ AdmitsFirst C s ambient intents signatures signer)) := by
  dsimp only
  rw [handleClient]
  by_cases hlen : signatures.length = intents.length
  · rw [if_neg (not_not.mpr hlen)]
    cases hrefuse : refuseBatch C s signer (intents.zip signatures) with
    | some text =>
      refine ⟨fun _ hack => (by cases hack), fun _ _ => iff_of_true rfl fun h => ?_⟩
      cases hrefuse.symm.trans h.2.1
    | none =>
      refine ⟨fun hashes hack h hh => ?_, fun text _ => ?_⟩
      · rcases submitAll_acked ambient intents 0 [] hashes s hack h hh with hnil | ⟨hnew, hqueued⟩
        · cases hnil
        · exact ⟨fun hold => hnew (hsound.seen.mpr hold), hqueued⟩
      · show (submitAll C ambient 0 intents [] s).1.mempool.queue = _ ↔ _
        rw [queue_submitAll hsound, AdmitsFirst, hrefuse]
        simp only [hlen, true_and]
  · rw [if_pos hlen]
    exact ⟨fun _ hack => (by cases hack), fun _ _ => iff_of_true rfl fun h => hlen h.1⟩

/-- A transfer that authority 0 submits. -/
def tip : Intent := .transfer 1 2 3

/-- A batch of one. -/
theorem batch_receipt_iff_single :
    let s := State.new briefScheme briefManifest 0
    let out := handleClient briefScheme ⟨fun _ => none, fun _ => 5⟩
      (.submitBatch [tip] [briefSign 0 tip] (Blake3.hash (briefKey 0))) s
    out.2 = .ackBatch [intentHash Blake3.hash tip] ∧
      ¬ s.mempool.Queues (intentHash Blake3.hash tip) ∧
      out.1.mempool.Queues (intentHash Blake3.hash tip) := by
  have hack : (handleClient briefScheme ⟨fun _ => none, fun _ => 5⟩
      (.submitBatch [tip] [briefSign 0 tip] (Blake3.hash (briefKey 0)))
      (State.new briefScheme briefManifest 0)).2 = .ackBatch [intentHash Blake3.hash tip] := by
    decide +kernel
  have hsound : (State.new briefScheme briefManifest 0).mempool.Sound briefScheme.blake3 :=
    Mempool.sound_ofCapacity _ 10000
  exact ⟨hack, (batch_receipt_iff _ _ hsound _ _ _ _).1 _ hack _ List.mem_cons_self⟩

/-- **A refused batch leaves an intent behind**: the second copy is a duplicate of the first. -/
theorem repeated_intent_stays :
    let s := State.new briefScheme briefManifest 0
    let out := handleClient briefScheme ⟨fun _ => none, fun _ => 5⟩ (.submitBatch [tip, tip]
      [briefSign 0 tip, briefSign 0 tip] (Blake3.hash (briefKey 0))) s
    out.2 = .err ("mempool (mid-batch): " ++
      (MempoolError.duplicateIntent (intentHash Blake3.hash tip)).text) ∧
    s.mempool.intents = [] ∧ out.1.mempool.intents = [tip] := by
  decide +kernel

/-! ## Hashes -/

/-- A block that carries an intent puts it into the index under its hash. -/
theorem exists_indexIntents {index : ExtTreeMap Bytes32 (Round × CertHash × Nat)} {cert : CertHash}
    {round : Round} {intents : List Intent} (hmem : intent ∈ intents) :
    ∃ i, (indexIntents C index cert round intents)[intentHash C.blake3 intent]? =
      some (round, cert, i) := by
  have hfold : ∀ (entries : List (Intent × Nat)) (index : ExtTreeMap Bytes32 (Round × CertHash × Nat)),
      (∃ e ∈ entries, e.1 = intent) ∨ (∃ i, index[intentHash C.blake3 intent]? = some (round, cert, i)) →
      ∃ i, (entries.foldl (fun index e => index.insert (intentHash C.blake3 e.1) (round, cert, e.2))
        index)[intentHash C.blake3 intent]? = some (round, cert, i) := by
    intro entries
    induction entries with
    | nil =>
      rintro index (⟨e, he, -⟩ | h)
      · cases he
      · exact h
    | cons e entries ih =>
      intro index h
      refine ih _ ?_
      by_cases he : intentHash C.blake3 e.1 = intentHash C.blake3 intent
      · refine Or.inr ⟨e.2, ?_⟩
        rw [← he]
        exact ExtTreeMap.getElem?_insert_self
      · rcases h with ⟨d, hd, rfl⟩ | ⟨i, hi⟩
        · rcases List.mem_cons.mp hd with rfl | hd
          · exact absurd rfl he
          · exact Or.inl ⟨d, hd, rfl⟩
        · refine Or.inr ⟨i, ?_⟩
          rw [ExtTreeMap.getElem?_insert, if_neg (by rwa [compare_eq_iff_eq])]
          exact hi
  obtain ⟨i, hi⟩ := List.mem_iff_getElem?.mp hmem
  exact hfold _ index (Or.inl ⟨(intent, i), List.mem_zipIdx_iff_getElem?.mpr hi, rfl⟩)

/-- **Which hash the RPC wire returns**: the intent is queued and indexed under its content hash, and
    the hash returned is that one exactly when no byte follows the intent. -/
theorem receipt_hash_iff (C : Crypto) (s : State) (intentBincode signature : List UInt8)
    (signer : Bytes32) (nowMs : UInt64) (h : Bytes32)
    (hcollision : ∀ x rest, decodeIntent intentBincode = (.ok x, rest) →
      C.blake3 intentBincode = C.blake3 (encodeIntent x) → intentBincode = encodeIntent x)
    (hok : (submitIntent C intentBincode (decodeIntent intentBincode).1 signature signer nowMs
      s).2 = .ok h) :
    ∃ intent rest, decodeIntent intentBincode = (.ok intent, rest) ∧
      (submitIntent C intentBincode (.ok intent) signature signer nowMs s).1.mempool.queue[
        entryKey 0 nowMs (intentHash C.blake3 intent)]? = some ⟨intent, nowMs⟩ ∧
      (∀ index cert round intents, intent ∈ intents → ∃ i,
        (indexIntents C index cert round intents)[intentHash C.blake3 intent]? =
          some (round, cert, i)) ∧
      (h = intentHash C.blake3 intent ↔ rest = []) := by
  rcases hdec : decodeIntent intentBincode with ⟨text | intent, rest⟩
  · rw [hdec] at hok
    cases hok
  · refine ⟨intent, rest, rfl, ?_⟩
    rw [hdec] at hok
    unfold submitIntent at hok ⊢
    dsimp only at hok ⊢
    split at hok
    · cases hok
    · cases hok
    · cases hok
    next hauth =>
    split at hok
    · next hash t hadmitted =>
      cases hok
      obtain ⟨rfl, -, hpool⟩ := mempool_of_admitted hadmitted
      refine ⟨?_, fun _ _ _ _ => exists_indexIntents, ?_⟩
      · show t.mempool.queue[_]? = _
        rw [hpool]
        exact ExtTreeMap.getElem?_insert_self
      · have hbytes := (decodeIntent_eq_ok_iff.mp hdec).2
        constructor
        · intro heq
          exact List.append_right_eq_self.mp (hbytes.trans (hcollision intent rest hdec heq))
        · rintro rfl
          rw [← hbytes, List.append_nil]
          rfl
    · cases hok

/-- The bytes the codec writes. -/
theorem receipt_hash_iff_exact :
    ∃ intent rest, decodeIntent (encodeIntent tip) = (.ok intent, rest) ∧
      intentHash Blake3.hash tip = intentHash Blake3.hash intent := by
  have hdec : decodeIntent (encodeIntent tip) = (.ok tip, []) := by decide +kernel
  have hok : (submitIntent briefScheme (encodeIntent tip) (decodeIntent (encodeIntent tip)).1
      (briefSign 0 tip) (Blake3.hash (briefKey 0)) 5 (State.new briefScheme briefManifest 0)).2 =
        .ok (intentHash Blake3.hash tip) := by
    decide +kernel
  obtain ⟨intent, rest, hread, -, -, hiff⟩ := receipt_hash_iff briefScheme _ _ _ _ _ _
    (fun x rest hx _ => by rw [hdec] at hx; cases hx; rfl) hok
  refine ⟨intent, rest, hread, hiff.mpr ?_⟩
  rw [hdec] at hread
  cases hread
  rfl

/-- **A receipt for nothing**: one more byte after the intent, and the hash returned is not the one it
    is queued under. -/
theorem padded_receipt :
    let bytes := encodeIntent tip ++ [0]
    let out := submitIntent briefScheme bytes (decodeIntent bytes).1 (briefSign 0 tip)
      (Blake3.hash (briefKey 0)) 5 (State.new briefScheme briefManifest 0)
    out.2 = .ok (Blake3.hash bytes) ∧ Blake3.hash bytes ≠ intentHash Blake3.hash tip ∧
      out.1.mempool.queue.keys.map EntryKey.hash = [intentHash Blake3.hash tip] := by
  decide +kernel

end SuwappuDag.Node
