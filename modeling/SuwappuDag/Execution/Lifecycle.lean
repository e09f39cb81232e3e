/-
  THE LIFE OF A STAKE SLOT, over whole runs.

  1. **Events** — the successful operations on one slot of one ring, read off the history of a run:
     its admission, its exit, its ejections, what was deposited and what was withdrawn.
  2. **`Tells`** — what the past of a slot says about the record it has now.  `SlotOp.Step` is the
     automaton of a slot; each of its five transitions keeps the account (`tells_step`).
  3. **Payoff** — `slot_lifecycle`: one admission, statuses that only go forward, fixed keys, a stake
     that is deposits minus withdrawals until the ejection, and no withdrawal of money before its time.
     A withdrawal of NOTHING is no withdrawal: it succeeds at any time.
-/
import SuwappuDag.Execution.Slots

namespace SuwappuDag.Execution

open Words Command Reserved InMemorySubstrate Runs
open Std (ExtTreeMap)

/-! ## Events -/

namespace SlotOp

/-- What the operation puts into the slot. -/
def deposited : SlotOp → Nat
  | .deposit _ amount => amount.toNat
  | _ => 0

/-- What the operation takes out of the slot. -/
def withdrawn : SlotOp → Nat
  | .withdrawal _ amount => amount.toNat
  | _ => 0

end SlotOp

section Events

variable (blake3 : List UInt8 → Bytes32) (ring : Ring) (id : UInt32)

/-- The application carried the operation on the slot out. -/
def Applied.Did (op : SlotOp) (a : Applied) : Prop :=
  a.intent.slotOp = some (ring, id, op) ∧ a.Succeeds blake3

/-- The application admitted the slot. -/
def Applied.Admitted (a : Applied) : Prop :=
  ∃ stake mldsa bls, a.Did blake3 ring id (.admission stake mldsa bls)

/-- An amount of the operation, if the intent is about the slot. -/
def Intent.onSlot (amount : SlotOp → Nat) (intent : Intent) : Nat :=
  match intent.slotOp with
  | some (r, i, op) => if r = ring ∧ i = id then amount op else 0
  | none => 0

/-- The sum of the successful deposits to the slot. -/
def deposits (l : List Applied) : Nat := collected blake3 (Intent.onSlot ring id SlotOp.deposited) l

/-- The sum of the successful withdrawals from the slot. -/
def withdrawals (l : List Applied) : Nat := collected blake3 (Intent.onSlot ring id SlotOp.withdrawn) l

end Events

section Lifecycle

variable {blake3 : List UInt8 → Bytes32} {ring : Ring} {id : UInt32} {l : List Applied} {a : Applied}
  {op : SlotOp} {s t : InMemorySubstrate}

theorem collected_did (amount : SlotOp → Nat) (h : a.Did blake3 ring id op) :
    collected blake3 (Intent.onSlot ring id amount) (l ++ [a]) =
      collected blake3 (Intent.onSlot ring id amount) l + amount op := by
  rw [collected_concat, if_pos h.2, Intent.onSlot, h.1]
  exact congrArg _ (if_pos ⟨rfl, rfl⟩)

/-- Nothing happened to the slot: it was not meant, or the operation failed, or it was idle. -/
def Applied.Passes (blake3 : List UInt8 → Bytes32) (ring : Ring) (id : UInt32) (a : Applied) : Prop :=
  ∀ op, a.Did blake3 ring id op → op.Idle

theorem SlotOp.Idle.amounts (h : op.Idle) : op.deposited = 0 ∧ op.withdrawn = 0 := by
  cases op with
  | deposit source amount =>
    have h0 : amount = 0 := h
    subst h0
    exact ⟨rfl, rfl⟩
  | withdrawal dest amount =>
    have h0 : amount = 0 := h
    subst h0
    exact ⟨rfl, rfl⟩
  | _ => exact h.elim

theorem Applied.Passes.not_admitted (h : a.Passes blake3 ring id) : ¬ a.Admitted blake3 ring id :=
  fun ⟨_, _, _, hdid⟩ => h _ hdid

theorem Applied.Passes.not_ejected (h : a.Passes blake3 ring id) : ¬ a.Did blake3 ring id .ejection :=
  fun hdid => h _ hdid

theorem collected_passes {amount : SlotOp → Nat} (hidle : ∀ op : SlotOp, op.Idle → amount op = 0)
    (h : a.Passes blake3 ring id) :
    collected blake3 (Intent.onSlot ring id amount) (l ++ [a]) =
      collected blake3 (Intent.onSlot ring id amount) l := by
  rw [collected_concat]
  split
  · next hok =>
    rw [Intent.onSlot]
    split
    · next r i op hop =>
      split
      · next heq =>
        obtain ⟨rfl, rfl⟩ := heq
        rw [hidle op (h op ⟨hop, hok⟩), Nat.add_zero]
      · exact Nat.add_zero _
    · exact Nat.add_zero _
  · exact Nat.add_zero _

theorem deposits_passes (h : a.Passes blake3 ring id) :
    deposits blake3 ring id (l ++ [a]) = deposits blake3 ring id l :=
  collected_passes (fun _ hidle => hidle.amounts.1) h

theorem withdrawals_passes (h : a.Passes blake3 ring id) :
    withdrawals blake3 ring id (l ++ [a]) = withdrawals blake3 ring id l :=
  collected_passes (fun _ hidle => hidle.amounts.2) h

/-! ## What the past says about the slot -/

/-- The record of a slot agrees with what happened to it. -/
def Tells (blake3 : List UInt8 → Bytes32) (ring : Ring) (id : UInt32) (l : List Applied) :
    Option SlotRecord → Prop
  | none => deposits blake3 ring id l = 0 ∧ (∀ a ∈ l, ¬ a.Admitted blake3 ring id) ∧
      ∀ a ∈ l, ¬ a.Did blake3 ring id .ejection
  | some slot =>
    (slot.status = .exiting → ∃ a ∈ l, a.Did blake3 ring id .exit ∧
      a.before.currentBlockHeight = slot.exitBlockHeight) ∧
    if slot.status = .ejected
    then slot.depositedStake = 0 ∧ ∃ a ∈ l, a.Did blake3 ring id .ejection
    else slot.depositedStake.toNat + withdrawals blake3 ring id l = deposits blake3 ring id l ∧
      ∀ a ∈ l, ¬ a.Did blake3 ring id .ejection

theorem exists_mem_concat {P : Applied → Prop} (h : ∃ b ∈ l, P b) : ∃ b ∈ l ++ [a], P b :=
  let ⟨b, hb, hP⟩ := h
  ⟨b, List.mem_append_left _ hb, hP⟩

theorem forall_mem_concat {P : Applied → Prop} (h : ∀ b ∈ l, P b) (ha : P a) : ∀ b ∈ l ++ [a], P b := by
  rw [List.forall_mem_append, List.forall_mem_singleton]
  exact ⟨h, ha⟩

theorem tells_nil : Tells blake3 ring id [] none := ⟨rfl, by simp, by simp⟩

theorem tells_passes {slot : Option SlotRecord} (ha : a.Passes blake3 ring id)
    (h : Tells blake3 ring id l slot) : Tells blake3 ring id (l ++ [a]) slot := by
  cases slot with
  | none =>
    obtain ⟨hdep, hadm, hej⟩ := h
    exact ⟨(deposits_passes ha).trans hdep, forall_mem_concat hadm ha.not_admitted,
      forall_mem_concat hej ha.not_ejected⟩
  | some slot =>
    refine ⟨fun hexit => exists_mem_concat (h.1 hexit), ?_⟩
    have hrest := h.2
    split at hrest
    · next hstatus =>
      rw [if_pos hstatus]
      exact ⟨hrest.1, exists_mem_concat hrest.2⟩
    · next hstatus =>
      rw [if_neg hstatus, deposits_passes ha, withdrawals_passes ha]
      exact ⟨hrest.1, forall_mem_concat hrest.2 ha.not_ejected⟩

theorem not_ejected_of_did (h : a.Did blake3 ring id op) (hop : op ≠ .ejection) :
    ¬ a.Did blake3 ring id .ejection := by
  intro hej
  have heq := h.1.symm.trans hej.1
  simp only [Option.some.injEq, Prod.mk.injEq, true_and] at heq
  exact hop heq

/-- **One transition of the automaton**: the new record agrees with the longer past. -/
theorem tells_step {old : Option SlotRecord} {new : SlotRecord} (hdid : a.Did blake3 ring id op)
    (hstep : op.Step a.before.currentBlockHeight old new)
    (hle : withdrawals blake3 ring id l ≤ deposits blake3 ring id l)
    (h : Tells blake3 ring id l old) : Tells blake3 ring id (l ++ [a]) (some new) := by
  have hdep : deposits blake3 ring id (l ++ [a]) = _ := collected_did SlotOp.deposited hdid
  have hwd : withdrawals blake3 ring id (l ++ [a]) = _ := collected_did SlotOp.withdrawn hdid
  cases op with
  | admission stake mldsa bls =>
    obtain ⟨rfl, rfl⟩ := hstep
    obtain ⟨hzero, -, hej⟩ := h
    refine ⟨fun hexit => (by cases hexit), ?_⟩
    rw [if_neg (by simp), hdep, hwd]
    refine ⟨?_, forall_mem_concat hej (not_ejected_of_did hdid (by simp))⟩
    show 0 + (withdrawals blake3 ring id l + 0) = deposits blake3 ring id l + 0
    omega
  | exit =>
    obtain ⟨slot, rfl, hactive, rfl⟩ := hstep
    have hrest := h.2
    rw [if_neg (by simp [hactive])] at hrest
    refine ⟨fun _ => ⟨a, List.mem_append_right _ (List.mem_singleton_self a), hdid, rfl⟩, ?_⟩
    rw [if_neg (by simp), hdep, hwd]
    exact ⟨hrest.1, forall_mem_concat hrest.2 (not_ejected_of_did hdid (by simp))⟩
  | ejection =>
    obtain ⟨slot, rfl, rfl⟩ := hstep
    have hstatus : (ejectedSlot slot).status = .ejected := rfl
    refine ⟨fun hexit => (by cases hexit), ?_⟩
    rw [if_pos hstatus]
    exact ⟨rfl, a, List.mem_append_right _ (List.mem_singleton_self a), hdid⟩
  | deposit source amount =>
    obtain ⟨-, slot, rfl, hactive, hfit, rfl⟩ := hstep
    have hrest := h.2
    rw [if_neg (by simp [hactive])] at hrest
    refine ⟨fun hexit => exists_mem_concat (h.1 hexit), ?_⟩
    rw [if_neg (by simp [hactive]), hdep, hwd]
    refine ⟨?_, forall_mem_concat hrest.2 (not_ejected_of_did hdid (by simp))⟩
    show (slot.depositedStake + UInt64.ofNat amount.toNat).toNat + (withdrawals blake3 ring id l + 0) =
      deposits blake3 ring id l + amount.toNat
    rw [toNat_deposit hfit]
    omega
  | withdrawal dest amount =>
    obtain ⟨-, slot, rfl, hexiting, -, hcover, rfl⟩ := hstep
    have hrest := h.2
    rw [if_neg (by simp [hexiting])] at hrest
    refine ⟨fun hexit => exists_mem_concat (h.1 hexit), ?_⟩
    rw [if_neg (by simp [hexiting]), hdep, hwd]
    refine ⟨?_, forall_mem_concat hrest.2 (not_ejected_of_did hdid (by simp))⟩
    show (slot.depositedStake - UInt64.ofNat amount.toNat).toNat +
      (withdrawals blake3 ring id l + amount.toNat) = deposits blake3 ring id l + 0
    rw [toNat_withdrawal hcover]
    omega

/-- No more is withdrawn than was deposited. -/
theorem covered_step {old : Option SlotRecord} {new : SlotRecord} (hdid : a.Did blake3 ring id op)
    (hstep : op.Step a.before.currentBlockHeight old new)
    (hle : withdrawals blake3 ring id l ≤ deposits blake3 ring id l)
    (h : Tells blake3 ring id l old) :
    withdrawals blake3 ring id (l ++ [a]) ≤ deposits blake3 ring id (l ++ [a]) := by
  have hdep : deposits blake3 ring id (l ++ [a]) = _ := collected_did SlotOp.deposited hdid
  have hwd : withdrawals blake3 ring id (l ++ [a]) = _ := collected_did SlotOp.withdrawn hdid
  rw [hdep, hwd]
  cases op with
  | withdrawal dest amount =>
    obtain ⟨-, slot, rfl, hexiting, -, hcover, -⟩ := hstep
    have hrest := h.2
    rw [if_neg (by simp [hexiting])] at hrest
    have hbonded := hrest.1
    show withdrawals blake3 ring id l + amount.toNat ≤ deposits blake3 ring id l + 0
    omega
  | _ => exact Nat.add_le_add hle (Nat.zero_le _)

/-! ## One application -/

/-- The slot was not admitted before; and where money was withdrawn, the slot had been exiting for the
    cooldown, from a height at which it did exit, and had not been ejected. -/
def Applied.Timely (blake3 : List UInt8 → Bytes32) (ring : Ring) (id : UInt32) (past : List Applied)
    (a : Applied) : Prop :=
  (a.Admitted blake3 ring id → ∀ b ∈ past, ¬ b.Admitted blake3 ring id) ∧
  ∀ dest amount, amount ≠ 0 → a.Did blake3 ring id (.withdrawal dest amount) →
    ∃ slot, ring.slotRecord blake3 a.before id = some slot ∧ slot.status = .exiting ∧
      saturatingAdd slot.exitBlockHeight exitCooldownBlocks ≤ a.before.currentBlockHeight ∧
      (∃ b ∈ past, b.Did blake3 ring id .exit ∧
        b.before.currentBlockHeight = slot.exitBlockHeight) ∧
      ∀ b ∈ past, ¬ b.Did blake3 ring id .ejection

theorem timely_of_passes (h : a.Passes blake3 ring id) : a.Timely blake3 ring id l :=
  ⟨fun hadm => absurd hadm h.not_admitted, fun _ _ h0 hdid => absurd (h _ hdid) h0⟩

theorem Applied.Did.unique {op' : SlotOp} (h : a.Did blake3 ring id op)
    (h' : a.Did blake3 ring id op') : op' = op := by
  have heq := h'.1.symm.trans h.1
  simpa only [Option.some.injEq, Prod.mk.injEq, true_and] using heq

theorem timely_step {map : RingMap} {new : SlotRecord} (hdid : a.Did blake3 ring id op)
    (hdec : ring.decode (ringBytes blake3 ring a.before) = .ok map)
    (hstep : op.Step a.before.currentBlockHeight map[id]? new)
    (h : Tells blake3 ring id l map[id]?) : a.Timely blake3 ring id l := by
  constructor
  · rintro ⟨stake, mldsa, bls, hadm⟩
    cases hdid.unique hadm
    rw [hstep.1] at h
    exact h.2.1
  · intro dest amount h0 hwd
    cases hdid.unique hwd
    obtain ⟨-, slot, hslot, hexiting, hcool, -⟩ := hstep
    rw [hslot] at h
    have hrest := h.2
    rw [if_neg (by simp [hexiting])] at hrest
    refine ⟨slot, ?_, hexiting, hcool, h.1 hexiting, hrest.2⟩
    rw [Ring.slotRecord, Ring.slots_of_decode hdec, hslot]

/-- The books of a slot after a history that ends in `t`. -/
structure SlotBooks (blake3 : List UInt8 → Bytes32) (ring : Ring) (id : UInt32) (l : List Applied)
    (t : InMemorySubstrate) : Prop where
  timely : Chronicle (Applied.Timely blake3 ring id) l
  covered : withdrawals blake3 ring id l ≤ deposits blake3 ring id l
  tells : ∃ map, ring.Holds blake3 t map ∧ Tells blake3 ring id l map[id]?

theorem SlotBooks.passes (h : SlotBooks blake3 ring id l s) (ha : a.Passes blake3 ring id)
    (hmap : ∀ map, ring.Holds blake3 s map →
      ∃ map', ring.Holds blake3 t map' ∧ map'[id]? = map[id]?) :
    SlotBooks blake3 ring id (l ++ [a]) t where
  timely := h.timely.concat (timely_of_passes ha)
  covered := by
    rw [withdrawals_passes ha, deposits_passes ha]
    exact h.covered
  tells := by
    obtain ⟨map, hholds, htells⟩ := h.tells
    obtain ⟨map', hholds', hsame⟩ := hmap map hholds
    rw [← hsame] at htells
    exact ⟨map', hholds', tells_passes ha htells⟩

theorem slotBooks_step (hres : ReservedDistinct blake3) (h : SlotBooks blake3 ring id l a.before) :
    SlotBooks blake3 ring id (l ++ [a]) (a.after blake3) := by
  rcases ring_step hres ring a with ⟨hop, hbytes⟩ | ⟨id', op, hop, ⟨hsame, hidle⟩ | ⟨hok, map, slot, hch⟩⟩
  · exact h.passes (fun op hdid => absurd hdid.1 (hop id op)) fun map hmap =>
      ⟨map, hmap.frame hbytes, rfl⟩
  · refine h.passes (fun op' hdid => ?_) fun map hmap => ⟨map, ?_, rfl⟩
    · have heq := hdid.1.symm.trans hop
      simp only [Option.some.injEq, Prod.mk.injEq, true_and] at heq
      rw [heq.2]
      exact hidle hdid.2
    · rwa [hsame]
  by_cases hid : id' = id
  · subst hid
    have hdid : a.Did blake3 ring id' op := ⟨hop, hok⟩
    obtain ⟨map', hmap', htells⟩ := h.tells
    cases hmap'.eq_of_decode hch.decoded
    refine ⟨h.timely.concat (timely_step hdid hch.decoded hch.step htells),
      covered_step hdid hch.step h.covered htells, _, hch.holds, ?_⟩
    rw [ExtTreeMap.getElem?_insert_self]
    exact tells_step hdid hch.step h.covered htells
  · refine h.passes (fun op' hdid => ?_) fun map' hmap' => ⟨_, hch.holds, ?_⟩
    · have heq := hdid.1.symm.trans hop
      simp only [Option.some.injEq, Prod.mk.injEq, true_and] at heq
      exact absurd heq.1.symm hid
    · rw [hmap'.eq_of_decode hch.decoded, ExtTreeMap.getElem?_insert, if_neg]
      exact fun heq => hid (compare_eq_iff_eq.mp heq)

/-! ## The record along a run -/

/-- The moves of a slot's status. -/
inductive SlotStatus.Moves : SlotStatus → SlotStatus → Prop where
  | exit : Moves .active .exiting
  | ejectExiting : Moves .exiting .ejected
  | ejectActive : Moves .active .ejected

/-- What a slot may become: the keys and the declared stake stay, the status moves forward. -/
structure SlotRecord.Evolves (slot slot' : SlotRecord) : Prop where
  mldsaPublicKey : slot'.mldsaPublicKey = slot.mldsaPublicKey
  blsPublicKey : slot'.blsPublicKey = slot.blsPublicKey
  stakeSuwappu : slot'.stakeSuwappu = slot.stakeSuwappu
  status : Relation.ReflTransGen SlotStatus.Moves slot.status slot'.status

theorem SlotRecord.Evolves.trans {x y z : SlotRecord} (hxy : x.Evolves y) (hyz : y.Evolves z) :
    x.Evolves z :=
  ⟨hyz.1.trans hxy.1, hyz.2.trans hxy.2, hyz.3.trans hxy.3, Relation.ReflTransGen.trans hxy.4 hyz.4⟩

theorem SlotRecord.Evolves.refl (slot : SlotRecord) : slot.Evolves slot := ⟨rfl, rfl, rfl, .refl⟩

theorem SlotStatus.moves_ejected (status : SlotStatus) :
    Relation.ReflTransGen SlotStatus.Moves status .ejected := by
  cases status with
  | active => exact .single .ejectActive
  | exiting => exact .single .ejectExiting
  | ejected => exact .refl

theorem evolves_step {height : UInt64} {slot new : SlotRecord} (h : op.Step height (some slot) new) :
    slot.Evolves new := by
  cases op with
  | admission stake mldsa bls => cases h.1
  | exit =>
    obtain ⟨_, ⟨⟩, hactive, rfl⟩ := h
    refine ⟨rfl, rfl, rfl, ?_⟩
    rw [hactive]
    exact .single .exit
  | ejection =>
    obtain ⟨_, ⟨⟩, rfl⟩ := h
    exact ⟨rfl, rfl, rfl, SlotStatus.moves_ejected _⟩
  | deposit source amount =>
    obtain ⟨-, _, ⟨⟩, -, -, rfl⟩ := h
    exact ⟨rfl, rfl, rfl, .refl⟩
  | withdrawal dest amount =>
    obtain ⟨-, _, ⟨⟩, -, -, -, rfl⟩ := h
    exact ⟨rfl, rfl, rfl, .refl⟩

/-- The ring's record holds the slot as something it may have become. -/
def Survives (blake3 : List UInt8 → Bytes32) (ring : Ring) (id : UInt32) (slot : SlotRecord)
    (t : InMemorySubstrate) : Prop :=
  ∃ map, ring.Holds blake3 t map ∧ ∃ slot', map[id]? = some slot' ∧ slot.Evolves slot'

theorem survives_of_bytes {slot : SlotRecord}
    (hbytes : ringBytes blake3 ring t = ringBytes blake3 ring s)
    (h : Survives blake3 ring id slot s) : Survives blake3 ring id slot t := by
  obtain ⟨map, hmap, hslot⟩ := h
  exact ⟨map, hmap.frame hbytes, hslot⟩

theorem survives_step (hres : ReservedDistinct blake3) {slot : SlotRecord}
    (h : Survives blake3 ring id slot a.before) : Survives blake3 ring id slot (a.after blake3) := by
  rcases ring_step hres ring a with ⟨hop, hbytes⟩ | ⟨id', op, hop, ⟨hsame, hidle⟩ | ⟨hok, map, new, hch⟩⟩
  · exact survives_of_bytes hbytes h
  · rwa [hsame]
  obtain ⟨map', hmap', slot', hslot', hevolves⟩ := h
  cases hmap'.eq_of_decode hch.decoded
  refine ⟨_, hch.holds, ?_⟩
  rw [ExtTreeMap.getElem?_insert]
  split
  · next heq =>
    rw [compare_eq_iff_eq] at heq
    subst heq
    have hstep := hch.step
    rw [hslot'] at hstep
    exact ⟨new, rfl, hevolves.trans (evolves_step hstep)⟩
  · exact ⟨slot', hslot', hevolves⟩

theorem survives_runCalls (hres : ReservedDistinct blake3) {slot : SlotRecord}
    (calls : List SubstrateCall) (h : Survives blake3 ring id slot s) :
    Survives blake3 ring id slot (runCalls blake3 calls s) := by
  induction calls generalizing s with
  | nil => exact h
  | cons call calls ih =>
    refine ih ?_
    cases call with
    | setCurrentBlockHeight height => exact survives_of_bytes rfl h
    | applyIntent intent => exact survives_step (a := ⟨intent, s⟩) hres h

/-! ## Runs -/

theorem slotBooks_history (hres : ReservedDistinct blake3) (ring : Ring) (id : UInt32)
    (calls : List SubstrateCall) :
    SlotBooks blake3 ring id (history blake3 calls new) (runCalls blake3 calls new) := by
  refine history_invariant (P := SlotBooks blake3 ring id) ?_ ?_ ?_ calls
  · refine ⟨chronicle_nil, Nat.le_refl _, ∅, ring.holds_new, ?_⟩
    rw [ExtTreeMap.getElem?_empty]
    exact tells_nil
  · exact fun l t height h => ⟨h.timely, h.covered, h.tells⟩
  · exact fun l t intent h => slotBooks_step (a := ⟨intent, t⟩) hres h

/-- What the books say about the stake of a slot. -/
theorem Tells.stake {slot : SlotRecord} (h : Tells blake3 ring id l (some slot)) :
    ((∀ a ∈ l, ¬ a.Did blake3 ring id .ejection) →
      slot.depositedStake.toNat = deposits blake3 ring id l - withdrawals blake3 ring id l) ∧
    ((∃ a ∈ l, a.Did blake3 ring id .ejection) →
      slot.depositedStake = 0 ∧ slot.status = .ejected) := by
  have hrest := h.2
  split at hrest
  · next hstatus =>
    obtain ⟨hzero, a, ha, hej⟩ := hrest
    exact ⟨fun hnone => absurd hej (hnone a ha), fun _ => ⟨hzero, hstatus⟩⟩
  · next hstatus =>
    obtain ⟨hbonded, hnone⟩ := hrest
    refine ⟨fun _ => by omega, fun ⟨a, ha, hej⟩ => absurd hej (hnone a ha)⟩

/-- **The life of a stake slot.**  In every run from the empty substrate, for every slot of either
    ring, in the table that the ring's record holds:
    - a slot that was shown at some point keeps its keys and its declared stake, and its status has
      moved `active → exiting → ejected` or `active → ejected` only;
    - its bonded stake is the successful deposits minus the successful withdrawals until an ejection,
      and nothing afterwards;
    and along the run:
    - it is admitted once;
    - the successful withdrawals do not exceed the successful deposits;
    - a withdrawal of a positive amount that succeeds finds the slot exiting, at a height not below
      the exit height plus the cooldown, and never ejected. -/
theorem slot_lifecycle (hres : ReservedDistinct blake3) (calls : List SubstrateCall) (ring : Ring)
    (id : UInt32) :
    (∃ map, ring.Holds blake3 (runCalls blake3 calls new) map ∧
      (∀ earlier later, calls = earlier ++ later → ∀ slot,
        ring.slotRecord blake3 (runCalls blake3 earlier new) id = some slot →
        ∃ slot', map[id]? = some slot' ∧ slot.Evolves slot') ∧
      ∀ slot, map[id]? = some slot →
        ((∀ a ∈ history blake3 calls new, ¬ a.Did blake3 ring id .ejection) →
          slot.depositedStake.toNat = deposits blake3 ring id (history blake3 calls new) -
            withdrawals blake3 ring id (history blake3 calls new)) ∧
        ((∃ a ∈ history blake3 calls new, a.Did blake3 ring id .ejection) →
          slot.depositedStake = 0 ∧ slot.status = .ejected)) ∧
    Chronicle (fun past a => a.Admitted blake3 ring id → ∀ b ∈ past, ¬ b.Admitted blake3 ring id)
      (history blake3 calls new) ∧
    withdrawals blake3 ring id (history blake3 calls new) ≤
      deposits blake3 ring id (history blake3 calls new) ∧
    Chronicle (fun past a => ∀ dest amount, amount ≠ 0 →
      a.Did blake3 ring id (.withdrawal dest amount) →
      ∃ slot, ring.slotRecord blake3 a.before id = some slot ∧ slot.status = .exiting ∧
        saturatingAdd slot.exitBlockHeight exitCooldownBlocks ≤ a.before.currentBlockHeight ∧
        (∃ b ∈ past, b.Did blake3 ring id .exit ∧
          b.before.currentBlockHeight = slot.exitBlockHeight) ∧
        ∀ b ∈ past, ¬ b.Did blake3 ring id .ejection) (history blake3 calls new) := by
  have hbooks := slotBooks_history hres ring id calls
  obtain ⟨map, hmap, htells⟩ := hbooks.tells
  refine ⟨⟨map, hmap, ?_, fun slot hslot => ?_⟩, fun past a rest h => (hbooks.timely past a rest h).1,
    hbooks.covered, fun past a rest h => (hbooks.timely past a rest h).2⟩
  · rintro earlier later rfl slot hslot
    have hshown : Survives blake3 ring id slot (runCalls blake3 earlier new) := by
      obtain ⟨map', hmap', -⟩ := (slotBooks_history hres ring id earlier).tells
      exact ⟨map', hmap', slot, hmap'.slotRecord hslot, .refl slot⟩
    obtain ⟨map', hmap', hslot'⟩ := survives_runCalls hres later hshown
    rw [runCalls_append] at hmap
    rwa [hmap'.unique hmap]
  · rw [hslot] at htells
    exact htells.stake

end Lifecycle

/-- An authority bonds five, exits, waits for the cooldown and takes two. -/
def retiringRun : List SubstrateCall :=
  [ .applyIntent (.genesisAllocation [(1, 9)]), .applyIntent (.admitAuthority 0 0 [] []),
    .applyIntent (.depositAuthorityStake 1 0 5), .applyIntent (.exitAuthority 0),
    .setCurrentBlockHeight 2419200, .applyIntent (.withdrawAuthorityStake 1 0 2) ]

theorem slot_lifecycle_retiring :
    deposits Blake3.hash .authority 0 (history Blake3.hash retiringRun new) = 5 ∧
      2 ≤ deposits Blake3.hash .authority 0 (history Blake3.hash retiringRun new) := by
  have hsums : deposits Blake3.hash .authority 0 (history Blake3.hash retiringRun new) = 5 ∧
      withdrawals Blake3.hash .authority 0 (history Blake3.hash retiringRun new) = 2 := by
    decide +kernel
  have hle := (slot_lifecycle blake3_reservedDistinct retiringRun .authority 0).2.2.1
  rw [hsums.2] at hle
  exact ⟨hsums.1, hle⟩

/-- A withdrawal of nothing succeeds while the slot is active. -/
theorem zeroWithdrawal_active :
    ((Ring.authority.slotRecord Blake3.hash (runCalls Blake3.hash
        [.applyIntent (.admitAuthority 0 0 [] [])] new) 0).map SlotRecord.status) = some .active ∧
      (applyIntent Blake3.hash (.withdrawAuthorityStake 1 0 0) (runCalls Blake3.hash
        [.applyIntent (.admitAuthority 0 0 [] [])] new)).1 = .ok () := by
  decide +kernel

end SuwappuDag.Execution
