/-
  WHO SITS AND WHO COUNTS, over whole runs of one node.

  1. **Program** — the committee of a node is a machine of its own: its state is `Committee`, its calls
     are the `Reshape`s, and whatever a node does, its committee is what its calls made of the genesis
     one (`committee_replay`).  A call does one of four things (`Reshape.Effect`): nothing, seat an
     authority with its stake parked, activate a parked one, or take a seat away.
  2. **Books** — `n_authorities` should be the number of seats whose stake is active, and these the
     keys of the stake table.  Activation INCREMENTS the number, removal OVERWRITES it with the number
     of ALL seats: the books survive a removal exactly if nobody else is parked
     (`Reshape.Effect.booked_iff`).
  3. **Indices** — leaders, parents and signers are looked for among `0 .. n_authorities - 1`.  A seat
     keeps its id, so a removal leaves a gap unless it takes the last one
     (`Reshape.Effect.indexed_iff`).
-/
import SuwappuDag.Lib.Runs
import SuwappuDag.Node.Governance

namespace SuwappuDag.Node

open Words Consensus Execution
open Std (ExtTreeMap)

/-! ## The committee is what its calls made of it -/

section Replay

variable {C : Crypto} {manifest : GenesisManifest}

theorem drainQueue_fst (networkId : List UInt8) : ∀ (queue : List (Intent × Option GovAuth))
    (committee : Committee), (drainQueue C networkId queue committee).1 =
      (queue.map fun q => Reshape.govern q.1 q.2).foldl (Reshape.apply C networkId) committee := by
  intro queue
  induction queue with
  | nil => exact fun _ => rfl
  | cons q queue ih => exact fun committee => ih _

/-- The committee of a node, from genesis. -/
def Reshaped (C : Crypto) (manifest : GenesisManifest) (s : State) : Prop :=
  s.networkId = manifest.networkId ∧
    s.committee = s.reshapes.foldl (Reshape.apply C manifest.networkId) (genesisCommittee manifest)

theorem reshaped_execute {s : State} (hs : Reshaped C manifest s) (h : CertHash) (cert : Certificate)
    (block : BlockPayload) : Reshaped C manifest (executeCert C s h cert block) := by
  unfold executeCert crossBoundary
  dsimp only
  split
  · refine ⟨hs.1, ?_⟩
    show (drainQueue C s.networkId _ s.committee).1 = _
    rw [List.foldl_append, ← hs.2, hs.1]
    exact drainQueue_fst _ _ _
  · exact hs

theorem reshaped_nodeInvariant :
    NodeInvariant C (fun _ => True) (fun _ => True) (Reshaped C manifest) where
  need h hs := hs
  execute hs _ _ _ := reshaped_execute hs _ _ _
  eject := by
    intro s hs
    refine ⟨hs.1, ?_⟩
    show s.detectedEquivocations.foldl (fun c proof => c.unseat proof.author) s.committee =
      (s.reshapes ++ s.detectedEquivocations.map fun proof => Reshape.eject proof.author).foldl _ _
    rw [List.foldl_append, ← hs.2, List.foldl_map]
    rfl
  insert := by
    intro s cert h dag hs _ _ _
    refine ⟨hs.1, ?_⟩
    show s.committee.promote cert.author = (s.reshapes ++ [Reshape.promote cert.author]).foldl _ _
    rw [List.foldl_append, ← hs.2]
    rfl
  buffer := by
    intro s cert missing hs _
    unfold bufferOrphan
    split
    · exact hs
    · exact hs
  waiting _ _ := trivial
  vote v hs := hs
  store hs _ := hs
  author timedOut signature hs := by
    unfold authorRound
    split
    · exact hs
    split
    · exact hs
    · exact hs
  accept intent limited nowMs hs := hs
  remember hash auth hs := hs

/-- **The committee machine**: a node's committee is a run of its calls, whatever the node did. -/
theorem committee_replay (selfId : AuthorityId) (actions : List Action) :
    (runActions C actions (State.new C manifest selfId)).committee =
      (runActions C actions (State.new C manifest selfId)).reshapes.foldl
        (Reshape.apply C manifest.networkId) (genesisCommittee manifest) :=
  (reshaped_nodeInvariant.run (P := Reshaped C manifest) ⟨rfl, rfl⟩ fun _ _ _ => trivial).2

end Replay

/-! ## What a call does -/

/-- The seated authority that a call takes out. -/
def Reshape.removes (C : Crypto) (networkId : List UInt8) (committee : Committee) :
    Reshape → Option AuthorityId
  | .promote _ => none
  | .govern intent auth =>
    if (auth.any fun envelope =>
        (verifyGovernedIntent C committee.authorityRegistry networkId intent envelope).isOk) then
      match intent with
      | .exitAuthority id => if id ∈ committee.authorityRegistry then some id else none
      | .ejectAuthority id _ => if id ∈ committee.authorityRegistry then some id else none
      | _ => none
    else none
  | .eject author => if author ∈ committee.authorityRegistry then some author else none

/-- The parked authority that a call activates. -/
def Reshape.activates (committee : Committee) : Reshape → Option AuthorityId
  | .promote author => if author ∈ committee.pendingStake then some author else none
  | _ => none

/-- The four things a call can do to a committee; the indices are what it removes and activates. -/
inductive Reshape.Effect (c : Committee) :
    Option AuthorityId → Option AuthorityId → Committee → Prop
  | idle : Effect c none none c
  | seats {id : AuthorityId} {stake : UInt64} {key : List UInt8} (hfree : id ∉ c.authorityRegistry)
      (hroom : c.authorityRegistry.size < authorityRingMax) :
      Effect c none none (c.seat (c.authorityRegistry.insert id ⟨id, stake, key⟩) id stake)
  | activates {author : AuthorityId} {stake : Stake} (hparked : c.pendingStake[author]? = some stake) :
      Effect c none (some author)
        { c with
          pendingStake := c.pendingStake.erase author
          nAuthorities := Committee.succSaturating c.nAuthorities
          stakeTable := c.stakeTable.insert author stake }
  | removes {id : AuthorityId} (hseated : id ∈ c.authorityRegistry) :
      Effect c (some id) none
        { stakeTable := c.stakeTable.erase id
          authorityRegistry := c.authorityRegistry.erase id
          validatorRegistry := c.validatorRegistry.erase id
          nAuthorities := UInt32.ofNat (c.authorityRegistry.erase id).size
          pendingStake := c.pendingStake.erase id }

section Effects

theorem Committee.unseat_effect (c : Committee) (id : AuthorityId) :
    Reshape.Effect c (if id ∈ c.authorityRegistry then some id else none) none (c.unseat id) := by
  unfold unseat
  split
  · next hseated => exact .removes hseated
  · exact .idle

theorem Committee.promote_effect (c : Committee) (author : AuthorityId) :
    Reshape.Effect c none (if author ∈ c.pendingStake then some author else none)
      (c.promote author) := by
  unfold promote
  cases hparked : c.pendingStake[author]? with
  | none =>
    have hout : author ∉ c.pendingStake := by
      rw [ExtTreeMap.mem_iff_isSome_getElem?, hparked]
      exact Bool.false_ne_true
    rw [if_neg hout]
    exact .idle
  | some stake =>
    have hin : author ∈ c.pendingStake := by
      rw [ExtTreeMap.mem_iff_isSome_getElem?, hparked]
      rfl
    rw [if_pos hin]
    exact .activates hparked

/-- **Every call** is one of the four. -/
theorem Reshape.effect (C : Crypto) (networkId : List UInt8) (c : Committee) (op : Reshape) :
    Effect c (op.removes C networkId c) (op.activates c) (op.apply C networkId c) := by
  cases op with
  | promote author => exact c.promote_effect author
  | eject author => exact c.unseat_effect author
  | govern intent auth =>
    show Effect c _ none (c.applyGovernanceIntent C networkId intent auth)
    unfold removes Committee.applyGovernanceIntent
    cases auth with
    | none => exact .idle
    | some envelope =>
      dsimp only [Option.any_some]
      by_cases hok : (verifyGovernedIntent C c.authorityRegistry networkId intent envelope).isOk = true
      · rw [if_pos hok]
        cases hverify : verifyGovernedIntent C c.authorityRegistry networkId intent envelope with
        | error text =>
          rw [hverify] at hok
          cases hok
        | ok _ =>
        cases intent with
        | admitAuthority id stake mldsa bls =>
          show Effect c none none (c.enact _)
          unfold Committee.enact
          dsimp only
          split
          · next registry hjoin =>
            obtain ⟨-, hroom, hfree, rfl⟩ := admitMember_eq_ok_iff.mp hjoin
            exact .seats hfree hroom
          · exact .idle
        | exitAuthority id => exact c.unseat_effect id
        | ejectAuthority id proofRef => exact c.unseat_effect id
        | _ => exact .idle
      · rw [if_neg hok]
        split
        · exact .idle
        · next hverify =>
          rw [hverify] at hok
          exact absurd rfl hok

end Effects

/-! ## What no run can break -/

/-- Only seats are parked, and there are no more than the ring holds. -/
structure Committee.Sound (c : Committee) : Prop where
  parked : ∀ id ∈ c.pendingStake, id ∈ c.authorityRegistry
  room : c.authorityRegistry.size ≤ authorityRingMax

theorem Reshape.Effect.sound {c c' : Committee} {r p : Option AuthorityId} (he : Effect c r p c')
    (hs : c.Sound) : c'.Sound := by
  cases he with
  | idle => exact hs
  | @seats id stake key hfree hroom =>
    refine ⟨fun k hk => ?_, ?_⟩
    · rcases ExtTreeMap.mem_insert.mp hk with heq | hk
      · exact ExtTreeMap.mem_insert.mpr (.inl heq)
      · exact ExtTreeMap.mem_insert.mpr (.inr (hs.parked k hk))
    · exact ExtTreeMap.size_insert_le.trans hroom
  | activates hparked =>
    exact ⟨fun k hk => hs.parked k (ExtTreeMap.mem_erase.mp hk).2, hs.room⟩
  | removes hseated =>
    refine ⟨fun k hk => ?_, ExtTreeMap.size_erase_le.trans hs.room⟩
    obtain ⟨hne, hk⟩ := ExtTreeMap.mem_erase.mp hk
    exact ExtTreeMap.mem_erase.mpr ⟨hne, hs.parked k hk⟩

/-! ## Genesis -/

/-- Every entry of the manifest gets its seat: distinct ids, stakes at the floor, room for all. -/
def GenesisManifest.Seatable (manifest : GenesisManifest) : Prop :=
  (manifest.validators.map (·.authorityId)).Nodup ∧
    (∀ v ∈ manifest.validators, authorityStakeThreshold ≤ v.authorityStakeSuwappu) ∧
    manifest.validators.length ≤ authorityRingMax

instance (manifest : GenesisManifest) : Decidable manifest.Seatable := by
  unfold GenesisManifest.Seatable
  infer_instance

section Genesis

theorem seatGenesis_authorityRegistry {c : Committee} {v : ManifestValidator}
    (hfree : v.authorityId ∉ c.authorityRegistry)
    (hfloor : authorityStakeThreshold ≤ v.authorityStakeSuwappu)
    (hroom : c.authorityRegistry.size < authorityRingMax) :
    (seatGenesis c v).authorityRegistry = c.authorityRegistry.insert v.authorityId
      ⟨v.authorityId, v.authorityStakeSuwappu, v.mldsaPublicKey⟩ := by
  have hjoin : c.authorityRegistry.tryAdmit
      ⟨v.authorityId, v.authorityStakeSuwappu, v.mldsaPublicKey⟩ = .ok _ :=
    admitMember_eq_ok_iff.mpr ⟨UInt64.not_lt.mpr hfloor, hroom, hfree, rfl⟩
  unfold seatGenesis
  dsimp only
  rw [hjoin]

/-- The entries are seated one after the other. -/
theorem foldl_seatGenesis : ∀ (vs : List ManifestValidator) (c : Committee),
    (vs.map (·.authorityId)).Nodup → (∀ v ∈ vs, v.authorityId ∉ c.authorityRegistry) →
    (∀ v ∈ vs, authorityStakeThreshold ≤ v.authorityStakeSuwappu) →
    c.authorityRegistry.size + vs.length ≤ authorityRingMax →
    (vs.foldl seatGenesis c).authorityRegistry.size = c.authorityRegistry.size + vs.length ∧
    (∀ id, id ∈ (vs.foldl seatGenesis c).authorityRegistry ↔
      id ∈ c.authorityRegistry ∨ id ∈ vs.map (·.authorityId)) ∧
    (∀ id, id ∈ (vs.foldl seatGenesis c).stakeTable ↔
      id ∈ c.stakeTable ∨ id ∈ vs.map (·.authorityId)) := by
  intro vs
  induction vs with
  | nil => intro c _ _ _ _; simp
  | cons v vs ih =>
    intro c hnodup hfree hfloor hroom
    rw [List.map_cons, List.nodup_cons] at hnodup
    rw [List.length_cons] at hroom
    obtain ⟨hfree₀, hfree⟩ := List.forall_mem_cons.mp hfree
    obtain ⟨hfloor₀, hfloor⟩ := List.forall_mem_cons.mp hfloor
    have hreg := seatGenesis_authorityRegistry hfree₀ hfloor₀ (by omega)
    have hstake : (seatGenesis c v).stakeTable =
      c.stakeTable.insert v.authorityId (BitVec.ofNat 128 v.validatorStakeSuwappu.toNat) := rfl
    have hsize : (seatGenesis c v).authorityRegistry.size = c.authorityRegistry.size + 1 := by
      rw [hreg, MapSum.size_insert_of_notMem hfree₀]
    obtain ⟨hcount, hseats, hstakes⟩ := ih (seatGenesis c v) hnodup.2 (by
        intro w hw hin
        rw [hreg, ExtTreeMap.mem_insert, compare_eq_iff_eq] at hin
        rcases hin with heq | hin
        · exact hnodup.1 (heq ▸ List.mem_map_of_mem hw)
        · exact hfree w hw hin) hfloor (by omega)
    rw [List.foldl_cons, List.length_cons]
    refine ⟨by omega, fun id => ?_, fun id => ?_⟩
    · rw [hseats, hreg, ExtTreeMap.mem_insert, compare_eq_iff_eq, List.map_cons, List.mem_cons]
      tauto
    · rw [hstakes, hstake, ExtTreeMap.mem_insert, compare_eq_iff_eq, List.map_cons, List.mem_cons]
      tauto

variable {manifest : GenesisManifest}

/-- Everybody in the manifest is seated, counted and staked; nobody is parked. -/
theorem GenesisManifest.Seatable.genesis (hm : manifest.Seatable) :
    (genesisCommittee manifest).authorityRegistry.size = manifest.validators.length ∧
    (∀ id, id ∈ (genesisCommittee manifest).authorityRegistry ↔
      id ∈ manifest.validators.map (·.authorityId)) ∧
    (∀ id, id ∈ (genesisCommittee manifest).stakeTable ↔
      id ∈ manifest.validators.map (·.authorityId)) := by
  obtain ⟨hcount, hseats, hstakes⟩ := foldl_seatGenesis manifest.validators ⟨∅, ∅, ∅, 0, ∅⟩ hm.1
    (fun v _ => ExtTreeMap.not_mem_empty) hm.2.1
    (by rw [ExtTreeMap.size_empty, Nat.zero_add]; exact hm.2.2)
  refine ⟨?_, fun id => ?_, fun id => ?_⟩
  · rw [ExtTreeMap.size_empty, Nat.zero_add] at hcount
    exact hcount
  · exact (hseats id).trans (or_iff_right ExtTreeMap.not_mem_empty)
  · exact (hstakes id).trans (or_iff_right ExtTreeMap.not_mem_empty)

theorem GenesisManifest.Seatable.toNat_nAuthorities (hm : manifest.Seatable) :
    (genesisCommittee manifest).nAuthorities.toNat = manifest.validators.length := by
  have hlen := hm.2.2
  unfold authorityRingMax at hlen
  exact UInt32.toNat_ofNat_of_lt' (show _ < 2 ^ 32 by omega)

theorem GenesisManifest.Seatable.sound (hm : manifest.Seatable) :
    (genesisCommittee manifest).Sound := by
  refine ⟨fun id hid => ?_, hm.genesis.1.trans_le hm.2.2⟩
  rw [genesisCommittee_pendingStake] at hid
  exact absurd hid ExtTreeMap.not_mem_empty

end Genesis

/-! ## The books -/

/-- The size counts the seats that are not parked, and these are the ones with stake. -/
structure Committee.Booked (c : Committee) : Prop where
  counted : c.nAuthorities.toNat = c.authorityRegistry.size -
    ((MapSum.keySet c.authorityRegistry).filter (· ∈ c.pendingStake)).card
  staked : ∀ id, id ∈ c.stakeTable ↔ id ∈ c.authorityRegistry ∧ id ∉ c.pendingStake

/-- A call that removes somebody finds nobody else parked. -/
def RemovesUnparked (C : Crypto) (networkId : List UInt8) (c : Committee) (op : Reshape) : Prop :=
  ∀ id ∈ op.removes C networkId c, ∀ k ∈ c.pendingStake.keys, k = id

instance (C : Crypto) (networkId : List UInt8) (c : Committee) (op : Reshape) :
    Decidable (RemovesUnparked C networkId c op) :=
  @Option.decidableForallMem _ _ (fun _ => List.decidableBAll _ _) (op.removes C networkId c)

section Books

variable {c c' : Committee} {r p : Option AuthorityId}

/-- With every parked authority seated, the count needs no subtraction. -/
theorem Committee.Sound.counted_iff (hs : c.Sound) :
    c.nAuthorities.toNat = c.authorityRegistry.size -
        ((MapSum.keySet c.authorityRegistry).filter (· ∈ c.pendingStake)).card ↔
      c.nAuthorities.toNat + c.pendingStake.size = c.authorityRegistry.size := by
  have hparked : (MapSum.keySet c.authorityRegistry).filter (· ∈ c.pendingStake) =
      MapSum.keySet c.pendingStake := by
    ext id
    rw [Finset.mem_filter, MapSum.mem_keySet, MapSum.mem_keySet]
    exact and_iff_right_of_imp (hs.parked id)
  have hle : c.pendingStake.size ≤ c.authorityRegistry.size := by
    rw [← MapSum.card_keySet, ← MapSum.card_keySet, ← hparked]
    exact Finset.card_filter_le _ _
  rw [hparked, MapSum.card_keySet]
  omega

theorem toNat_succSaturating {n : UInt32} (hn : n.toNat < 2 ^ 32 - 1) :
    (Committee.succSaturating n).toNat = n.toNat + 1 := by
  have hne : n ≠ UInt32.ofNat (2 ^ 32 - 1) := by
    rintro rfl
    exact absurd hn (by decide)
  rw [Committee.succSaturating, if_neg hne, UInt32.toNat_add]
  exact Nat.mod_eq_of_lt (show n.toNat + 1 < 2 ^ 32 by omega)

/-- The number of seats fits its type. -/
theorem Committee.Sound.toNat_size (hs : c.Sound) :
    (UInt32.ofNat c.authorityRegistry.size).toNat = c.authorityRegistry.size := by
  have hroom := hs.room
  unfold authorityRingMax at hroom
  exact UInt32.toNat_ofNat_of_lt' (show _ < 2 ^ 32 by omega)

/-- **The books survive a call** exactly if it removes nobody while another one is parked. -/
theorem Reshape.Effect.booked_iff (he : Effect c r p c') (hs : c.Sound) (hb : c.Booked) :
    c'.Booked ↔ ∀ id ∈ r, ∀ k ∈ c.pendingStake.keys, k = id := by
  have hcounted := hs.counted_iff.mp hb.counted
  have hs' := he.sound hs
  have hroom := hs.room
  unfold authorityRingMax at hroom
  cases he with
  | idle => exact iff_of_true hb (fun id hid => by cases hid)
  | @seats id stake key hfree hroom' =>
    have hunparked : id ∉ c.pendingStake := fun hin => hfree (hs.parked id hin)
    refine iff_of_true ⟨hs'.counted_iff.mpr ?_, fun k => ?_⟩ (fun id hid => by cases hid)
    · show c.nAuthorities.toNat + (c.pendingStake.insert id _).size =
        (c.authorityRegistry.insert id _).size
      rw [MapSum.size_insert_of_notMem hunparked, MapSum.size_insert_of_notMem hfree]
      omega
    · show k ∈ c.stakeTable ↔ k ∈ c.authorityRegistry.insert id _ ∧ k ∉ c.pendingStake.insert id _
      rw [hb.staked, ExtTreeMap.mem_insert, ExtTreeMap.mem_insert, compare_eq_iff_eq]
      constructor
      · rintro ⟨hin, hout⟩
        refine ⟨.inr hin, ?_⟩
        rintro (rfl | hin')
        · exact hfree hin
        · exact hout hin'
      · rintro ⟨heq | hin, hout⟩
        · exact absurd (.inl heq) hout
        · exact ⟨hin, fun hin' => hout (.inr hin')⟩
  | @activates author stake hparked =>
    have hin : author ∈ c.pendingStake := by
      rw [ExtTreeMap.mem_iff_isSome_getElem?, hparked]
      rfl
    have hsize := MapSum.size_erase_of_mem hin
    refine iff_of_true ⟨hs'.counted_iff.mpr ?_, fun k => ?_⟩ (fun id hid => by cases hid)
    · show (Committee.succSaturating c.nAuthorities).toNat + (c.pendingStake.erase author).size =
        c.authorityRegistry.size
      rw [toNat_succSaturating (by omega)]
      omega
    · show k ∈ c.stakeTable.insert author stake ↔
        k ∈ c.authorityRegistry ∧ k ∉ c.pendingStake.erase author
      rw [ExtTreeMap.mem_insert, ExtTreeMap.mem_erase, hb.staked, compare_eq_iff_eq]
      by_cases hk : author = k
      · subst hk
        simp [hs.parked _ hin]
      · simp [hk]
  | @removes id hseated =>
    have hnew := hs'.toNat_size
    have hnew : (UInt32.ofNat (c.authorityRegistry.erase id).size).toNat =
      (c.authorityRegistry.erase id).size := hnew
    constructor
    · -- the number counts all seats, so nobody may be parked
      intro hb' id' hid' k hk
      cases hid'
      by_contra hne
      have hcounted' := hs'.counted_iff.mp hb'.counted
      have hcounted' : (UInt32.ofNat (c.authorityRegistry.erase id).size).toNat +
        (c.pendingStake.erase id).size = (c.authorityRegistry.erase id).size := hcounted'
      have hnone : (c.pendingStake.erase id).size = 0 := by omega
      refine MapSum.size_eq_zero_iff.mp hnone k (ExtTreeMap.mem_erase.mpr ⟨?_, ?_⟩)
      · exact fun heq => hne (compare_eq_iff_eq.mp heq).symm
      · exact ExtTreeMap.mem_keys.mp hk
    · intro halone
      have hparked : ∀ k, k ∉ c.pendingStake.erase id := by
        intro k hk
        obtain ⟨hne, hk⟩ := ExtTreeMap.mem_erase.mp hk
        exact hne (compare_eq_iff_eq.mpr (halone id rfl k (ExtTreeMap.mem_keys.mpr hk)).symm)
      have hnone := MapSum.size_eq_zero_iff.mpr hparked
      refine ⟨hs'.counted_iff.mpr ?_, fun k => ?_⟩
      · show (UInt32.ofNat (c.authorityRegistry.erase id).size).toNat +
          (c.pendingStake.erase id).size = (c.authorityRegistry.erase id).size
        omega
      · show k ∈ c.stakeTable.erase id ↔
          k ∈ c.authorityRegistry.erase id ∧ k ∉ c.pendingStake.erase id
        rw [ExtTreeMap.mem_erase, ExtTreeMap.mem_erase, hb.staked]
        constructor
        · rintro ⟨hne, hin, -⟩
          exact ⟨⟨hne, hin⟩, hparked k⟩
        · rintro ⟨⟨hne, hin⟩, hout⟩
          exact ⟨hne, hin, fun hin' => hout (ExtTreeMap.mem_erase.mpr ⟨hne, hin'⟩)⟩

theorem GenesisManifest.Seatable.booked {manifest : GenesisManifest} (hm : manifest.Seatable) :
    (genesisCommittee manifest).Booked := by
  refine ⟨hm.sound.counted_iff.mpr ?_, fun id => ?_⟩
  · rw [hm.toNat_nAuthorities, genesisCommittee_pendingStake, ExtTreeMap.size_empty, Nat.add_zero]
    exact hm.genesis.1.symm
  · rw [hm.genesis.2.1, hm.genesis.2.2, genesisCommittee_pendingStake]
    exact (and_iff_left ExtTreeMap.not_mem_empty).symm

end Books

/-- **The books balance** in every run of a node from a manifest that is seated whole, as long as
    nobody is removed while somebody else is parked. -/
theorem committee_booked {C : Crypto} {manifest : GenesisManifest} {selfId : AuthorityId}
    {actions : List Action} (hgenesis : manifest.Seatable)
    (hcalls : Runs.Along (Reshape.apply C manifest.networkId) (RemovesUnparked C manifest.networkId)
      (runActions C actions (State.new C manifest selfId)).reshapes (genesisCommittee manifest)) :
    (runActions C actions (State.new C manifest selfId)).committee.Booked := by
  rw [committee_replay]
  refine (Runs.Along.invariant (I := fun c => c.Sound ∧ c.Booked) ?_
    ⟨hgenesis.sound, hgenesis.booked⟩ hcalls).2
  rintro c op ⟨hs, hb⟩ hop
  have heffect := Reshape.effect C manifest.networkId c op
  exact ⟨heffect.sound hs, (heffect.booked_iff hs hb).mpr hop⟩

/-! ## A removal while an admission is under way

    Authorities 0 and 1 admit authority 7; two rounds later the boundary is crossed and its stake is
    parked.  Before its first certificate arrives, authority 1 shows a second certificate of round 0. -/

def admission : Intent := .admitAuthority 7 100000 (briefKey 7) []

/-- Authority 0's first certificate commits to the admission. -/
def admit0 : CertHash × Certificate :=
  (0xe8982234333e2dd374d0cc74d355805ef2afd8c6bc6605bf053621edae4837b3#256,
    ⟨0, 0, [], 0x85729439141f732e249f09e4b6d0576e90818b167059c5f8623de800890a35b1#256, []⟩)

def admitA1 : CertHash × Certificate :=
  (0x819de5a65583b2bda6368f194c2f65e447387f436bbf4ad64d5aaec36fa93318#256,
    ⟨0, 1, [admit0.1, root1.1], emptyPayload, []⟩)

def admitB1 : CertHash × Certificate :=
  (0x374fcbec87ae38fb76bafb436020ba47e76b2dd46951fdcb70263e8f59153ccf#256,
    ⟨1, 1, [admit0.1, root1.1], emptyPayload, []⟩)

def admitA2 : CertHash × Certificate :=
  (0xbdf812997a685102657b0066e685aea8ca28842dfdf100fecbd8299285f9ecae#256,
    ⟨0, 2, [admitA1.1, admitB1.1], emptyPayload, []⟩)

def admitB2 : CertHash × Certificate :=
  (0xe7521c9c87a70d89541ffcee93010427a06ee19309e52194a9f7291bccf8d4f1#256,
    ⟨1, 2, [admitA1.1, admitB1.1], emptyPayload, []⟩)

/-- Authority 1's second certificate of round 0. -/
def otherRoot1 : CertHash × Certificate :=
  (0x640461edf9c089c40e56cade692d2d95d88446d950816b2684c218ce3bcc0b04#256,
    ⟨1, 0, [], 0, []⟩)

/-- The certificates of three rounds, the blocks of the committed ones, and authority 1's votes. -/
def admissionRun : List Action :=
  [.cert (briefSigned admit0), .cert (briefSigned root1), .cert (briefSigned admitA1),
    .cert (briefSigned admitB1), .cert (briefSigned admitA2), .cert (briefSigned admitB2),
    .block ⟨admit0.2.payloadDigest, 0, 0, admit0.1, [admission], [(0, briefEnvelope 7 admission)]⟩,
    .block (emptyBlock root1), .block (emptyBlock admitB1),
    .vote ⟨1, admit0.1⟩, .vote ⟨1, admitB1.1⟩].map (.receive false)

/-- An observer that has received these certificates. -/
def observe (certs : List (CertHash × Certificate)) : State :=
  runActions briefScheme (certs.map fun p => .receive false (.cert (briefSigned p)))
    (State.new briefScheme briefManifest 5)

/-- **Two seats, one of them parked, and a size of two.** -/
theorem removal_counts_parked_seat :
    briefManifest.Seatable ∧
    (runActions briefScheme (admissionRun ++ [.receive false (.cert (briefSigned otherRoot1))])
      (State.new briefScheme briefManifest 5)).committee.authorityRegistry.keys = [0, 7] ∧
    (runActions briefScheme (admissionRun ++ [.receive false (.cert (briefSigned otherRoot1))])
      (State.new briefScheme briefManifest 5)).committee.pendingStake.keys = [7] ∧
    (runActions briefScheme (admissionRun ++ [.receive false (.cert (briefSigned otherRoot1))])
      (State.new briefScheme briefManifest 5)).committee.nAuthorities = 2 ∧
    ¬ (runActions briefScheme (admissionRun ++ [.receive false (.cert (briefSigned otherRoot1))])
      (State.new briefScheme briefManifest 5)).committee.Booked := by
  have hrun : briefManifest.Seatable ∧
      (runActions briefScheme (admissionRun ++ [.receive false (.cert (briefSigned otherRoot1))])
        (State.new briefScheme briefManifest 5)).committee.authorityRegistry.keys = [0, 7] ∧
      (runActions briefScheme (admissionRun ++ [.receive false (.cert (briefSigned otherRoot1))])
        (State.new briefScheme briefManifest 5)).committee.pendingStake.keys = [7] ∧
      (runActions briefScheme (admissionRun ++ [.receive false (.cert (briefSigned otherRoot1))])
        (State.new briefScheme briefManifest 5)).committee.nAuthorities = 2 := by
    decide +kernel
  obtain ⟨hgenesis, hseats, hparked, hsize⟩ := hrun
  refine ⟨hgenesis, hseats, hparked, hsize, fun hb => ?_⟩
  have hcounted := hb.counted
  rw [hsize, ← ExtTreeMap.length_keys, hseats, MapSum.keySet, hseats] at hcounted
  have hseven : (7 : AuthorityId) ∈ ([0, 7] : List AuthorityId).toFinset.filter (· ∈ (runActions
      briefScheme (admissionRun ++ [.receive false (.cert (briefSigned otherRoot1))])
      (State.new briefScheme briefManifest 5)).committee.pendingStake) := by
    refine Finset.mem_filter.mpr ⟨by decide, ExtTreeMap.mem_keys.mp ?_⟩
    rw [hparked]
    exact List.mem_singleton_self _
  have hpos := Finset.card_pos.mpr ⟨_, hseven⟩
  have htwo : (2 : UInt32).toNat = 2 := rfl
  rw [List.length_cons, List.length_singleton] at hcounted
  omega

/-- Authority 1 is removed with nobody parked. -/
theorem committee_booked_observed :
    (observe [root1, otherRoot1]).committee.authorityRegistry.keys = [0] ∧
      (observe [root1, otherRoot1]).committee.Booked :=
  ⟨by decide +kernel, committee_booked (by decide +kernel) (by decide +kernel)⟩

/-! ## The indices -/

/-- Every leader is seated, and every seat with active stake has an index. -/
def Committee.Indexed (c : Committee) : Prop :=
  (∀ round, leader round c.nAuthorities ∈ c.authorityRegistry) ∧
    ∀ id ∈ c.authorityRegistry, id ∉ c.pendingStake → id < c.nAuthorities

/-- A removal leaves somebody, and the ids of those who stay have no gap below the new size; an
    activation comes at an index that the new size covers, and the last index is seated. -/
def KeepsIndices (C : Crypto) (networkId : List UInt8) (c : Committee) (op : Reshape) : Prop :=
  (∀ id ∈ op.removes C networkId c, 1 < c.authorityRegistry.size ∧
    ∀ k ∈ c.authorityRegistry.keys, k ≠ id → k.toNat + 1 < c.authorityRegistry.size) ∧
  ∀ author ∈ op.activates c, author ≤ c.nAuthorities ∧ c.nAuthorities ∈ c.authorityRegistry

instance (C : Crypto) (networkId : List UInt8) (c : Committee) (op : Reshape) :
    Decidable (KeepsIndices C networkId c op) :=
  @instDecidableAnd _ _
    (@Option.decidableForallMem _ _ (fun _ => @instDecidableAnd _ _ _ (List.decidableBAll _ _))
      (op.removes C networkId c))
    (Option.decidableForallMem (op.activates c))

section Indices

variable {c c' : Committee} {r p : Option AuthorityId} {n : CommitteeSize}

theorem toNat_leader (hn : 0 < n) (round : Round) :
    (leader round n).toNat = round.toNat % n.toNat := by
  have hpos : 0 < n.toNat := UInt32.lt_iff_toNat_lt.mp hn
  have hlt : round.toNat % n.toNat < 2 ^ 32 := (Nat.mod_lt _ hpos).trans n.toNat_lt
  rw [leader, UInt64.toNat_toUInt32, UInt64.toNat_mod, UInt32.toNat_toUInt64]
  exact Nat.mod_eq_of_lt hlt

/-- The leaders are the ids below `n`, each of them at some round. -/
theorem forall_leader_iff (hn : 0 < n) {S : AuthorityId → Prop} :
    (∀ round, S (leader round n)) ↔ ∀ id < n, S id := by
  have hpos : 0 < n.toNat := UInt32.lt_iff_toNat_lt.mp hn
  constructor
  · intro hall id hid
    have hleader : leader id.toUInt64 n = id := by
      rw [← UInt32.toNat_inj, toNat_leader hn, UInt32.toNat_toUInt64]
      exact Nat.mod_eq_of_lt (UInt32.lt_iff_toNat_lt.mp hid)
    rw [← hleader]
    exact hall _
  · intro hall round
    refine hall _ (UInt32.lt_iff_toNat_lt.mpr ?_)
    rw [toNat_leader hn]
    exact Nat.mod_lt _ hpos

/-- Indices that are all seated are not more than there are seats. -/
theorem Committee.Sound.toNat_le_of_seated (hs : c.Sound) (hall : ∀ id < n, id ∈ c.authorityRegistry) :
    n.toNat ≤ authorityRingMax := by
  have hsub : Consensus.committee n ⊆ MapSum.keySet c.authorityRegistry := fun id hid =>
    MapSum.mem_keySet.mpr (hall id (mem_committee.mp hid))
  have hcard := Finset.card_le_card hsub
  rw [card_committee, MapSum.card_keySet] at hcard
  exact hcard.trans hs.room

/-- **Pigeonhole**: the seats are the indices `0 .. n-1` as soon as there are `n` and either side is
    in the other. -/
theorem seated_iff_lt {registry : AuthorityRegistry} (hsize : registry.size = n.toNat) :
    (∀ id < n, id ∈ registry) ↔ ∀ id ∈ registry, id < n := by
  have hcard : (MapSum.keySet registry).card = (Consensus.committee n).card := by
    rw [MapSum.card_keySet, card_committee, hsize]
  constructor
  · intro hall id hid
    have hsub : Consensus.committee n ⊆ MapSum.keySet registry := fun k hk =>
      MapSum.mem_keySet.mpr (hall k (mem_committee.mp hk))
    have hsame := Finset.eq_of_subset_of_card_le hsub hcard.le
    exact mem_committee.mp (hsame ▸ MapSum.mem_keySet.mpr hid)
  · intro hall id hid
    have hsub : MapSum.keySet registry ⊆ Consensus.committee n := fun k hk =>
      mem_committee.mpr (hall k (MapSum.mem_keySet.mp hk))
    have hsame := Finset.eq_of_subset_of_card_le hsub hcard.ge
    exact MapSum.mem_keySet.mp (hsame ▸ mem_committee.mpr hid)

/-- A committee whose size is the number of its seats is indexed iff these have no gap. -/
theorem Committee.indexed_iff_of_size (hsize : c.nAuthorities.toNat = c.authorityRegistry.size) :
    c.Indexed ↔ 0 < c.authorityRegistry.size ∧
      ∀ k ∈ c.authorityRegistry, k.toNat < c.authorityRegistry.size := by
  by_cases hn : 0 < c.nAuthorities
  · have hpos := UInt32.lt_iff_toNat_lt.mp hn
    rw [Indexed, forall_leader_iff (S := (· ∈ c.authorityRegistry)) hn, seated_iff_lt hsize.symm]
    constructor
    · rintro ⟨hall, -⟩
      refine ⟨hsize ▸ hpos, fun k hk => hsize ▸ UInt32.lt_iff_toNat_lt.mp (hall k hk)⟩
    · rintro ⟨-, hall⟩
      have hlt : ∀ k ∈ c.authorityRegistry, k < c.nAuthorities := fun k hk =>
        UInt32.lt_iff_toNat_lt.mpr (hsize ▸ hall k hk)
      exact ⟨hlt, fun k hk _ => hlt k hk⟩
  · -- nobody is seated, so no leader is
    have hzero : c.authorityRegistry.size = 0 := by
      rw [← hsize]
      exact Nat.eq_zero_of_not_pos fun h => hn (UInt32.lt_iff_toNat_lt.mpr h)
    refine iff_of_false (fun hi => ?_) (fun h => absurd h.1 (by omega))
    exact MapSum.size_eq_zero_iff.mp hzero _ (hi.1 0)

/-- **The indices survive a call** exactly if it keeps them. -/
theorem Reshape.Effect.indexed_iff (he : Effect c r p c') (hs : c.Sound) (hi : c.Indexed) :
    c'.Indexed ↔
      (∀ id ∈ r, 1 < c.authorityRegistry.size ∧
        ∀ k ∈ c.authorityRegistry.keys, k ≠ id → k.toNat + 1 < c.authorityRegistry.size) ∧
      ∀ author ∈ p, author ≤ c.nAuthorities ∧ c.nAuthorities ∈ c.authorityRegistry := by
  have hs' := he.sound hs
  cases he with
  | idle => exact iff_of_true hi ⟨fun id hid => (by cases hid), fun a ha => (by cases ha)⟩
  | @seats id stake key hfree hroom =>
    refine iff_of_true ⟨fun round => ?_, fun k hk hout => ?_⟩
      ⟨fun id hid => (by cases hid), fun a ha => (by cases ha)⟩
    · exact ExtTreeMap.mem_insert.mpr (.inr (hi.1 round))
    · -- the new seat is parked
      have hout : k ∉ c.pendingStake.insert id _ := hout
      rw [ExtTreeMap.mem_insert, not_or] at hout
      rcases ExtTreeMap.mem_insert.mp hk with heq | hk
      · exact absurd heq hout.1
      · exact hi.2 k hk hout.2
  | @activates author stake hparked =>
    have hin : author ∈ c.pendingStake := by
      rw [ExtTreeMap.mem_iff_isSome_getElem?, hparked]
      rfl
    have hall : ∀ id < c.nAuthorities, id ∈ c.authorityRegistry := by
      intro id hid
      have hn : 0 < c.nAuthorities := UInt32.lt_iff_toNat_lt.mpr
        (Nat.zero_lt_of_lt (UInt32.lt_iff_toNat_lt.mp hid))
      exact (forall_leader_iff (S := (· ∈ c.authorityRegistry)) hn).mp hi.1 id hid
    have hbound := hs.toNat_le_of_seated hall
    unfold authorityRingMax at hbound
    have hsucc := toNat_succSaturating (n := c.nAuthorities) (by omega)
    have hlt : ∀ id, id < Committee.succSaturating c.nAuthorities ↔ id ≤ c.nAuthorities := by
      intro id
      rw [UInt32.lt_iff_toNat_lt, UInt32.le_iff_toNat_le, hsucc]
      omega
    have hpos : 0 < Committee.succSaturating c.nAuthorities := by
      rw [UInt32.lt_iff_toNat_lt, hsucc]
      exact Nat.succ_pos _
    constructor
    · intro hi'
      have hseats := (forall_leader_iff (S := (· ∈ c.authorityRegistry)) hpos).mp hi'.1
      refine ⟨fun id hid => (by cases hid), fun a ha => ?_⟩
      cases ha
      refine ⟨(hlt _).mp (hi'.2 author (hs.parked author hin) fun hout => ?_), hseats _ ?_⟩
      · exact (ExtTreeMap.mem_erase.mp hout).1 (compare_eq_iff_eq.mpr rfl)
      · exact (hlt _).mpr (UInt32.le_refl _)
    · rintro ⟨-, hactive⟩
      obtain ⟨hle, hseated⟩ := hactive author rfl
      refine ⟨(forall_leader_iff (S := (· ∈ c.authorityRegistry)) hpos).mpr fun id hid => ?_,
        fun k hk hout => (hlt k).mpr ?_⟩
      · rcases UInt32.le_iff_lt_or_eq.mp ((hlt id).mp hid) with hid | rfl
        · exact hall id hid
        · exact hseated
      · by_cases hka : author = k
        · exact hka ▸ hle
        · refine UInt32.le_of_lt (hi.2 k hk fun hin' => hout ?_)
          exact ExtTreeMap.mem_erase.mpr ⟨fun heq => hka (compare_eq_iff_eq.mp heq), hin'⟩
  | @removes id hseated =>
    have hsize := MapSum.size_erase_of_mem hseated
    rw [Committee.indexed_iff_of_size hs'.toNat_size]
    show 0 < (c.authorityRegistry.erase id).size ∧ (∀ k ∈ c.authorityRegistry.erase id,
      k.toNat < (c.authorityRegistry.erase id).size) ↔ _
    constructor
    · rintro ⟨hpos, hall⟩
      refine ⟨fun id' hid' => ?_, fun a ha => (by cases ha)⟩
      cases hid'
      refine ⟨by omega, fun k hk hne => ?_⟩
      have hk := hall k (ExtTreeMap.mem_erase.mpr
        ⟨fun heq => hne (compare_eq_iff_eq.mp heq).symm, ExtTreeMap.mem_keys.mp hk⟩)
      omega
    · rintro ⟨hremoves, -⟩
      obtain ⟨hpos, hall⟩ := hremoves id rfl
      refine ⟨by omega, fun k hk => ?_⟩
      obtain ⟨hne, hk⟩ := ExtTreeMap.mem_erase.mp hk
      have hk := hall k (ExtTreeMap.mem_keys.mpr hk) fun heq => hne (compare_eq_iff_eq.mpr heq.symm)
      omega

end Indices

/-- **Committee indices denote seated authorities** in every run of a node from a manifest of the ids
    `0 .. n-1`, seated whole, whose calls keep the indices. -/
theorem committee_indexed {C : Crypto} {manifest : GenesisManifest} {selfId : AuthorityId}
    {actions : List Action}
    (hids : ∀ v ∈ manifest.validators, v.authorityId.toNat < manifest.validators.length)
    (hgenesis : manifest.Seatable) (hsome : manifest.validators ≠ [])
    (hcalls : Runs.Along (Reshape.apply C manifest.networkId) (KeepsIndices C manifest.networkId)
      (runActions C actions (State.new C manifest selfId)).reshapes (genesisCommittee manifest)) :
    (runActions C actions (State.new C manifest selfId)).committee.Indexed := by
  have hsize := hgenesis.genesis.1
  have hstart : (genesisCommittee manifest).Indexed := by
    refine (Committee.indexed_iff_of_size (hgenesis.toNat_nAuthorities.trans hsize.symm)).mpr ?_
    rw [hsize]
    refine ⟨List.length_pos_iff.mpr hsome, fun k hk => ?_⟩
    obtain ⟨v, hv, rfl⟩ := List.mem_map.mp ((hgenesis.genesis.2.1 k).mp hk)
    exact hids v hv
  rw [committee_replay]
  refine (Runs.Along.invariant (I := fun c => c.Sound ∧ c.Indexed) ?_
    ⟨hgenesis.sound, hstart⟩ hcalls).2
  rintro c op ⟨hs, hi⟩ hop
  have heffect := Reshape.effect C manifest.networkId c op
  exact ⟨heffect.sound hs, (heffect.indexed_iff hs hi).mpr hop⟩

/-- **A removal shifts nobody**: with authority 0 gone there is one seat, authority 1, and the one
    index is 0. -/
theorem removal_leaves_gap :
    (∀ v ∈ briefManifest.validators, v.authorityId.toNat < briefManifest.validators.length) ∧
    briefManifest.Seatable ∧
    (observe [root0, admit0]).committee.nAuthorities = 1 ∧
    leader 0 1 ∉ (observe [root0, admit0]).committee.authorityRegistry ∧
    1 ∈ (observe [root0, admit0]).committee.authorityRegistry ∧
    1 ∉ (observe [root0, admit0]).committee.pendingStake := by
  decide +kernel

/-- With authority 1 gone the indices are those of the seats. -/
theorem committee_indexed_observed :
    (observe [root1, otherRoot1]).committee.nAuthorities = 1 ∧
      (observe [root1, otherRoot1]).committee.Indexed :=
  ⟨by decide +kernel, committee_indexed (by decide +kernel) (by decide +kernel)
    (List.cons_ne_nil _ _) (by decide +kernel)⟩

end SuwappuDag.Node
