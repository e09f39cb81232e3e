/-
  BRIDGE HEADERS (`suwappu-consensus/src/bridge_header.rs`, `suwappu-node/src/rpc_adapter.rs`).

  On request a node signs the header of its LATEST executed block: the round as block number, and the
  state root.  `header_attestation` reads the header under one lock, looks into its cache under
  another, signs under none and fills the cache; the other tasks move in between, and so do other
  calls.  Every executed certificate overwrites the latest header, and many share a round.

  1. **The call (`AttestPc`)** — beside the tasks of `Node/Tasks`, with the attestations signed so far
     as a history.
  2. **Headers in play (`shown`)** — those signed, and those that a call has read and not signed yet.
     A call adds the latest header at most.
  3. **The latest header (`latest_step`)** — moves forward if every block is executed at a later round
     than the one before it, or at the same round and empty (`AdvancesHeader`).
  4. **Every schedule (`bridge_headers_consistent`)** — then signed headers never conflict; and if no
     call reads the latest header while another has one in hand, block numbers never go back.  Both
     conditions are needed (`conflicting_headers_signed`).
-/
import SuwappuDag.Node.Indices

namespace SuwappuDag.Node

open Words Consensus Execution Interleave Reserved

/-! ## Attestations -/

/-- `keccak256("SUWAPPU_DAG_HEADER_V1")`. -/
def headerDomain : List UInt8 :=
  [0x7b, 0xea, 0x45, 0x3e, 0xa9, 0xa9, 0x2b, 0xb4, 0x6a, 0x6a, 0x6e, 0xcb, 0xcb, 0xa6, 0x70, 0xfd,
    0x52, 0xd3, 0x84, 0x88, 0x65, 0x7c, 0x9a, 0x93, 0x73, 0x78, 0x6e, 0xcb, 0x2b, 0x5c, 0x35, 0xf0]

def headerPreimage (networkId : Bytes32) (oracle : Address) (blockNumber : UInt64)
    (stateRoot : Bytes32) : List UInt8 :=
  headerDomain ++ beBytes 32 networkId.toNat ++ beBytes 20 oracle.toNat ++
    beBytes 32 blockNumber.toNat ++ beBytes 32 stateRoot.toNat

def headerDigest (blake3 : List UInt8 → Bytes32) (networkId : Bytes32) (oracle : Address)
    (blockNumber : UInt64) (stateRoot : Bytes32) : Bytes32 :=
  blake3 (headerPreimage networkId oracle blockNumber stateRoot)

structure BridgeHeaderSigner where
  authorityId : AuthorityId
  networkId : Bytes32
  oracle : Address
  pubkey : List UInt8
  /-- What the secret key makes of a digest, with these coins. -/
  signHeader : List UInt8 → Bytes32 → List UInt8

structure HeaderAttestation where
  blockNumber : UInt64
  stateRoot : Bytes32
  authorityId : AuthorityId
  pubkey : List UInt8
  signature : List UInt8
deriving DecidableEq

/-- A block number and a state root. -/
abbrev Header := UInt64 × Bytes32

def HeaderAttestation.header (att : HeaderAttestation) : Header := (att.blockNumber, att.stateRoot)

def HeaderAttestation.create (blake3 : List UInt8 → Bytes32) (signer : BridgeHeaderSigner)
    (coins : List UInt8) (header : Header) : HeaderAttestation where
  blockNumber := header.1
  stateRoot := header.2
  authorityId := signer.authorityId
  pubkey := signer.pubkey
  signature := signer.signHeader coins
    (headerDigest blake3 signer.networkId signer.oracle header.1 header.2)

/-! ## `header_attestation` -/

/-- What the calls share with the tasks of the node, and the attestations signed, oldest first. -/
structure BridgeState where
  node : State
  attestationCache : Option HeaderAttestation
  signed : List HeaderAttestation

/-- The local variables of a call. -/
structure Attesting where
  signer : BridgeHeaderSigner
  coins : List UInt8

inductive AttestPc where
  | idle
  | read (a : Attesting)
  | lookup (a : Attesting) (header : Header)
  | sign (a : Attesting) (header : Header)
  | store (att : HeaderAttestation)

/-- A task of the node, or a client that calls `header_attestation`, with the coins of the calls to
    come and the answers so far. -/
inductive BridgeTask where
  | node (task : Task)
  | rpc (calls : List (List UInt8)) (answers : List (Option HeaderAttestation)) (pc : AttestPc)

section Program

variable (C : Crypto) (signer : Option BridgeHeaderSigner)

def BridgeTask.step (task : BridgeTask) (b : BridgeState) : BridgeTask × BridgeState :=
  match task with
  | .node task => (.node (task.step C b.node).1, { b with node := (task.step C b.node).2 })
  | .rpc calls answers pc =>
    match pc with
    | .idle =>
      match calls with
      | [] => (.rpc [] answers .idle, b)
      | coins :: calls =>
        match signer with
        | none => (.rpc calls (answers ++ [none]) .idle, b)
        | some signer => (.rpc calls answers (.read ⟨signer, coins⟩), b)
    | .read a =>
      match b.node.latestBridgeHeader with
      | none => (.rpc calls (answers ++ [none]) .idle, b)
      | some header => (.rpc calls answers (.lookup a header), b)
    -- the cache answers for this very header only
    | .lookup a header =>
      match b.attestationCache.filter fun att => att.header = header with
      | some att => (.rpc calls (answers ++ [some att]) .idle, b)
      | none => (.rpc calls answers (.sign a header), b)
    -- under no lock
    | .sign a header =>
      let att := HeaderAttestation.create C.blake3 a.signer a.coins header
      (.rpc calls answers (.store att), { b with signed := b.signed ++ [att] })
    | .store att =>
      (.rpc calls (answers ++ [some att]) .idle, { b with attestationCache := some att })

end Program

/-- Before the first message and the first call. -/
def BridgeTask.idle : BridgeTask → Bool
  | .node task => task.idle
  | .rpc _ [] .idle => true
  | _ => false

/-- A node with its callers, before anything has arrived. -/
def bridgeStarted (C : Crypto) (manifest : GenesisManifest) (selfId : AuthorityId)
    (tasks : List BridgeTask) : Machine BridgeState BridgeTask :=
  ⟨⟨State.new C manifest selfId, none, []⟩, tasks⟩

/-! ## Headers in play -/

/-- The header that a call has read and not signed. -/
def AttestPc.holds : AttestPc → Option Header
  | .lookup _ header => some header
  | .sign _ header => some header
  | _ => none

def BridgeTask.holds : BridgeTask → Option Header
  | .rpc _ _ pc => pc.holds
  | _ => none

/-- Signed, or in the hands of a call. -/
def shown (m : Machine BridgeState BridgeTask) : List Header :=
  m.shared.signed.map HeaderAttestation.header ++ m.tasks.filterMap BridgeTask.holds

/-- About to read the latest header. -/
def BridgeTask.reading : BridgeTask → Bool
  | .rpc _ _ (.read _) => true
  | _ => false

/-- A call reads the latest header only while no call has one in hand. -/
def CallsApart (m : Machine BridgeState BridgeTask) (i : Nat) : Prop :=
  ∀ t ∈ m.tasks[i]?, t.reading = true → m.tasks.filterMap BridgeTask.holds = []

instance decidableCallsApart (m : Machine BridgeState BridgeTask) (i : Nat) :
    Decidable (CallsApart m i) := Option.decidableForallMem _

section Shown

variable {C : Crypto} {signer : Option BridgeHeaderSigner}

/-- What a step does to the headers in play. -/
inductive ShownStep (t : BridgeTask) (b : BridgeState) (t' : BridgeTask) (b' : BridgeState) : Prop where
  | same (hsigned : b'.signed = b.signed) (hheld : t'.holds = t.holds)
  | read {l : Header} (hsigned : b'.signed = b.signed) (hlatest : b.node.latestBridgeHeader = some l)
      (hreading : t.reading = true) (hnone : t.holds = none) (hheld : t'.holds = some l)
  | drop {h : Header} (hsigned : b'.signed = b.signed) (hheld : t.holds = some h)
      (hnone : t'.holds = none)
  | sign {att : HeaderAttestation} (hsigned : b'.signed = b.signed ++ [att])
      (hheld : t.holds = some att.header) (hnone : t'.holds = none)

theorem BridgeTask.shownStep (C : Crypto) (signer : Option BridgeHeaderSigner) (t : BridgeTask)
    (b : BridgeState) :
    ShownStep t b (t.step C signer b).1 (t.step C signer b).2 := by
  cases t with
  | node task => exact .same rfl rfl
  | rpc calls answers pc =>
    cases pc with
    | idle =>
      cases calls with
      | nil => exact .same rfl rfl
      | cons coins calls => cases signer <;> exact .same rfl rfl
    | read a =>
      rw [step]
      split
      · exact .same rfl rfl
      · next l hl => exact .read rfl hl rfl rfl rfl
    | lookup a header =>
      rw [step]
      split
      · exact .drop rfl rfl rfl
      · exact .same rfl rfl
    | sign a header => exact .sign rfl rfl rfl
    | store att => exact .same rfl rfl

/-- A move brings nothing into play but the latest header. -/
theorem shown_subset (m : Machine BridgeState BridgeTask) (i : Nat) :
    shown (m.step (BridgeTask.step C signer) i) ⊆
      shown m ++ m.shared.node.latestBridgeHeader.toList := by
  unfold Machine.step
  split
  · exact List.subset_append_left _ _
  next t ht =>
  obtain ⟨others, hbefore, hafter⟩ :=
    perm_filterMap_set BridgeTask.holds ht (t.step C signer m.shared).1
  have hold : m.shared.signed.map HeaderAttestation.header ++ (t.holds.toList ++ others) ⊆ shown m :=
    (hbefore.symm.append_left _).subset
  refine List.Subset.trans (hafter.append_left _).subset ?_
  simp only [List.append_subset] at hold ⊢
  obtain ⟨hsigned, hheld, hothers⟩ := hold
  refine and_assoc.mp ⟨?_, List.subset_append_of_subset_left _ hothers⟩
  cases t.shownStep C signer m.shared with
  | same hs hh =>
    rw [hs, hh]
    exact ⟨List.subset_append_of_subset_left _ hsigned, List.subset_append_of_subset_left _ hheld⟩
  | read hs hlatest _ _ hh =>
    rw [hs, hh, hlatest]
    exact ⟨List.subset_append_of_subset_left _ hsigned, List.subset_append_right _ _⟩
  | drop hs _ hnone =>
    rw [hs, hnone]
    exact ⟨List.subset_append_of_subset_left _ hsigned, List.nil_subset _⟩
  | sign hs hh hnone =>
    rw [hh] at hheld
    rw [hs, hnone, List.map_append, List.append_subset]
    exact ⟨⟨List.subset_append_of_subset_left _ hsigned, List.subset_append_of_subset_left _ hheld⟩,
      List.nil_subset _⟩

/-- Where calls keep apart, one of them has a header in hand at most, and a new one comes last. -/
theorem shown_sublist (C : Crypto) (signer : Option BridgeHeaderSigner)
    {m : Machine BridgeState BridgeTask} {i : Nat}
    (hone : (m.tasks.filterMap BridgeTask.holds).length ≤ 1) (hapart : CallsApart m i) :
    ((m.step (BridgeTask.step C signer) i).tasks.filterMap BridgeTask.holds).length ≤ 1 ∧
      (shown (m.step (BridgeTask.step C signer) i)).Sublist
        (shown m ++ m.shared.node.latestBridgeHeader.toList) := by
  unfold Machine.step
  split
  · exact ⟨hone, List.sublist_append_left _ _⟩
  next t ht =>
  unfold shown
  dsimp only
  -- a task with a header in hand is the only one
  have hholder : ∀ {h}, t.holds = some h → m.tasks.filterMap BridgeTask.holds = [h] ∧
      (m.tasks.set i (t.step C signer m.shared).1).filterMap BridgeTask.holds =
        (t.step C signer m.shared).1.holds.toList := by
    intro h hh
    have hall := filterMap_eq_of_holder BridgeTask.holds hone ht hh
    exact ⟨hall, filterMap_set_of_alone _ ht _ (by rw [hall, hh]; rfl)⟩
  cases t.shownStep C signer m.shared with
  | same hs hh =>
    rw [hs, filterMap_set_of_eq _ ht hh]
    exact ⟨hone, List.sublist_append_left _ _⟩
  | read hs hlatest hreading hnone hh =>
    have hempty := hapart t ht hreading
    rw [hs, hlatest, filterMap_set_of_alone _ ht _ (by rw [hempty, hnone]; rfl), hh, hempty,
      List.append_nil]
    exact ⟨Nat.le_refl 1, List.Sublist.refl _⟩
  | drop hs hh hnone =>
    rw [hs, (hholder hh).2, hnone, Option.toList_none, List.append_nil, List.append_assoc]
    exact ⟨Nat.zero_le 1, List.sublist_append_left _ _⟩
  | sign hs hh hnone =>
    rw [hs, (hholder hh).2, (hholder hh).1, hnone, Option.toList_none, List.append_nil,
      List.map_append]
    exact ⟨Nat.zero_le 1, List.sublist_append_left _ _⟩

end Shown

/-! ## The latest header -/

/-- A later round, or the same header. -/
def Precedes (h h' : Header) : Prop := h.1 < h'.1 ∨ h = h'

theorem Precedes.refl (h : Header) : Precedes h h := .inr rfl

theorem Precedes.trans {h h' h'' : Header} (hh : Precedes h h') (hh' : Precedes h' h'') :
    Precedes h h'' := by
  rcases hh with hlt | rfl
  · rcases hh' with hlt' | rfl
    · exact .inl (UInt64.lt_trans hlt hlt')
    · exact .inl hlt
  · exact hh'

theorem Precedes.le {h h' : Header} (hh : Precedes h h') : h.1 ≤ h'.1 := by
  rcases hh with hlt | rfl
  · exact UInt64.le_of_lt hlt
  · exact UInt64.le_refl _

/-- Headers of one round, where one precedes the other. -/
theorem Precedes.eq_of_number {h h' : Header} (hh : Precedes h h' ∨ Precedes h' h) (hn : h.1 = h'.1) :
    h = h' := by
  rcases hh with (hlt | heq) | (hlt | heq)
  · exact absurd (hn ▸ hlt) (UInt64.lt_irrefl _)
  · exact heq
  · exact absurd (hn ▸ hlt) (UInt64.lt_irrefl _)
  · exact heq.symm

/-- The claim whose block the task is about to execute. -/
def Task.executes : Task → Option Claim
  | .inbox _ _ (.commit (.execute _ c)) => some c
  | _ => none

/-- The next block is of a later round than the latest header, or of the same round and empty. -/
def AdvancesHeader : BridgeTask → BridgeState → Prop
  | .node t, b => ∀ c ∈ t.executes, ∀ l ∈ b.node.latestBridgeHeader,
      l.1 < c.round ∨ (l.1 = c.round ∧ c.intents = [])
  | .rpc .., _ => True

instance decidableAdvancesHeader : ∀ (t : BridgeTask) (b : BridgeState), Decidable (AdvancesHeader t b)
  | .node t, b => @Option.decidableForallMem _ _ (fun _ => Option.decidableForallMem _) _
  | .rpc .., _ => .isTrue trivial

section Latest

variable {C : Crypto} {signer : Option BridgeHeaderSigner}

/-- The latest header shows the state of the substrate. -/
def RootCurrent (C : Crypto) (s : State) : Prop :=
  ∀ l ∈ s.latestBridgeHeader, l.2 = stateRoot C.blake3 s.substrate

/-- **One section**: the latest header moves forward. -/
theorem latest_step {t : Task} {s : State} (hroot : RootCurrent C s)
    (hadvances : ∀ c ∈ t.executes, ∀ l ∈ s.latestBridgeHeader,
      l.1 < c.round ∨ (l.1 = c.round ∧ c.intents = [])) :
    RootCurrent C (t.step C s).2 ∧ ∀ l ∈ s.latestBridgeHeader,
      ∃ l' ∈ (t.step C s).2.latestBridgeHeader, Precedes l l' := by
  cases t.viewStep (C := C) s with
  | same hsame =>
    have hlatest : (t.step C s).2.latestBridgeHeader = s.latestBridgeHeader :=
      congrArg Views.latestBridgeHeader hsame
    have hsubstrate : (t.step C s).2.substrate = s.substrate := congrArg Views.substrate hsame
    unfold RootCurrent
    rw [hlatest, hsubstrate]
    exact ⟨hroot, fun l hl => ⟨l, hl, .refl l⟩⟩
  | mark _ hs =>
    rw [hs]
    exact ⟨hroot, fun l hl => ⟨l, hl, .refl l⟩⟩
  | @execute _ _ _ c ht hs =>
    subst ht
    rw [hs]
    refine ⟨?_, fun l hl => ⟨_, rfl, ?_⟩⟩
    · rintro l ⟨⟩
      rfl
    rcases hadvances c rfl l hl with hlt | ⟨hround, hempty⟩
    · exact .inl hlt
    · -- an empty block leaves the state root
      refine .inr (Prod.ext hround ?_)
      rw [hempty]
      exact hroot l hl

theorem BridgeTask.node_step_rpc (calls : List (List UInt8)) (answers : List (Option HeaderAttestation))
    (pc : AttestPc) (b : BridgeState) :
    ((BridgeTask.rpc calls answers pc).step C signer b).2.node = b.node := by
  cases pc with
  | idle =>
    cases calls with
    | nil => rfl
    | cons coins calls => cases signer <;> rfl
  | read a => rw [step]; split <;> rfl
  | lookup a header => rw [step]; split <;> rfl
  | _ => rfl

theorem latest_move (signer : Option BridgeHeaderSigner) {m : Machine BridgeState BridgeTask} {i : Nat}
    (hroot : RootCurrent C m.shared.node)
    (hadvances : Picked AdvancesHeader m i) :
    RootCurrent C (m.step (BridgeTask.step C signer) i).shared.node ∧
      ∀ l ∈ m.shared.node.latestBridgeHeader,
        ∃ l' ∈ (m.step (BridgeTask.step C signer) i).shared.node.latestBridgeHeader, Precedes l l' := by
  unfold Machine.step
  split
  · exact ⟨hroot, fun l hl => ⟨l, hl, .refl l⟩⟩
  next t ht =>
  cases t with
  | node task => exact latest_step hroot (hadvances _ ht)
  | rpc calls answers pc =>
    dsimp only
    rw [BridgeTask.node_step_rpc]
    exact ⟨hroot, fun l hl => ⟨l, hl, .refl l⟩⟩

end Latest

/-! ## Every schedule -/

/-- The headers in play stand below the latest one. -/
structure BelowLatest (C : Crypto) (m : Machine BridgeState BridgeTask) : Prop where
  root : RootCurrent C m.shared.node
  below : ∀ h ∈ shown m, ∃ l ∈ m.shared.node.latestBridgeHeader, Precedes h l

section Schedules

variable {C : Crypto} {signer : Option BridgeHeaderSigner}

theorem BelowLatest.move {m : Machine BridgeState BridgeTask} {i : Nat} (h : BelowLatest C m)
    (hadvances : Picked AdvancesHeader m i) : BelowLatest C (m.step (BridgeTask.step C signer) i) := by
  obtain ⟨hroot, hforward⟩ := latest_move signer h.root hadvances
  refine ⟨hroot, fun k hk => ?_⟩
  rcases List.mem_append.mp (shown_subset m i hk) with hk | hk
  · obtain ⟨l, hl, hkl⟩ := h.below k hk
    obtain ⟨l', hl', hll'⟩ := hforward l hl
    exact ⟨l', hl', hkl.trans hll'⟩
  · exact hforward k (Option.mem_toList.mp hk)

/-- The latest header comes after all that are in play. -/
theorem BelowLatest.last {m : Machine BridgeState BridgeTask} (hs : BelowLatest C m) :
    ∀ h ∈ shown m, ∀ l ∈ m.shared.node.latestBridgeHeader.toList, Precedes h l := by
  intro h hh l hl
  obtain ⟨l', hl', hprec⟩ := hs.below h hh
  rwa [Option.mem_unique hl' (Option.mem_toList.mp hl)] at hprec

/-- Any two headers in play: one precedes the other. -/
def Comparable (m : Machine BridgeState BridgeTask) : Prop :=
  ∀ h ∈ shown m, ∀ h' ∈ shown m, Precedes h h' ∨ Precedes h' h

theorem Comparable.move {m : Machine BridgeState BridgeTask} (hc : Comparable m) (hs : BelowLatest C m)
    (i : Nat) : Comparable (m.step (BridgeTask.step C signer) i) := by
  intro h hh h' hh'
  rcases List.mem_append.mp (shown_subset m i hh) with hh | hh <;>
    rcases List.mem_append.mp (shown_subset m i hh') with hh' | hh'
  · exact hc h hh h' hh'
  · exact .inl (hs.last h hh h' hh')
  · exact .inr (hs.last h' hh' h hh)
  · rw [Option.mem_unique (Option.mem_toList.mp hh) (Option.mem_toList.mp hh')]
    exact .inl (.refl h')

/-- They were read in the order in which they were signed, and one call has one in hand at most. -/
structure Chained (m : Machine BridgeState BridgeTask) : Prop where
  one : (m.tasks.filterMap BridgeTask.holds).length ≤ 1
  chain : (shown m).Pairwise Precedes

theorem Chained.move {m : Machine BridgeState BridgeTask} {i : Nat} (hc : Chained m)
    (hs : BelowLatest C m) (hapart : CallsApart m i) : Chained (m.step (BridgeTask.step C signer) i) := by
  obtain ⟨hone, hsub⟩ := shown_sublist C signer hc.one hapart
  refine ⟨hone, .sublist hsub (List.pairwise_append.mpr ⟨hc.chain, ?_, hs.last⟩)⟩
  cases m.shared.node.latestBridgeHeader with
  | none => exact List.Pairwise.nil
  | some l => exact List.pairwise_singleton _ l

/-- What a client has got, or is about to get. -/
def BridgeTask.due : BridgeTask → List HeaderAttestation
  | .rpc _ answers (.store att) => answers.reduceOption ++ [att]
  | .rpc _ answers _ => answers.reduceOption
  | .node _ => []

/-- A call ends. -/
theorem due_answer {calls : List (List UInt8)} {answers : List (Option HeaderAttestation)}
    {answer : Option HeaderAttestation} {log : List HeaderAttestation}
    (hold : answers.reduceOption ⊆ log) (hnew : ∀ att ∈ answer, att ∈ log) :
    (BridgeTask.rpc calls (answers ++ [answer]) .idle).due ⊆ log := by
  intro att hatt
  have hatt : att ∈ (answers ++ [answer]).reduceOption := hatt
  rw [List.reduceOption_append] at hatt
  rcases List.mem_append.mp hatt with hatt | hatt
  · exact hold hatt
  · exact hnew att (List.mem_singleton.mp (List.reduceOption_mem_iff.mp hatt)).symm

/-- Nothing is handed out that has not been signed. -/
theorem due_respects : Respects (BridgeTask.step C signer) (fun _ _ => True)
    (fun b => ∀ att ∈ b.attestationCache, att ∈ b.signed) (fun b b' => b.signed ⊆ b'.signed)
    (fun t b => t.due ⊆ b.signed) where
  keep {t b} hcache hdue _ := by
    cases t with
    | node task => exact ⟨hcache, hdue⟩
    | rpc calls answers pc =>
      cases pc with
      | idle =>
        cases calls with
        | nil => exact ⟨hcache, hdue⟩
        | cons coins calls =>
          cases signer with
          | none => exact ⟨hcache, due_answer hdue (fun _ h => by cases h)⟩
          | some signer => exact ⟨hcache, hdue⟩
      | read a =>
        rw [BridgeTask.step]
        split
        · exact ⟨hcache, due_answer hdue (fun _ h => by cases h)⟩
        · exact ⟨hcache, hdue⟩
      | lookup a header =>
        rw [BridgeTask.step]
        split
        · next att hatt =>
          have hcached := (Option.filter_eq_some_iff.mp hatt).1
          refine ⟨hcache, due_answer hdue fun att' h => ?_⟩
          cases h
          exact hcache att hcached
        · exact ⟨hcache, hdue⟩
      | sign a header =>
        have hgrown : b.signed ⊆ ((BridgeTask.rpc calls answers (.sign a header)).step C signer b).2.signed :=
          List.subset_append_left _ _
        exact ⟨fun att h => hgrown (hcache att h), List.append_subset.mpr
          ⟨List.Subset.trans hdue hgrown, List.subset_append_right _ _⟩⟩
      | store att =>
        obtain ⟨hold, hatt⟩ := List.append_subset.mp hdue
        have hsigned : att ∈ b.signed := hatt List.mem_cons_self
        refine ⟨fun att' h => ?_, due_answer hold fun att' h => ?_⟩
        · cases h
          exact hsigned
        · cases h
          exact hsigned
  guarantee {t b} _ _ _ := by
    cases t.shownStep C signer b with
    | sign hs _ _ => exact hs ▸ List.subset_append_left _ _
    | same hs _ => exact hs ▸ List.Subset.refl _
    | read hs _ _ _ _ => exact hs ▸ List.Subset.refl _
    | drop hs _ _ => exact hs ▸ List.Subset.refl _
  stable _ hdue hsub := List.Subset.trans hdue hsub

theorem nothing_of_idle {t : BridgeTask} (hidle : t.idle = true) :
    t.holds = none ∧ ∀ log, t.due ⊆ log := by
  rcases t with task | ⟨calls, _ | ⟨a, answers⟩, _ | _ | _ | _ | _⟩
  · exact ⟨rfl, List.nil_subset⟩
  · exact ⟨rfl, List.nil_subset⟩
  all_goals cases hidle

/-- **Bridge headers.**  Where every block advances the latest header, the attestations signed never
    conflict, and nothing else is handed out; where calls keep apart, too, their block numbers never go
    back. -/
theorem bridge_headers_consistent {manifest : GenesisManifest} {selfId : AuthorityId}
    {tasks : List BridgeTask} (hidle : ∀ t ∈ tasks, t.idle = true) {schedule : List Nat}
    (hadvances : Runs.Along (Machine.step (BridgeTask.step C signer)) (Picked AdvancesHeader) schedule
      (bridgeStarted C manifest selfId tasks)) :
    let m₀ := bridgeStarted C manifest selfId tasks
    let m := m₀.run (BridgeTask.step C signer) schedule
    (∀ att ∈ m.shared.signed, ∀ att' ∈ m.shared.signed,
      att.blockNumber = att'.blockNumber → att.stateRoot = att'.stateRoot) ∧
    (∀ t ∈ m.tasks, t.due ⊆ m.shared.signed) ∧
    (Runs.Along (Machine.step (BridgeTask.step C signer)) CallsApart schedule m₀ →
      m.shared.signed.Pairwise fun att att' => att.blockNumber ≤ att'.blockNumber) := by
  intro m₀ m
  have hnobody : m₀.tasks.filterMap BridgeTask.holds = [] :=
    List.filterMap_eq_nil_iff.mpr fun t ht => (nothing_of_idle (hidle t ht)).1
  have hnothing : shown m₀ = [] := hnobody
  have hnever : ∀ h, h ∉ shown m₀ := fun h => hnothing ▸ List.not_mem_nil
  have hsettled : BelowLatest C m₀ := ⟨fun l hl => (by cases hl), fun h hh => absurd hh (hnever h)⟩
  have hmem : ∀ att ∈ m.shared.signed, att.header ∈ shown m := fun att hatt =>
    List.mem_append_left _ (List.mem_map_of_mem hatt)
  refine ⟨?_, ?_, fun hapart => ?_⟩
  · have hcomparable : Comparable m₀ := fun h hh => absurd hh (hnever h)
    obtain ⟨-, hall⟩ := Runs.Along.invariant (I := fun m => BelowLatest C m ∧ Comparable m)
      (fun m i h ha => ⟨h.1.move ha, h.2.move h.1 i⟩) ⟨hsettled, hcomparable⟩ hadvances
    intro att hatt att' hatt' hnumber
    have heq := Precedes.eq_of_number (hall _ (hmem att hatt) _ (hmem att' hatt')) hnumber
    exact congrArg Prod.snd heq
  · have hstart : Respects.Holds (fun b => ∀ att ∈ b.attestationCache, att ∈ b.signed)
        (fun t b => t.due ⊆ b.signed) m₀ :=
      ⟨fun att h => (by cases h), fun t ht => (nothing_of_idle (hidle t ht)).2 _⟩
    exact (due_respects.run hstart (along_true _ schedule _)).2
  · have hchained : Chained m₀ := ⟨hnobody ▸ Nat.zero_le 1, hnothing ▸ List.Pairwise.nil⟩
    obtain ⟨-, hall⟩ := Runs.Along.invariant (I := fun m => BelowLatest C m ∧ Chained m)
      (fun m i h ha => ⟨h.1.move ha.1, h.2.move h.1 ha.2⟩) ⟨hsettled, hchained⟩ (hadvances.and hapart)
    have hheaders := (List.pairwise_append.mp hall.chain).1
    exact (List.pairwise_map.mp hheaders).imp Precedes.le

end Schedules

/-! ## Two blocks of one round, and two calls that overlap

    Two honest authorities; the first certificate of authority 1 carries a genesis allocation.  A client
    calls once behind each of the two blocks of round 0. -/

/-- The genesis allocation of `fund1Block`. -/
def fund1 : CertHash × Certificate :=
  (0x40cd1758120bd116535a5459fd98946f313912f68d38d27062ab1763501e97d2#256,
    ⟨1, 0, [], 0x39b0997e016439e3f7a49c57c1ea5b7644ba981d34c698fbbd3389b67760722b#256, []⟩)

def cite0 : CertHash × Certificate :=
  (0x7fccff6ad745a131b7391475dc361a593d76f9187c269171f550c62125fd6bfb#256,
    ⟨0, 1, [root0.1, fund1.1], emptyPayload, []⟩)

def cite1 : CertHash × Certificate :=
  (0xbf7b0342d502ef0c2c1d6bf1468e6f8c2bdfa052868335020809ec7298b12406#256,
    ⟨1, 1, [root0.1, fund1.1], emptyPayload, []⟩)

def over0 : CertHash × Certificate :=
  (0x75480ec7488dad556278b49cda40a5c4484e04a7ab142ca1a2d50f58b94154b7#256,
    ⟨0, 2, [cite0.1, cite1.1], emptyPayload, []⟩)

def over1 : CertHash × Certificate :=
  (0x1c4552f67b203da8ed41515cb9feb07ee307ed2e615e3eae5f851aad8f1e97fd#256,
    ⟨1, 2, [cite0.1, cite1.1], emptyPayload, []⟩)

def top0 : CertHash × Certificate :=
  (0xa03fcc11bf07762f1e743adc46f1337b268f9c2ef0678997f2fd5affbc92ecb7#256,
    ⟨0, 3, [over0.1, over1.1], emptyPayload, []⟩)

def top1 : CertHash × Certificate :=
  (0x9871259778bf5e2f4dc272962f5a885ca23be278f4cac26229802ba70d010473#256,
    ⟨1, 3, [over0.1, over1.1], emptyPayload, []⟩)

def fund1Block : BlockPayload :=
  ⟨fund1.2.payloadDigest, 1, 0, fund1.1, [.genesisAllocation [(1, 9)]], []⟩

def pairUniverse : List (CertHash × Certificate) := [root0, fund1, cite0, cite1, over0, over1, top0, top1]

def briefSigner : BridgeHeaderSigner where
  authorityId := 0
  networkId := 7
  oracle := 9
  pubkey := briefKey 0
  signHeader coins digest := briefKey 0 ++ coins ++ beBytes 32 digest.toNat

/-- Blocks, certificates and votes from one peer, and a client that calls twice. -/
def polledTasks : List BridgeTask :=
  [.node (.inbox false ([.block (emptyBlock root0), .block fund1Block, .block (emptyBlock cite1)] ++
      pairUniverse.map (fun p => .cert (briefSigned p)) ++ [.vote ⟨1, root0.1⟩, .vote ⟨1, cite1.1⟩])
      .idle),
    .rpc [[1], [2]] [] .idle]

/-- One call behind `root0`, one behind `fund1`. -/
def polled : List Nat :=
  List.replicate 144 0 ++ List.replicate 5 1 ++ List.replicate 24 0 ++ List.replicate 5 1

/-- The chain of one authority, and two clients. -/
def clientTasks : List BridgeTask :=
  overlappingTasks.map .node ++ [.rpc [[1], [2]] [] .idle, .rpc [[3]] [] .idle]

/-- The first client reads the header of `root0`, the second one gets that of `first0`, the first one
    goes on. -/
def overtaken : List Nat :=
  List.replicate 74 0 ++ [2, 2] ++ List.replicate 24 1 ++ List.replicate 5 3 ++ List.replicate 3 2

/-- The first client calls once behind each block. -/
def inTurn : List Nat :=
  List.replicate 74 0 ++ List.replicate 5 2 ++ List.replicate 24 1 ++ List.replicate 5 2

/-- **Conflicting headers.**  Calls keep apart and two headers of round 0 are signed; and where blocks
    advance the header, calls that overlap sign round 1 before round 0. -/
theorem conflicting_headers_signed :
    let m := (bridgeStarted briefScheme briefManifest 2 polledTasks).run
      (BridgeTask.step briefScheme (some briefSigner)) polled
    let m' := (bridgeStarted briefScheme soloManifest 1 clientTasks).run
      (BridgeTask.step briefScheme (some briefSigner)) overtaken
    ((∀ t ∈ polledTasks, t.idle = true) ∧
      Runs.Along (Machine.step (BridgeTask.step briefScheme (some briefSigner))) CallsApart polled
        (bridgeStarted briefScheme briefManifest 2 polledTasks) ∧
      ∃ att ∈ m.shared.signed, ∃ att' ∈ m.shared.signed,
        att.blockNumber = att'.blockNumber ∧ att.stateRoot ≠ att'.stateRoot) ∧
    ((∀ t ∈ clientTasks, t.idle = true) ∧
      Runs.Along (Machine.step (BridgeTask.step briefScheme (some briefSigner))) (Picked AdvancesHeader)
        overtaken (bridgeStarted briefScheme soloManifest 1 clientTasks) ∧
      m'.shared.signed.map HeaderAttestation.blockNumber = [1, 0]) := by
  intro m m'
  exact ⟨by decide +kernel, by decide +kernel⟩

theorem bridge_headers_consistent_inTurn :
    let m := (bridgeStarted briefScheme soloManifest 1 clientTasks).run
      (BridgeTask.step briefScheme (some briefSigner)) inTurn
    m.shared.signed.map HeaderAttestation.blockNumber = [0, 1] ∧
    (∀ att ∈ m.shared.signed, ∀ att' ∈ m.shared.signed,
      att.blockNumber = att'.blockNumber → att.stateRoot = att'.stateRoot) ∧
    m.shared.signed.Pairwise fun att att' => att.blockNumber ≤ att'.blockNumber := by
  have hidle : ∀ t ∈ clientTasks, t.idle = true := by decide +kernel
  have hadvances : Runs.Along (Machine.step (BridgeTask.step briefScheme (some briefSigner)))
      (Picked AdvancesHeader) inTurn (bridgeStarted briefScheme soloManifest 1 clientTasks) := by
    decide +kernel
  have hapart : Runs.Along (Machine.step (BridgeTask.step briefScheme (some briefSigner)))
      CallsApart inTurn (bridgeStarted briefScheme soloManifest 1 clientTasks) := by decide +kernel
  obtain ⟨hagree, -, hordered⟩ := bridge_headers_consistent hidle hadvances
  exact ⟨by decide +kernel, hagree, hordered hapart⟩

end SuwappuDag.Node
