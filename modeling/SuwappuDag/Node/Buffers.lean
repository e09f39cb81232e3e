/-
  BOUNDED BUFFERS — what a peer or a client can make a node hold, over every run.

  A node buffers what it cannot use yet: certificates without their parents, envelopes of governance
  intents and the intents themselves.  Each buffer has its own limit, checked where it is filled
  (`buffer`, `remember`, `accept`); the rest of the node only takes from it.  The mempool is held to all
  of `Mempool.Sound`, so its dedup set is exact in every state as well.
-/
import SuwappuDag.Node.Invariant
import SuwappuDag.Node.PoolBooks

namespace SuwappuDag.Node

open Words Consensus Execution
open Std (ExtTreeMap)

structure Bounded (C : Crypto) (s : State) : Prop where
  orphans : orphanCount s.orphans ≤ maxOrphanCerts
  envelopes : s.governanceEnvelopes.size ≤ 4096
  capacity : s.mempool.capacity = 10000
  mempool : Mempool.Sound C.blake3 s.mempool

section Bounds

variable {C : Crypto} {s : State}

theorem orphanCount_bufferOrphan (hs : orphanCount s.orphans ≤ maxOrphanCerts) (cert : Certificate)
    (missing : CertHash) : orphanCount (bufferOrphan s cert missing).orphans ≤ maxOrphanCerts := by
  have hone := orphanCount_bufferOrphan_le s cert missing
  by_cases hfull : maxOrphanCerts ≤ orphanCount s.orphans
  · rwa [bufferOrphan, if_pos hfull]
  · omega

theorem size_attachEnvelopes_le : ∀ (intents : List (Intent × Nat)) (envelopes : ExtTreeMap Bytes32 GovAuth),
    (attachEnvelopes C envelopes intents).2.size ≤ envelopes.size := by
  intro intents
  induction intents with
  | nil => exact fun _ => le_rfl
  | cons entry rest ih =>
    intro envelopes
    rw [attachEnvelopes]
    dsimp only
    split
    · exact (ih _).trans ExtTreeMap.size_erase_le
    · exact ih envelopes

theorem size_remember_le (hs : s.governanceEnvelopes.size ≤ 4096) (hash : Bytes32) (auth : GovAuth) :
    (rememberGovernanceEnvelope s hash auth).governanceEnvelopes.size ≤ 4096 := by
  unfold rememberGovernanceEnvelope
  dsimp only
  split
  · exact hs
  · next hroom =>
    rw [ExtTreeMap.size_insert]
    split
    · exact hs
    · next hnew =>
      have hfree : ¬ 4096 ≤ s.governanceEnvelopes.size := fun hfull => hroom ⟨hfull, hnew⟩
      omega

theorem bounded_nodeInvariant : NodeInvariant C (fun _ => True) (fun _ => True) (Bounded C) where
  need _ hs := ⟨hs.orphans, hs.envelopes, hs.capacity, hs.mempool⟩
  execute {s h cert block} hs _ _ _ := by
    have hframe : Bounded C (executeCert C s h cert block) = Bounded C s := by
      refine executeCert_frame (Bounded C) fun t => ?_
      intros
      exact propext ⟨fun h => ⟨h.1, h.2, h.3, h.4⟩, fun h => ⟨h.1, h.2, h.3, h.4⟩⟩
    rwa [hframe]
  eject hs := ⟨hs.orphans, hs.envelopes, hs.capacity, hs.mempool⟩
  insert {s cert h dag} hs _ _ _ := by
    have herase := orphanCount_erase s.orphans h
    have hs₁ := hs.orphans
    refine ⟨?_, hs.envelopes, hs.capacity, hs.mempool⟩
    show orphanCount (s.orphans.erase h) ≤ maxOrphanCerts
    omega
  buffer {s cert} missing hs _ := by
    have hcount := orphanCount_bufferOrphan hs.orphans cert missing
    unfold bufferOrphan at hcount ⊢
    split
    · exact hs
    · next hroom =>
      rw [if_neg hroom] at hcount
      exact ⟨hcount, hs.envelopes, hs.capacity, hs.mempool⟩
  waiting _ _ := trivial
  vote _ hs := ⟨hs.orphans, hs.envelopes, hs.capacity, hs.mempool⟩
  store hs _ := ⟨hs.orphans, hs.envelopes, hs.capacity, hs.mempool⟩
  author timedOut signature hs := by
    unfold authorRound
    split
    · exact hs
    split
    · exact hs
    obtain ⟨-, -, hcapacity, hsound⟩ := Mempool.drainForBlock_eq C.blake3 maxIntentsPerBlock _
    exact ⟨hs.orphans, (size_attachEnvelopes_le _ _).trans hs.envelopes, hcapacity.trans hs.capacity,
      hsound hs.mempool⟩
  accept {s} intent limited nowMs hs := by
    have hcap : 1 ≤ s.mempool.capacity := by rw [hs.capacity]; decide
    obtain ⟨-, -, -, hcapacity, hsound⟩ := Mempool.submit_spec hcap hs.mempool intent 0 limited nowMs
    exact ⟨hs.orphans, hs.envelopes, hcapacity.trans hs.capacity, hsound⟩
  remember hash auth hs := ⟨hs.orphans, size_remember_le hs.envelopes hash auth, hs.capacity, hs.mempool⟩

end Bounds

/-- **No run outgrows its buffers**, whatever messages and submissions come in: at most 4096 orphans,
    4096 envelopes and 10000 intents, each queued once and each in the dedup set. -/
theorem buffers_bounded (C : Crypto) (manifest : GenesisManifest) (selfId : AuthorityId)
    (actions : List Action) : Bounded C (runActions C actions (State.new C manifest selfId)) :=
  bounded_nodeInvariant.run ⟨Nat.zero_le _, Nat.zero_le _, rfl, Mempool.sound_ofCapacity C.blake3 10000⟩
    fun _ _ _ => trivial

end SuwappuDag.Node
