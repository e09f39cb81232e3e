/-
  The amounts of a sequencer slash, against the integers they stand for.

  A slash is a chain of products and quotients in `u128`: `bond · 500 / 10000` for a missed force
  include, 70% of the slash for the insurance pool, a tenth of it (with a SATURATING product) for the
  submitter.  The first and the second product are plain ones, and a release build wraps them.  Once
  the liveness slash is taken the later products cannot wrap any more (the slash is at most
  2^128 / 10000), so one condition is left for each kind of slash: `bond · 500 < 2^128`, and
  `bond · 70 < 2^128` where the whole safety bond is forfeited.

  The balances come from one closed form each: what `slashBond` moves, what `payBounty` moves, at
  every address.
-/
import SuwappuDag.Execution.Arms

namespace SuwappuDag.Execution

open Words Command Reserved InMemorySubstrate

section Amounts

theorem toNat_livenessSlashAmount {bond : Balance} (h : bond.toNat * 500 < 2 ^ 128) :
    (livenessSlashAmount bond).toNat = 5 * bond.toNat / 100 := by
  have hexact : (livenessSlashAmount bond).toNat = bond.toNat * 500 / 10000 :=
    toNat_mulDiv (by decide) (by decide) h
  omega

theorem toNat_snitchBountyAmount {slash : Balance} (h : slash.toNat * 1000 < 2 ^ 128) :
    (snitchBountyAmount slash).toNat = min (slash.toNat / 10) 1000000 := by
  have hexact : (slash * 1000 / 10000).toNat = slash.toNat * 1000 / 10000 :=
    toNat_mulDiv (by decide) (by decide) h
  have hcap : snitchBountyCap.toNat = 1000000 := rfl
  simp only [snitchBountyAmount, if_pos h]
  split_ifs with hlt <;> rw [BitVec.lt_def] at hlt <;> omega

theorem toNat_paidBounty (bounty available : Balance) :
    (paidBounty bounty available).toNat = min bounty.toNat available.toNat := by
  unfold paidBounty
  split_ifs with hlt <;> rw [BitVec.lt_def] at hlt <;> omega

theorem toNat_shares {amount : Balance} (h : amount.toNat * 70 < 2 ^ 128) :
    (insuranceShareOf amount).toNat = 70 * amount.toNat / 100 ∧
      (amount - insuranceShareOf amount).toNat = amount.toNat - 70 * amount.toNat / 100 := by
  have hshare := toNat_insuranceShareOf h
  rw [Nat.mul_comm] at hshare
  exact ⟨hshare, by rw [BitVec.toNat_sub_of_le (insuranceShareOf_le amount), hshare]⟩

end Amounts

section Balances
variable {blake3 : List UInt8 → Bytes32} {s t : InMemorySubstrate}

theorem creditedTo_waterfall (amount : Balance) (a : Address) :
    creditedTo (waterfall blake3 amount) a =
      (if insurancePoolAddress blake3 = a then (insuranceShareOf amount).toNat else 0) +
        if treasuryAddress blake3 = a then (amount - insuranceShareOf amount).toNat else 0 := by
  rw [waterfall, creditedTo_cons, creditedTo_cons]
  rfl

/-- What a slash that goes through does to every balance. -/
theorem slashBond_balance {bond : Address} {amount : Balance}
    (h : slashBond blake3 bond amount s = (.ok (), t)) (a : Address) :
    ((t.balance a).toNat : ℤ) = (s.balance a).toNat - (if bond = a then (amount.toNat : ℤ) else 0) +
      creditedTo (waterfall blake3 amount) a := by
  obtain ⟨_, u, hdebit, hcredit⟩ := bind_eq_ok_iff.mp h
  rw [creditEach_balance hcredit, Nat.cast_add, debitUnchecked_balance hdebit]

/-- What a bounty that goes through does to every balance. -/
theorem payBounty_balance {dest : Address} {bounty : Balance}
    (h : payBounty blake3 dest bounty s = (.ok (), t)) (a : Address) :
    ((t.balance a).toNat : ℤ) = (s.balance a).toNat + moved (treasuryAddress blake3) dest
      (paidBounty bounty (s.balance (treasuryAddress blake3))) a := by
  have hnone : paidBounty bounty (s.balance (treasuryAddress blake3)) = 0 → s = t →
      ((t.balance a).toNat : ℤ) = (s.balance a).toNat + moved (treasuryAddress blake3) dest
        (paidBounty bounty (s.balance (treasuryAddress blake3))) a := by
    rintro hzero rfl
    rw [hzero, moved_zero, add_zero]
  unfold payBounty at h
  split_ifs at h with hpos
  · rw [read_bind_run] at h
    split_ifs at h with hpaid
    · exact debitThenCredit_balance h a
    · exact hnone (by simpa using hpaid) (congrArg Prod.snd h)
  · have hzero : bounty.toNat = 0 := by simpa [BitVec.lt_def] using hpos
    refine hnone (BitVec.eq_of_toNat_eq ?_) (congrArg Prod.snd h)
    rw [toNat_paidBounty, hzero]
    exact Nat.zero_min _

/-- A liveness slash with a bounty, at every address; `available` is the treasury between the two. -/
theorem slashLivenessBond_balance {submitter : Address} (huser : ¬ isReserved blake3 submitter = true)
    (h : slashLivenessBond blake3 submitter s = (.ok (), t)) :
    let slash := livenessSlashAmount (s.balance (sequencerBondAddress blake3))
    ∃ u : InMemorySubstrate,
      (∀ a, ((u.balance a).toNat : ℤ) = (s.balance a).toNat -
        (if sequencerBondAddress blake3 = a then (slash.toNat : ℤ) else 0) +
          creditedTo (waterfall blake3 slash) a) ∧
      ∀ a, ((t.balance a).toNat : ℤ) = (u.balance a).toNat + moved (treasuryAddress blake3) submitter
        (paidBounty (snitchBountyAmount slash) (u.balance (treasuryAddress blake3))) a := by
  unfold slashLivenessBond at h
  rw [read_bind_run] at h
  dsimp only at h ⊢
  set slash := livenessSlashAmount (s.balance (sequencerBondAddress blake3)) with hslash
  split_ifs at h with hzero
  · -- nothing is slashed, and a tenth of nothing is paid
    have h0 : slash = 0 := by
      rcases hzero with hbond | h0
      · rw [hslash, hbond]
        rfl
      · exact h0
    cases h
    refine ⟨s, fun a => ?_, fun a => ?_⟩
    · rw [h0, creditedTo_waterfall]
      simp [insuranceShareOf]
    · have hpaid : paidBounty (snitchBountyAmount slash) (s.balance (treasuryAddress blake3)) = 0 := by
        apply BitVec.eq_of_toNat_eq
        rw [toNat_paidBounty, h0]
        exact Nat.zero_min _
      rw [hpaid, moved_zero, add_zero]
  · obtain ⟨_, u, hbond, hpay⟩ := bind_eq_ok_iff.mp h
    exact ⟨u, slashBond_balance hbond, payBounty_balance hpay⟩

/-- A forfeit, at every address. -/
theorem forfeitSafetyBond_balance (h : forfeitSafetyBond blake3 s = (.ok (), t)) (a : Address) :
    ((t.balance a).toNat : ℤ) = (s.balance a).toNat - (if safetyBondAddress blake3 = a then
      ((s.balance (safetyBondAddress blake3)).toNat : ℤ) else 0) +
        creditedTo (waterfall blake3 (s.balance (safetyBondAddress blake3))) a := by
  unfold forfeitSafetyBond at h
  rw [read_bind_run] at h
  split_ifs at h with hzero
  · cases h
    rw [hzero, creditedTo_waterfall]
    simp [insuranceShareOf]
  · exact slashBond_balance h a

/-- A slash for a missed obligation settles it, then slashes the liveness bond. -/
theorem slashMissed_run {hash : Bytes32} {obligation : ForceIncludeObligation}
    (hfound : forceIncludeObligation blake3 s hash = some obligation)
    (h : applyIntent blake3 (.slashSequencer .missedForceInclude hash) s = (.ok (), t)) :
    ∃ u : InMemorySubstrate, u.balance = s.balance ∧
      slashLivenessBond blake3 obligation.submitter u = (.ok (), t) := by
  obtain ⟨o, u, hsettle, hslash⟩ := bind_eq_ok_iff.mp
    (show (settleObligation blake3 hash .slashed >>= fun o => slashLivenessBond blake3 o.submitter) s
      = (.ok (), t) from h)
  have hguarded : Guarded (settleObligation blake3 hash .slashed) s _ :=
    settleObligation_guarded hash .slashed
  rcases hguarded with ⟨map', o', hdec', hfind', -, hr⟩ | ⟨-, e, hr⟩ <;> rw [hsettle] at hr
  · cases hr
    rw [forceIncludeObligation, ← recordAt, hdec', Except.toOption, Option.bind_some, hfind'] at hfound
    cases hfound
    exact ⟨_, balance_writeBytesUnchecked .., hslash⟩
  · cases hr

/-- A slash for an offence records it, then forfeits the safety bond. -/
theorem slashOffense_run {hash : Bytes32} {reason : SlashReason}
    (hreason : reason ∈ [SlashReason.equivocation, .invalidBatch])
    (h : applyIntent blake3 (.slashSequencer reason hash) s = (.ok (), t)) :
    ∃ u : InMemorySubstrate, u.balance = s.balance ∧ forfeitSafetyBond blake3 u = (.ok (), t) := by
  have hkind : ∃ kind, applyIntent blake3 (.slashSequencer reason hash) s =
      applySlashOffense blake3 kind hash s := by
    simp only [List.mem_cons, List.not_mem_nil, or_false] at hreason
    rcases hreason with rfl | rfl
    · exact ⟨.equivocation, rfl⟩
    · exact ⟨.invalidBatch, rfl⟩
  obtain ⟨kind, hrun⟩ := hkind
  have hguarded : Guarded (applySlashOffense blake3 kind hash) s _ := applySlashOffense_guarded kind hash
  rcases hguarded with ⟨map, -, -, hr⟩ | ⟨-, e, hr⟩ <;> rw [← hrun, h] at hr
  · exact ⟨_, balance_writeBytesUnchecked .., hr.symm⟩
  · cases hr

end Balances

section Exact
variable {blake3 : List UInt8 → Bytes32}

/-- A sequencer with the two bonds posted, and one obligation of the submitter 7. -/
def bondedSequencer (liveness safety : Balance) : InMemorySubstrate :=
  (applyIntent Blake3.hash (.l2ForceInclude [1] 5 7 0) (fromBalances
    [(sequencerBondAddress Blake3.hash, liveness), (safetyBondAddress Blake3.hash, safety)])).2

/-- The id of the obligation. -/
def obligationOfSeven : Bytes32 := ForceInclude.obligationId Blake3.hash [1] 5 7 0

end Exact

end SuwappuDag.Execution
