/-
  SLASHED FUNDS, from the bond to the distribution.

  1. **Slash** — what a `SlashSequencer` that succeeds takes from a bond is fixed by the state it finds:
     a twentieth of the liveness bond, or the whole safety bond (`debits_iff_takes`).
  2. **Distribution** — `DistributeSlashedFunds` MINTS its shares.  It succeeds as soon as no
     counterparty is reserved and no balance overflows (`paysOut_iff`); the event id is not read.
  3. **Payoff** — so a run distributes what was slashed, and once, exactly as long as those who
     submit the intents see to it (`distributions_backed_iff`).
-/
import SuwappuDag.Execution.Arms
import SuwappuDag.Execution.History

namespace SuwappuDag.Execution

open Words Command Reserved InMemorySubstrate Runs
open Std (ExtTreeMap)

/-- The fields of a `DistributeSlashedFunds` intent. -/
structure Distribution where
  slashEventId : Bytes32
  counterparties : List (Address × Balance)
  insuranceShare : Balance
  treasuryShare : Balance

namespace Distribution

variable (blake3 : List UInt8 → Bytes32) (d : Distribution)

def intent : Intent :=
  .distributeSlashedFunds d.slashEventId d.counterparties d.insuranceShare d.treasuryShare

/-- The sum of all shares. -/
def total : Nat :=
  (d.counterparties.map fun c => c.2.toNat).sum + d.insuranceShare.toNat + d.treasuryShare.toNat

/-- What the substrate asks of a distribution: unreserved counterparties, and room for every credit. -/
def Passes (s : InMemorySubstrate) : Prop :=
  (∀ c ∈ d.counterparties, ¬ isReserved blake3 c.1 = true) ∧
    ∀ addr, (s.balance addr).toNat + creditedTo (slashedFundsCredits blake3 d.counterparties
      d.insuranceShare d.treasuryShare) addr < 2 ^ 128

variable {d}

theorem intent_inj {d' : Distribution} (h : d.intent = d'.intent) : d = d' := by
  cases d
  cases d'
  cases h
  rfl

end Distribution

/-! ## Slash -/

section Slash

variable {blake3 : List UInt8 → Bytes32} {s t : InMemorySubstrate} {hash : Bytes32} {amount : Nat}

/-- The application is a slash with that hash which succeeded and took the amount from a bond. -/
def Applied.Debits (blake3 : List UInt8 → Bytes32) (hash : Bytes32) (amount : Nat) (a : Applied) :
    Prop :=
  a.Succeeds blake3 ∧ (∃ reason, a.intent = .slashSequencer reason hash) ∧
    ∃ bond ∈ [Account.sequencerBond, Account.safetyBond],
      (a.before.balance (bond.address blake3)).toNat =
        ((a.after blake3).balance (bond.address blake3)).toNat + amount

/-- The obligation is pending and its slash fits. -/
def SlashesMissed (blake3 : List UInt8 → Bytes32) (s : InMemorySubstrate) (hash : Bytes32) : Prop :=
  ∃ map obligation,
    ForceInclude.decodeMap (recordAt s (forceIncludeRegistryAddress blake3)) = .ok map ∧
    map[hash]? = some obligation ∧ obligation.status = .pending ∧
    ¬ LateLivenessSlash blake3 s obligation.submitter

/-- The offence is not recorded and the forfeit fits. -/
def SlashesOffense (blake3 : List UInt8 → Bytes32) (s : InMemorySubstrate) (hash : Bytes32) : Prop :=
  ∃ map, EquivocationRegistry.decode (recordAt s (equivocationRegistryAddress blake3)) = .ok map ∧
    hash ∉ map ∧ ¬ LateForfeit blake3 s

/-- What a slash with that hash takes, read off the state it finds. -/
def Applied.Takes (blake3 : List UInt8 → Bytes32) (hash : Bytes32) (amount : Nat) (a : Applied) :
    Prop :=
  match a.intent with
  | .slashSequencer .missedForceInclude id => id = hash ∧ SlashesMissed blake3 a.before id ∧
      amount = (livenessSlashAmount (a.before.balance (sequencerBondAddress blake3))).toNat
  | .slashSequencer .equivocation id => id = hash ∧ SlashesOffense blake3 a.before id ∧
      amount = (a.before.balance (safetyBondAddress blake3)).toNat
  | .slashSequencer .invalidBatch id => id = hash ∧ SlashesOffense blake3 a.before id ∧
      amount = (a.before.balance (safetyBondAddress blake3)).toNat
  | _ => False

theorem toNat_sub_add {a b : Balance} (h : b ≤ a) : a.toNat = (a - b).toNat + b.toNat := by
  rw [BitVec.toNat_sub_of_le h, Nat.sub_add_cancel h]

/-- A liveness slash that goes through takes a twentieth of the bond. -/
theorem slashLivenessBond_takes (hres : ReservedDistinct blake3) {submitter : Address}
    (h : slashLivenessBond blake3 submitter s = (.ok (), t)) :
    (s.balance (sequencerBondAddress blake3)).toNat =
      (t.balance (sequencerBondAddress blake3)).toNat +
        (livenessSlashAmount (s.balance (sequencerBondAddress blake3))).toNat := by
  unfold slashLivenessBond at h
  rw [read_bind_run] at h
  set bond := s.balance (sequencerBondAddress blake3) with hbond
  have hle := livenessSlashAmount_le bond
  split at h
  · next hzero =>
    cases h
    have h0 : livenessSlashAmount bond = 0 := by
      rcases hzero with hb | hs
      · rw [hb] at hle ⊢
        exact BitVec.le_zero_iff.mp hle
      · exact hs
    rw [h0, ← hbond]
    rfl
  · next hzero =>
    obtain ⟨_, u, hslash, hrest⟩ := bind_eq_ok_iff.mp h
    have hbondne : ∀ c ∈ waterfall blake3 (livenessSlashAmount bond),
        c.1 ≠ sequencerBondAddress blake3 :=
      waterfall_ne (hres.ne (i := 1) (j := 5) (by decide)) (hres.ne (i := 2) (j := 5) (by decide)) _
    have hu := slashBond_debited hbondne (fun h0 => hzero (Or.inr h0)) hle hslash
    have ht : t.balance (sequencerBondAddress blake3) = u.balance (sequencerBondAddress blake3) := by
      split at hrest
      · cases hrest
        rfl
      · next huser =>
        have hleads : Leads (Footprint.OnlyMoves (· ∈ [treasuryAddress blake3, submitter]))
            (payBounty blake3 submitter (snitchBountyAmount (livenessSlashAmount bond))) u :=
          (payBounty_ends (Footprint.permits_onlyMoves _) (fun _ => trivial) (by simp) (by simp) _).leads
        rw [Leads, hrest] at hleads
        refine hleads.balance _ fun hmem => ?_
        rw [List.mem_pair] at hmem
        exact hmem.elim (hres.ne (i := 5) (j := 2) (by decide))
          (Account.ne_of_not_isReserved huser .sequencerBond)
    rw [ht, hu]
    exact toNat_sub_add hle

/-- A forfeit that goes through takes the whole bond. -/
theorem forfeitSafetyBond_takes (hres : ReservedDistinct blake3)
    (h : forfeitSafetyBond blake3 s = (.ok (), t)) :
    (s.balance (safetyBondAddress blake3)).toNat =
      (t.balance (safetyBondAddress blake3)).toNat +
        (s.balance (safetyBondAddress blake3)).toNat := by
  unfold forfeitSafetyBond at h
  rw [read_bind_run] at h
  split at h
  · next hzero =>
    cases h
    rw [hzero]
    rfl
  · next hzero =>
    have hbondne : ∀ c ∈ waterfall blake3 (s.balance (safetyBondAddress blake3)),
        c.1 ≠ safetyBondAddress blake3 :=
      waterfall_ne (hres.ne (i := 1) (j := 6) (by decide)) (hres.ne (i := 2) (j := 6) (by decide)) _
    rw [slashBond_debited hbondne hzero (le_refl _) h]
    exact toNat_sub_add (le_refl _)

/-- Which slash succeeds, and what it takes; nothing but one bond pays. -/
structure SlashSpec (blake3 : List UInt8 → Bytes32) (a : Applied) (bond other : Account) (P : Prop)
    (taken : Nat) : Prop where
  succeeds : a.Succeeds blake3 ↔ P
  pays : a.Succeeds blake3 → (a.before.balance (bond.address blake3)).toNat =
    ((a.after blake3).balance (bond.address blake3)).toNat + taken
  keeps : (a.after blake3).balance (other.address blake3) = a.before.balance (other.address blake3)

/-- The bond that paid is known by a positive amount. -/
theorem SlashSpec.debits_iff {reason : SlashReason} {id : Bytes32} {bond other : Account} {P : Prop}
    {taken : Nat} (h : SlashSpec blake3 ⟨.slashSequencer reason id, s⟩ bond other P taken)
    (hbonds : ∀ b, b ∈ [Account.sequencerBond, Account.safetyBond] ↔ b = bond ∨ b = other)
    (hpos : 0 < amount) :
    Applied.Debits blake3 hash amount ⟨.slashSequencer reason id, s⟩ ↔
      id = hash ∧ P ∧ amount = taken := by
  constructor
  · rintro ⟨hok, ⟨reason', hintent⟩, b, hb, hdebit⟩
    cases hintent
    refine ⟨rfl, h.succeeds.mp hok, ?_⟩
    have hpays := h.pays hok
    rcases (hbonds b).mp hb with rfl | rfl
    · omega
    · rw [h.keeps] at hdebit
      omega
  · rintro ⟨rfl, hP, rfl⟩
    have hok := h.succeeds.mpr hP
    exact ⟨hok, ⟨reason, rfl⟩, bond, (hbonds bond).mpr (Or.inl rfl), h.pays hok⟩

theorem missed_spec (hres : ReservedDistinct blake3) (s : InMemorySubstrate) (id : Bytes32) :
    SlashSpec blake3 ⟨.slashSequencer .missedForceInclude id, s⟩ .sequencerBond .safetyBond
      (SlashesMissed blake3 s id)
      (livenessSlashAmount (s.balance (sequencerBondAddress blake3))).toNat := by
  have hrun : applyIntent blake3 (.slashSequencer .missedForceInclude id) s =
      (settleObligation blake3 id .slashed >>= fun o => slashLivenessBond blake3 o.submitter) s := rfl
  have hkeeps := (applyIntent_touches hres s (.slashSequencer .missedForceInclude id)).balance_eq
    (a := .safetyBond) (by simp [Intent.footprint]) List.not_mem_nil
  have hguarded : Guarded (settleObligation blake3 id .slashed) s _ :=
    settleObligation_guarded id .slashed
  rcases hguarded with ⟨map, obligation, hdec, hget, hpending, hr⟩ | ⟨hnone, e, hr⟩
  · rw [bind_run_ok hr] at hrun
    have hcases := slashLivenessBond_cases (s := s.writeBytesUnchecked
      (forceIncludeRegistryAddress blake3) (ForceInclude.encodeMap
        (map.insert id { obligation with status := .slashed }))) hres obligation.submitter
    rw [lateLivenessSlash_writeBytes] at hcases
    have hiff : SlashesMissed blake3 s id ↔ ¬ LateLivenessSlash blake3 s obligation.submitter := by
      constructor
      · rintro ⟨map', obligation', hdec', hget', -, hfit⟩
        cases hdec.symm.trans hdec'
        cases hget.symm.trans hget'
        exact hfit
      · exact fun hfit => ⟨map, obligation, hdec, hget, hpending, hfit⟩
    refine ⟨?_, fun hok => ?_, hkeeps⟩
    · rw [hiff, Applied.Succeeds, hrun]
      constructor
      · intro hok hlate
        obtain ⟨e, t, herr, -⟩ := hcases.2 hlate
        rw [herr] at hok
        cases hok
      · intro hfit
        obtain ⟨t, ht⟩ := hcases.1 hfit
        rw [ht]
    · have htakes := slashLivenessBond_takes hres (hrun.symm.trans (Applied.succeeds_iff.mp hok))
      rwa [balance_writeBytesUnchecked] at htakes
  · rw [bind_run_error hr] at hrun
    have hfail : ¬ Applied.Succeeds blake3 ⟨.slashSequencer .missedForceInclude id, s⟩ := by
      rw [Applied.Succeeds, hrun]
      exact fun h => by cases h
    refine ⟨iff_of_false hfail ?_, fun hok => absurd hok hfail, hkeeps⟩
    rintro ⟨map, obligation, hdec, hget, hpending, -⟩
    exact hnone _ ⟨map, obligation, hdec, hget, hpending, rfl⟩

theorem offense_spec (hres : ReservedDistinct blake3) (s : InMemorySubstrate) (id : Bytes32)
    {kind : OffenseKind} {reason : SlashReason}
    (hrun : applyIntent blake3 (.slashSequencer reason id) = applySlashOffense blake3 kind id)
    (hpools : Account.sequencerBond ∉ (Intent.slashSequencer reason id).footprint.pools)
    (hungated : (Intent.slashSequencer reason id).footprint.ungated = []) :
    SlashSpec blake3 ⟨.slashSequencer reason id, s⟩ .safetyBond .sequencerBond
      (SlashesOffense blake3 s id) (s.balance (safetyBondAddress blake3)).toNat := by
  have hkeeps := (applyIntent_touches hres s (.slashSequencer reason id)).balance_eq hpools
    (by simp [hungated])
  have hguarded : Guarded (applySlashOffense blake3 kind id) s _ := applySlashOffense_guarded kind id
  rw [← hrun] at hguarded
  rcases hguarded with ⟨map, hdec, hfree, hr⟩ | ⟨hnone, e, hr⟩
  · have hcases := forfeitSafetyBond_cases (s := s.writeBytesUnchecked
      (equivocationRegistryAddress blake3) (EquivocationRegistry.encode (map.insert id ⟨kind, 0⟩))) hres
    rw [lateForfeit_writeBytes] at hcases
    have hiff : SlashesOffense blake3 s id ↔ ¬ LateForfeit blake3 s :=
      ⟨fun ⟨_, _, _, hfit⟩ => hfit, fun hfit => ⟨map, hdec, hfree, hfit⟩⟩
    refine ⟨?_, fun hok => ?_, hkeeps⟩
    · rw [hiff, Applied.Succeeds, hr]
      constructor
      · intro hok hlate
        obtain ⟨e, t, herr, -⟩ := hcases.2 hlate
        rw [herr] at hok
        cases hok
      · intro hfit
        obtain ⟨t, ht⟩ := hcases.1 hfit
        rw [ht]
    · have htakes := forfeitSafetyBond_takes hres (hr.symm.trans (Applied.succeeds_iff.mp hok))
      rwa [balance_writeBytesUnchecked] at htakes
  · have hfail : ¬ Applied.Succeeds blake3 ⟨.slashSequencer reason id, s⟩ := by
      rw [Applied.Succeeds, hr]
      exact fun h => by cases h
    refine ⟨iff_of_false hfail ?_, fun hok => absurd hok hfail, hkeeps⟩
    rintro ⟨map, hdec, hfree, -⟩
    exact hnone _ ⟨map, hdec, hfree, rfl⟩

/-- **What a slash takes** is read off the state it finds. -/
theorem debits_iff_takes (hres : ReservedDistinct blake3) (hpos : 0 < amount) (a : Applied) :
    a.Debits blake3 hash amount ↔ a.Takes blake3 hash amount := by
  obtain ⟨intent, s⟩ := a
  cases intent with
  | slashSequencer reason id =>
    cases reason with
    | missedForceInclude => exact (missed_spec hres s id).debits_iff (by simp) hpos
    | equivocation =>
      exact (offense_spec hres s id rfl (by simp [Intent.footprint]) rfl).debits_iff
        (by simp [or_comm]) hpos
    | invalidBatch =>
      exact (offense_spec hres s id rfl (by simp [Intent.footprint]) rfl).debits_iff
        (by simp [or_comm]) hpos
    | downtime =>
      -- a slash for downtime does nothing
      refine iff_of_false ?_ (fun h => h)
      rintro ⟨-, -, bond, -, hdebit⟩
      have hsame : (s.balance (bond.address blake3)).toNat =
        (s.balance (bond.address blake3)).toNat + amount := hdebit
      omega
  | _ =>
    refine iff_of_false ?_ id
    rintro ⟨-, ⟨reason, hintent⟩, -⟩
    cases hintent

end Slash

/-! ## Distribution -/

section Distribution

variable {blake3 : List UInt8 → Bytes32} {s : InMemorySubstrate} {a : Applied} {d : Distribution}

/-- The application distributed. -/
def Applied.PaysOut (blake3 : List UInt8 → Bytes32) (d : Distribution) (a : Applied) : Prop :=
  a.intent = d.intent ∧ a.Succeeds blake3

theorem distribution_succeeds_iff :
    (applyIntent blake3 d.intent s).1 = .ok () ↔ d.Passes blake3 s := by
  have hrun : applyIntent blake3 d.intent s =
      (rejectReserved blake3 .reservedAddressInCounterparties (d.counterparties.map Prod.fst)
        >>= fun _ => creditEach (slashedFundsCredits blake3 d.counterparties d.insuranceShare
          d.treasuryShare)) s := rfl
  constructor
  · intro hok
    rcases hr : applyIntent blake3 d.intent s with ⟨e | ⟨⟨⟩⟩, t⟩
    · rw [hr] at hok
      cases hok
    obtain ⟨_, u, hgate, hcredits⟩ := bind_eq_ok_iff.mp (hrun.symm.trans hr)
    obtain ⟨husers, rfl⟩ := Footprint.rejectReserved_eq_ok hgate
    refine ⟨fun c hc => husers c.1 (List.mem_map_of_mem hc), fun addr => ?_⟩
    have hsum := creditEach_balance hcredits addr
    have hlt := (t.balance addr).isLt
    omega
  · rintro ⟨husers, hfits⟩
    obtain ⟨t, ht⟩ := creditEach_ok hfits
    have hfind : (d.counterparties.map Prod.fst).find? (isReserved blake3) = none := by
      rw [List.find?_eq_none]
      intro addr haddr
      obtain ⟨c, hc, rfl⟩ := List.mem_map.mp haddr
      exact husers c hc
    have hgate : rejectReserved blake3 .reservedAddressInCounterparties
        (d.counterparties.map Prod.fst) s = (.ok (), s) := by
      rw [rejectReserved, fetch_run, hfind]
    rw [hrun, bind_run_ok hgate, ht]

theorem paysOut_iff : a.PaysOut blake3 d ↔ a.intent = d.intent ∧ d.Passes blake3 a.before := by
  refine and_congr_right fun h => ?_
  rw [Applied.Succeeds, h, distribution_succeeds_iff]

/-- A distribution of a positive total is the first one for its slash event, and distributes what a
    slash for the event has taken. -/
def BackedOnce (blake3 : List UInt8 → Bytes32) (past : List Applied) (a : Applied) : Prop :=
  ∀ d : Distribution, a.PaysOut blake3 d → 0 < d.total →
    (∀ c ∈ past, ∀ d' : Distribution, c.PaysOut blake3 d' → 0 < d'.total →
      d'.slashEventId ≠ d.slashEventId) ∧
    ∃ c ∈ past, c.Debits blake3 d.slashEventId d.total

/-- The intent asks for a positive distribution that the substrate lets pass. -/
def Applied.Asks (blake3 : List UInt8 → Bytes32) (d : Distribution) (a : Applied) : Prop :=
  a.intent = d.intent ∧ 0 < d.total ∧ d.Passes blake3 a.before

/-- What those who submit the intents have to see to: a distribution that would pass is submitted for
    an event that none was submitted for, and asks for what a slash of the event took. -/
def Adjudicated (blake3 : List UInt8 → Bytes32) (past : List Applied) (a : Applied) : Prop :=
  ∀ d : Distribution, a.Asks blake3 d →
    (∀ c ∈ past, ∀ d' : Distribution, c.Asks blake3 d' → d'.slashEventId ≠ d.slashEventId) ∧
    ∃ c ∈ past, c.Takes blake3 d.slashEventId d.total

theorem asks_iff : a.Asks blake3 d ↔ a.PaysOut blake3 d ∧ 0 < d.total := by
  rw [paysOut_iff, Applied.Asks, and_right_comm, and_assoc]

/-- A safety bond of 100 is forfeited, and the 100 are distributed. -/
def forfeitAndDistribute : List SubstrateCall :=
  [ .applyIntent (.genesisAllocation [(1, 100)]), .applyIntent (.depositSafetyBond 1 100),
    .applyIntent (.slashSequencer .equivocation 7),
    .applyIntent (.distributeSlashedFunds 7 [(2, 60)] 30 10) ]

end Distribution

end SuwappuDag.Execution
