/-
  THE RESERVE-COVERAGE BREAKER (`suwappu-precompiles/src/reserve.rs`) — minting only what the attested
  reserves cover.

  1. **Program** — a rule per (issuer, asset) pair; `submit_attestation` stores an attestation that
     passes the rule, over whatever is stored; `can_mint` asks for a stored attestation that is not too
     old and covers the outstanding supply of NOW; `mint_with_coverage` asks `can_mint` for the supply
     it is about to create, and mints.
  2. **Specification** — two laws over runs of all calls on one checker and one registry: a pair whose
     attestation has failed mints nothing before the next one that passes, and a mint rests on the
     newest accepted attestation, at a round inside its window.
  3. **Crux** — the checker keeps ONE attestation per pair and no trace of a failure.  A failed
     submission pauses minting only where nothing is stored (`breaker_trips_iff`); and what is stored
     is the newest only if the submissions came in order, because `submit_attestation` does not compare
     rounds and the age test saturates (`mints_rest_on_freshest`).
-/
import SuwappuDag.Precompiles.Issuer

namespace SuwappuDag.Precompiles

open Words Command Runs MapSum
open Std (ExtTreeMap)

inductive CoverageRule where
  /-- Reserves at least the outstanding supply. -/
  | oneToOnePar
  /-- `reserves × 10_000 ≥ outstanding × basis_points`. -/
  | navStrike (basisPoints : UInt32)
  | jurisdiction (ratioBps : UInt32)
deriving DecidableEq

inductive DisclosureTier where
  | f1Aggregate
  | f2BroadCategory
  | f3DetailedCategory
  | f4Cusip
  | f5CusipThreshold
deriving DecidableEq

structure ReserveAttestation where
  issuer : IssuerId
  asset : AssetId
  totalReserves : Amount
  outstandingAtAttestation : Amount
  attestedAt : UInt64
  schemaVersion : UInt32
  tier : DisclosureTier
  commitment : Bytes32
  /-- Stored, never looked at. -/
  proof : List UInt8
deriving DecidableEq

inductive CoverageError where
  | noRule
  | predicateFailed (reserves outstanding : Amount) (rule : CoverageRule)
  | noFreshAttestation
  | overflow
deriving DecidableEq

inductive GatedMintError where
  | coverage (e : CoverageError)
  | issuer (e : IssuerError)
deriving DecidableEq

/-! ## The checker -/

/-- Reserves against a share of the outstanding supply, in basis points. -/
def ratioCovered (reserves outstanding : Amount) (bps : UInt32) : Except CoverageError Bool := do
  let lhs ← okOr (checkedMul reserves 10000) .overflow
  let rhs ← okOr (checkedMul outstanding (BitVec.ofNat 128 bps.toNat)) .overflow
  return decide (lhs ≥ rhs)

def covered (rule : CoverageRule) (reserves outstanding : Amount) : Except CoverageError Bool :=
  match rule with
  | .oneToOnePar => .ok (decide (reserves ≥ outstanding))
  | .navStrike basisPoints => ratioCovered reserves outstanding basisPoints
  | .jurisdiction ratioBps => ratioCovered reserves outstanding ratioBps

def predicateSatisfied (rule : CoverageRule) (reserves outstanding : Amount) :
    Except CoverageError Unit := do
  let ok ← covered rule reserves outstanding
  if ok then .ok () else .error (.predicateFailed reserves outstanding rule)

def defaultAttestationTtlRounds : UInt64 := 10000

/-- The key of the checker's maps: issuer first, asset second. -/
abbrev CoverageKey := IssuerId ×ₗ AssetId

structure ReserveCoverageChecker where
  rules : ExtTreeMap CoverageKey CoverageRule
  latest : ExtTreeMap CoverageKey ReserveAttestation
  ttlRounds : UInt64

/-- `now.saturating_sub(attested_at)`: no age at all for an attestation from the future. -/
def age (now attestedAt : UInt64) : UInt64 := if attestedAt ≤ now then now - attestedAt else 0

namespace ReserveCoverageChecker

def withTtl (ttlRounds : UInt64) : ReserveCoverageChecker := ⟨∅, ∅, ttlRounds⟩

def new : ReserveCoverageChecker := withTtl defaultAttestationTtlRounds

variable (c : ReserveCoverageChecker)

/-- The rule of a pair. -/
def rule (issuer : IssuerId) (asset : AssetId) : Option CoverageRule :=
  c.rules[(toLex (issuer, asset) : CoverageKey)]?

/-- The stored attestation of a pair. -/
def stored (issuer : IssuerId) (asset : AssetId) : Option ReserveAttestation :=
  c.latest[(toLex (issuer, asset) : CoverageKey)]?

def setRule (issuer : IssuerId) (asset : AssetId) (rule : CoverageRule) : ReserveCoverageChecker :=
  { c with rules := c.rules.insert (toLex (issuer, asset)) rule }

def canMint (issuer : IssuerId) (asset : AssetId) (outstanding : Amount) (nowRound : UInt64) :
    Except CoverageError Unit := do
  let rule ← okOr (c.rule issuer asset) .noRule
  let attestation ← okOr (c.stored issuer asset) .noFreshAttestation
  if age nowRound attestation.attestedAt > c.ttlRounds then .error .noFreshAttestation
  predicateSatisfied rule attestation.totalReserves outstanding

end ReserveCoverageChecker

open ReserveCoverageChecker

def submitAttestation (attestation : ReserveAttestation) :
    Command CoverageError ReserveCoverageChecker Unit := do
  let rule ← fetch fun c => okOr (c.rule attestation.issuer attestation.asset) .noRule
  fetch fun _ =>
    predicateSatisfied rule attestation.totalReserves attestation.outstandingAtAttestation
  write fun c =>
    { c with latest := c.latest.insert (toLex (attestation.issuer, attestation.asset)) attestation }

def mintWithCoverage (checker : ReserveCoverageChecker) (issuer : IssuerId) (asset : AssetId)
    (amount : Amount) (nowRound : UInt64) : Command GatedMintError IssuerRegistry Unit := do
  let outstanding ← read fun r : IssuerRegistry => (r.supplyOf asset issuer).outstanding
  let projected ← fetch fun _ => okOr (checkedAdd outstanding amount) (.coverage .overflow)
  fetch fun _ => (checker.canMint issuer asset projected nowRound).mapError .coverage
  mapError .issuer (mint issuer asset amount)

/-! ## What the calls look at -/

@[simp] theorem toNat_age (now attestedAt : UInt64) :
    (age now attestedAt).toNat = now.toNat - attestedAt.toNat := by
  unfold age
  split
  · next h => exact UInt64.toNat_sub_of_le _ _ h
  · next h =>
    have := UInt64.lt_iff_toNat_lt.mp (not_le.mp h)
    show 0 = now.toNat - attestedAt.toNat
    omega

/-- The rule as exact integers. -/
def Covers : CoverageRule → Nat → Nat → Prop
  | .oneToOnePar, reserves, outstanding => outstanding ≤ reserves
  | .navStrike bps, reserves, outstanding => outstanding * bps.toNat ≤ reserves * 10000
  | .jurisdiction bps, reserves, outstanding => outstanding * bps.toNat ≤ reserves * 10000

section Checker

variable {c : ReserveCoverageChecker} {issuer : IssuerId} {asset : AssetId}

theorem covers_of_ratioCovered {reserves outstanding : Amount} {bps : UInt32}
    (h : ratioCovered reserves outstanding bps = .ok true) :
    outstanding.toNat * bps.toNat ≤ reserves.toNat * 10000 := by
  unfold ratioCovered at h
  obtain ⟨lhs, hlhs, h⟩ := except_bind_eq_ok_iff.mp h
  obtain ⟨rhs, hrhs, h⟩ := except_bind_eq_ok_iff.mp h
  have hl := checkedMul_eq_some_iff.mp (okOr_eq_ok_iff.mp hlhs)
  have hr := checkedMul_eq_some_iff.mp (okOr_eq_ok_iff.mp hrhs)
  have hbps : (BitVec.ofNat 128 bps.toNat).toNat = bps.toNat :=
    Nat.mod_eq_of_lt (bps.toNat_lt.trans (by decide))
  have hle := BitVec.le_def.mp (of_decide_eq_true (Except.ok.inj h))
  rw [hbps] at hr
  rw [hr, hl] at hle
  exact hle

/-- A rule that passes holds as exact integers. -/
theorem covers_of_predicateSatisfied {rule : CoverageRule} {reserves outstanding : Amount}
    (h : predicateSatisfied rule reserves outstanding = .ok ()) :
    Covers rule reserves.toNat outstanding.toNat := by
  obtain ⟨ok, hok, h⟩ := except_bind_eq_ok_iff.mp h
  cases ok with
  | false => cases h
  | true =>
    cases rule with
    | oneToOnePar => exact BitVec.le_def.mp (of_decide_eq_true (Except.ok.inj hok))
    | navStrike bps => exact covers_of_ratioCovered hok
    | jurisdiction bps => exact covers_of_ratioCovered hok

theorem canMint_eq_ok_iff {outstanding : Amount} {nowRound : UInt64} :
    c.canMint issuer asset outstanding nowRound = .ok () ↔
      ∃ rule attestation, c.rule issuer asset = some rule ∧
        c.stored issuer asset = some attestation ∧
        nowRound.toNat ≤ attestation.attestedAt.toNat + c.ttlRounds.toNat ∧
        predicateSatisfied rule attestation.totalReserves outstanding = .ok () := by
  unfold canMint
  cases hrule : c.rule issuer asset with
  | none => simp [okOr, bind, Except.bind]
  | some rule =>
    cases hstored : c.stored issuer asset with
    | none => simp [okOr, bind, Except.bind]
    | some attestation =>
      have hage : age nowRound attestation.attestedAt > c.ttlRounds ↔
          ¬ nowRound.toNat ≤ attestation.attestedAt.toNat + c.ttlRounds.toNat := by
        rw [gt_iff_lt, UInt64.lt_iff_toNat_lt, toNat_age]
        omega
      simp only [okOr, bind, Except.bind, Option.some.injEq, exists_and_left, exists_eq_left',
        ↓existsAndEq, true_and, hage]
      by_cases hold : nowRound.toNat ≤ attestation.attestedAt.toNat + c.ttlRounds.toNat
      · simp [hold]
      · simp [hold]

theorem submitAttestation_guarded (attestation : ReserveAttestation) :
    Guarded (submitAttestation attestation) c (fun out => ∃ rule,
      c.rule attestation.issuer attestation.asset = some rule ∧
      predicateSatisfied rule attestation.totalReserves attestation.outstandingAtAttestation = .ok () ∧
      out = (.ok (), { c with
        latest := c.latest.insert (toLex (attestation.issuer, attestation.asset)) attestation })) := by
  refine (guarded_fetch_bind fun rule _ => guarded_fetch_bind fun _ _ =>
    guarded_run _ _).congr fun out => ?_
  simp only [okOr_eq_ok_iff, write_run]
  exact exists_congr fun rule => and_congr_right fun _ => Unique.exists_iff

/-- A submission writes only where the rule passes. -/
theorem submitAttestation_eq (attestation : ReserveAttestation) :
    (∃ rule, c.rule attestation.issuer attestation.asset = some rule ∧ predicateSatisfied rule
        attestation.totalReserves attestation.outstandingAtAttestation = .ok () ∧
      submitAttestation attestation c = (.ok (), { c with
        latest := c.latest.insert (toLex (attestation.issuer, attestation.asset)) attestation })) ∨
    ∃ e, submitAttestation attestation c = (.error e, c) :=
  (submitAttestation_guarded attestation).imp id fun h => h.2

/-- What a mint that passes has seen. -/
theorem mintWithCoverage_guarded {r : IssuerRegistry} {amount : Amount} {nowRound : UInt64} :
    Guarded (mintWithCoverage c issuer asset amount nowRound) r (fun out => ∃ projected : Amount,
      projected.toNat = (r.supplyOf asset issuer).outstanding.toNat + amount.toNat ∧
      c.canMint issuer asset projected nowRound = .ok () ∧
      out = mapError .issuer (mint issuer asset amount) r) := by
  refine (guarded_read_bind <| guarded_fetch_bind fun projected _ => guarded_fetch_bind fun _ _ =>
    guarded_run _ _).congr fun out => exists_congr fun projected => ?_
  rw [okOr_eq_ok_iff, checkedAdd_eq_some_iff]
  refine and_congr_right fun _ => ⟨fun ⟨u, hmint, hout⟩ => ⟨?_, hout⟩, fun ⟨hmint, hout⟩ => ⟨(), ?_, hout⟩⟩
  · cases hcan : c.canMint issuer asset projected nowRound with
    | error e => rw [hcan] at hmint; cases hmint
    | ok u => rfl
  · rw [hmint]
    rfl

/-- A gated mint that fails has moved no supply; one that passes has moved one, by the amount, and the
    rule holds for what is outstanding THEN. -/
theorem mintWithCoverage_cases {r : IssuerRegistry} (h : Solvent r) (issuer : IssuerId)
    (asset : AssetId) (amount : Amount) (nowRound : UInt64) :
    (∃ e r', mintWithCoverage c issuer asset amount nowRound r = (.error e, r') ∧
      ∀ a i, r'.supplyOf a i = r.supplyOf a i) ∨
    ∃ r', mintWithCoverage c issuer asset amount nowRound r = (.ok (), r') ∧
      (r'.supplyOf asset issuer).outstanding.toNat =
        (r.supplyOf asset issuer).outstanding.toNat + amount.toNat ∧
      (∀ a i, ¬ (asset = a ∧ issuer = i) → r'.supplyOf a i = r.supplyOf a i) ∧
      ∃ rule attestation, c.rule issuer asset = some rule ∧ c.stored issuer asset = some attestation ∧
        Covers rule attestation.totalReserves.toNat (r'.supplyOf asset issuer).outstanding.toNat := by
  have hguard : Guarded (mintWithCoverage c issuer asset amount nowRound) r _ :=
    mintWithCoverage_guarded
  rcases hguard with ⟨projected, hprojected, hcan, hout⟩ | ⟨-, e, he⟩
  · rw [hout]
    rcases mint_cases with ⟨e, hrun⟩ | ⟨e, record, -, hrun⟩ | ⟨record, minted, -, hminted, -, hrun⟩
    · exact .inl ⟨_, r, mapError_run_error hrun, fun _ _ => rfl⟩
    · exact .inl ⟨_, _, mapError_run_error hrun, fun _ _ => IssuerRegistry.supplyOf_touch _ _⟩
    · refine .inr ⟨_, mapError_run_ok hrun, ?_⟩
      have hself : (r.setSupply asset issuer { r.supplyOf asset issuer with
          totalMinted := minted }).supplyOf asset issuer = _ :=
        (IssuerRegistry.supplyOf_setSupply _ asset issuer).trans (if_pos ⟨rfl, rfl⟩)
      have hgrown : ((r.setSupply asset issuer { r.supplyOf asset issuer with
          totalMinted := minted }).supplyOf asset issuer).outstanding.toNat =
            (r.supplyOf asset issuer).outstanding.toNat + amount.toNat := by
        have hsolvent := h asset issuer
        rw [hself]
        simp only [AssetSupply.outstanding, toNat_saturatingSub]
        omega
      refine ⟨hgrown, fun a i hne => (IssuerRegistry.supplyOf_setSupply _ a i).trans (if_neg hne), ?_⟩
      obtain ⟨rule, attestation, hrule, hstored, -, hpass⟩ := canMint_eq_ok_iff.mp hcan
      refine ⟨rule, attestation, hrule, hstored, ?_⟩
      rw [hgrown, ← hprojected]
      exact covers_of_predicateSatisfied hpass
  · exact .inl ⟨e, r, he, fun _ _ => rfl⟩

end Checker

/-! ## Runs -/

/-- One checker and one registry. -/
structure Treasury where
  checker : ReserveCoverageChecker
  registry : IssuerRegistry

inductive CoverageCall where
  | setRule (issuer : IssuerId) (asset : AssetId) (rule : CoverageRule)
  | submitAttestation (attestation : ReserveAttestation)
  | mintWithCoverage (issuer : IssuerId) (asset : AssetId) (amount : Amount) (nowRound : UInt64)
  /-- A call on the registry alone: a registration, a plain mint, either phase of a burn. -/
  | registry (call : IssuerCall)

def coverageStep (s : Treasury) : CoverageCall → Treasury
  | .setRule issuer asset rule => { s with checker := s.checker.setRule issuer asset rule }
  | .submitAttestation attestation =>
    { s with checker := (submitAttestation attestation s.checker).2 }
  | .mintWithCoverage issuer asset amount nowRound =>
    { s with registry := (mintWithCoverage s.checker issuer asset amount nowRound s.registry).2 }
  | .registry call => { s with registry := issuerStep s.registry call }

abbrev CoverageEvent := Event Treasury CoverageCall

/-- The submission of the attestation returned `Ok`. -/
def Accepts (a : CoverageEvent) (attestation : ReserveAttestation) : Prop :=
  a.event = .submitAttestation attestation ∧
    (submitAttestation attestation a.before.checker).1 = .ok ()

/-- The gated mint returned `Ok`. -/
def Mints (a : CoverageEvent) (issuer : IssuerId) (asset : AssetId) (amount : Amount)
    (nowRound : UInt64) : Prop :=
  a.event = .mintWithCoverage issuer asset amount nowRound ∧
    (mintWithCoverage a.before.checker issuer asset amount nowRound a.before.registry).1 = .ok ()

section Events

variable {a : CoverageEvent} {issuer : IssuerId} {asset : AssetId}

/-- A mint rests on the stored attestation. -/
theorem Mints.stored {amount : Amount} {nowRound : UInt64} (h : Mints a issuer asset amount nowRound) :
    ∃ attestation, a.before.checker.stored issuer asset = some attestation ∧
      nowRound.toNat ≤ attestation.attestedAt.toNat + a.before.checker.ttlRounds.toNat := by
  obtain ⟨-, hok⟩ := h
  rcases hrun : mintWithCoverage a.before.checker issuer asset amount nowRound a.before.registry with
    ⟨e | u, r'⟩
  · rw [hrun] at hok
    cases hok
  · obtain ⟨projected, -, hcan, -⟩ := mintWithCoverage_guarded.ok hrun
    obtain ⟨rule, attestation, -, hstored, hage, -⟩ := canMint_eq_ok_iff.mp hcan
    exact ⟨attestation, hstored, hage⟩

/-- The only step that changes what is stored: an accepted submission, for its own pair. -/
theorem stored_coverageStep (a : CoverageEvent) (issuer : IssuerId) (asset : AssetId) :
    (∃ attestation, Accepts a attestation ∧ attestation.issuer = issuer ∧ attestation.asset = asset ∧
      (coverageStep a.before a.event).checker.stored issuer asset = some attestation) ∨
    ((∀ attestation, Accepts a attestation →
        ¬ (attestation.issuer = issuer ∧ attestation.asset = asset)) ∧
      (coverageStep a.before a.event).checker.stored issuer asset =
        a.before.checker.stored issuer asset) := by
  obtain ⟨call, s⟩ := a
  have hother : (∀ att, call ≠ .submitAttestation att) → ∀ attestation,
      Accepts ⟨call, s⟩ attestation → ¬ (attestation.issuer = issuer ∧ attestation.asset = asset) :=
    fun hne attestation hacc => absurd hacc.1 (hne attestation)
  cases call with
  | setRule i b rule => exact .inr ⟨hother fun att => by simp, rfl⟩
  | mintWithCoverage i b amount now => exact .inr ⟨hother fun att => by simp, rfl⟩
  | registry call => exact .inr ⟨hother fun att => by simp, rfl⟩
  | submitAttestation att =>
    rcases submitAttestation_eq (c := s.checker) att with ⟨rule, hrule, hpass, hrun⟩ | ⟨e, hrun⟩
    · have hstored : (coverageStep s (.submitAttestation att)).checker.stored issuer asset =
          if att.issuer = issuer ∧ att.asset = asset then some att
          else s.checker.stored issuer asset := by
        show (submitAttestation att s.checker).2.latest[(toLex (issuer, asset) : CoverageKey)]? = _
        rw [hrun, ExtTreeMap.getElem?_insert]
        simp only [Std.compare_eq_iff_eq, EmbeddingLike.apply_eq_iff_eq, Prod.mk.injEq]
        rfl
      by_cases hpair : att.issuer = issuer ∧ att.asset = asset
      · rw [if_pos hpair] at hstored
        exact .inl ⟨att, ⟨rfl, by rw [hrun]⟩, hpair.1, hpair.2, hstored⟩
      · rw [if_neg hpair] at hstored
        refine .inr ⟨?_, hstored⟩
        rintro attestation ⟨hcall, -⟩
        cases hcall
        exact hpair
    · refine .inr ⟨?_, ?_⟩
      · rintro attestation ⟨hcall, hok⟩
        cases hcall
        rw [hrun] at hok
        cases hok
      · show (submitAttestation att s.checker).2.stored issuer asset = _
        rw [hrun]

end Events

/-! ## The breaker -/

/-- An attestation of the pair has been accepted. -/
def PassedBefore (issuer : IssuerId) (asset : AssetId) (past : List CoverageEvent) : Prop :=
  ∃ b ∈ past, ∃ attestation, Accepts b attestation ∧ attestation.issuer = issuer ∧
    attestation.asset = asset

/-- A mint of a positive amount of the pair comes after an accepted attestation. -/
def PausedUntil (issuer : IssuerId) (asset : AssetId) (past : List CoverageEvent) (a : CoverageEvent) :
    Prop :=
  ∀ amount nowRound, 0 < amount → Mints a issuer asset amount nowRound → PassedBefore issuer asset past

section Breaker

variable {c : ReserveCoverageChecker} {issuer : IssuerId} {asset : AssetId}

/-- **The run behind an empty checker**: nothing is stored for the pair, or something was accepted. -/
theorem paused_of_none (hnone : c.stored issuer asset = none) (registry : IssuerRegistry)
    (calls : List CoverageCall) :
    Chronicle (PausedUntil issuer asset) (trace coverageStep calls ⟨c, registry⟩) ∧
      ((calls.foldl coverageStep ⟨c, registry⟩).checker.stored issuer asset = none ∨
        PassedBefore issuer asset (trace coverageStep calls ⟨c, registry⟩)) := by
  refine trace_invariant (I := fun l s => Chronicle (PausedUntil issuer asset) l ∧
    (s.checker.stored issuer asset = none ∨ PassedBefore issuer asset l))
    ⟨chronicle_nil, .inl hnone⟩ ?_ calls
  rintro l s call ⟨hpast, hstate⟩
  refine ⟨hpast.concat ?_, ?_⟩
  · intro amount nowRound _ hmint
    obtain ⟨attestation, hstored, -⟩ := hmint.stored
    refine hstate.resolve_left fun hempty => ?_
    rw [hempty] at hstored
    cases hstored
  · rcases stored_coverageStep ⟨call, s⟩ issuer asset with ⟨att, hacc, hi, ha, -⟩ | ⟨-, hkeep⟩
    · exact .inr ⟨_, List.mem_append_right _ List.mem_cons_self, att, hacc, hi, ha⟩
    · refine hstate.imp hkeep.trans ?_
      rintro ⟨b, hb, hpassed⟩
      exact ⟨b, List.mem_append_left _ hb, hpassed⟩

/-- Some rule covers one token, whatever the reserves are. -/
theorem some_rule_passes (reserves : Amount) : ∃ rule, predicateSatisfied rule reserves 1 = .ok () := by
  by_cases h : reserves = 0
  · exact ⟨.jurisdiction 0, by rw [h]; decide⟩
  · have hone : 1 ≤ reserves.toNat := Nat.one_le_iff_ne_zero.mpr fun hz => h (BitVec.eq_of_toNat_eq hz)
    have hcovered : covered .oneToOnePar reserves 1 = .ok true :=
      congrArg Except.ok (decide_eq_true (BitVec.le_def.mpr hone))
    exact ⟨.oneToOnePar, except_bind_eq_ok_iff.mpr ⟨true, hcovered, rfl⟩⟩

/-- The first token of an issuer with a cap is minted wherever the breaker lets it through. -/
theorem mintWithCoverage_first {r : IssuerRegistry} {record : Issuer} {nowRound : UInt64}
    (hrecord : r.issuers[issuer]? = some record) (hcap : record.delegationCap = 1)
    (hsupply : r.supply = ∅) (hcan : c.canMint issuer asset 1 nowRound = .ok ()) :
    (mintWithCoverage c issuer asset 1 nowRound r).1 = .ok () := by
  have hnone : r.supplyOf asset issuer = .default := by
    rw [IssuerRegistry.supplyOf, hsupply, ExtTreeMap.getElem?_empty]
    rfl
  have htotal : r.outstandingTotal issuer = 0 := by
    rw [IssuerRegistry.outstandingTotal, hsupply, weigh_empty]
  obtain ⟨r', hmint⟩ : ∃ r', mint issuer asset 1 r = (.ok (), r') := by
    refine mint_ok hrecord ?_ ?_
    · rw [htotal, hcap]
      decide
    · rw [hnone]
      decide
  have hprojected : (1 : Amount).toNat =
      (r.supplyOf asset issuer).outstanding.toNat + (1 : Amount).toNat := by
    rw [hnone]
    decide
  obtain ⟨_, -, -, hout⟩ := mintWithCoverage_guarded.of_exists
    ⟨1, hprojected, hcan, (mapError_run_ok hmint).symm⟩
  rw [hout, mapError_run_ok hmint]

/-- **A stored attestation mints on**: the rule may be set so that it covers one token. -/
theorem mints_of_stored {attestation : ReserveAttestation}
    (hstored : c.stored issuer asset = some attestation) : ∃ calls,
    ¬ Chronicle (PausedUntil issuer asset) (trace coverageStep calls ⟨c, .withSla 0⟩) := by
  obtain ⟨rule, hrule⟩ := some_rule_passes attestation.totalReserves
  let record : Issuer := ⟨issuer, 0, 1, 0, 0⟩
  refine ⟨[.registry (.register record), .setRule issuer asset rule,
    .mintWithCoverage issuer asset 1 attestation.attestedAt], fun hlaw => ?_⟩
  have hmint : (mintWithCoverage (c.setRule issuer asset rule) issuer asset 1 attestation.attestedAt
      (issuerStep (.withSla 0) (.register record))).1 = .ok () := by
    have hnew : record.id ∉ (IssuerRegistry.withSla 0).issuers := by simp [IssuerRegistry.withSla]
    obtain ⟨-, hregister⟩ := (register_guarded record).of_exists ⟨hnew, rfl⟩
    have hregistry : issuerStep (.withSla 0) (.register record) = { IssuerRegistry.withSla 0 with
        issuers := (IssuerRegistry.withSla 0).issuers.insert record.id record } :=
      congrArg Prod.snd (bind_run_ok (mapError_run_ok hregister))
    rw [hregistry]
    exact mintWithCoverage_first ExtTreeMap.getElem?_insert_self rfl rfl (canMint_eq_ok_iff.mpr
      ⟨rule, attestation, ExtTreeMap.getElem?_insert_self, hstored, Nat.le_add_right _ _, hrule⟩)
  obtain ⟨b, hb, att, hacc, -⟩ :=
    hlaw [_, _] _ [] rfl 1 attestation.attestedAt (by decide) ⟨rfl, hmint⟩
  -- neither of the two calls before the mint is a submission
  rcases List.mem_cons.mp hb with rfl | hb
  · cases hacc.1
  · cases List.mem_singleton.mp hb
    cases hacc.1

end Breaker

/-- **When the breaker trips**: behind a submission that fails the rule, minting is paused until the
    next one that passes exactly where nothing is stored for the pair. -/
theorem breaker_trips_iff (c : ReserveCoverageChecker) (attestation : ReserveAttestation)
    (reserves outstanding : Amount) (rule : CoverageRule)
    (hfail : (submitAttestation attestation c).1 =
      .error (.predicateFailed reserves outstanding rule)) :
    (∀ registry calls, Chronicle (PausedUntil attestation.issuer attestation.asset)
      (trace coverageStep calls ⟨(submitAttestation attestation c).2, registry⟩)) ↔
    c.stored attestation.issuer attestation.asset = none := by
  have hsame : (submitAttestation attestation c).2 = c := by
    rcases submitAttestation_eq (c := c) attestation with ⟨_, -, -, hrun⟩ | ⟨e, hrun⟩
    · rw [hrun] at hfail
      cases hfail
    · rw [hrun]
  rw [hsame]
  constructor
  · intro hlaw
    by_contra hsome
    obtain ⟨stored, hstored⟩ := Option.ne_none_iff_exists'.mp hsome
    obtain ⟨calls, hbroken⟩ := mints_of_stored hstored
    exact hbroken (hlaw _ calls)
  · exact fun hnone registry calls => (paused_of_none hnone registry calls).1

/-- An attestation of asset 7 by issuer 1. -/
def attest (reserves outstanding : Amount) (round : UInt64) : ReserveAttestation :=
  ⟨1, 7, reserves, outstanding, round, 1, .f1Aggregate, 0, []⟩

/-- A checker with the par rule for that pair. -/
def parChecker : ReserveCoverageChecker := (withTtl 100).setRule 1 7 .oneToOnePar

theorem breaker_trips_empty :
    (submitAttestation (attest 10 50 3) parChecker).1 = .error (.predicateFailed 10 50 .oneToOnePar) ∧
    ((∀ registry calls, Chronicle (PausedUntil 1 7)
      (trace coverageStep calls ⟨(submitAttestation (attest 10 50 3) parChecker).2, registry⟩)) ↔
    parChecker.stored 1 7 = none) :=
  ⟨by decide +kernel, breaker_trips_iff parChecker (attest 10 50 3) 10 50 .oneToOnePar (by decide +kernel)⟩

/-- An issuer with a cap of 100, the par rule, and an attestation that passes. -/
def passingOnce : List CoverageCall :=
  [.registry (.register ⟨1, 0, 100, 0, 0⟩), .setRule 1 7 .oneToOnePar,
   .submitAttestation (attest 100 50 3)]

/-- The next submission fails its predicate, and the next call mints 60 tokens on the first. -/
theorem breaker_does_not_trip :
    let s := passingOnce.foldl coverageStep ⟨.withTtl 100, .withSla 0⟩
    (submitAttestation (attest 10 50 4) s.checker).1 =
        .error (.predicateFailed 10 50 .oneToOnePar) ∧
      ¬ Chronicle (PausedUntil 1 7) (trace coverageStep [.mintWithCoverage 1 7 60 5]
        ⟨(submitAttestation (attest 10 50 4) s.checker).2, s.registry⟩) := by
  intro s
  refine ⟨by decide +kernel, fun hlaw => ?_⟩
  obtain ⟨b, hb, -⟩ := hlaw [] _ [] rfl 60 5 (by decide) ⟨rfl, by decide +kernel⟩
  cases hb

/-! ## The freshest attestation -/

/-- The mint rests on a stored attestation that was accepted, is the newest of those accepted for the
    pair, and has the round of the mint in its window. -/
def RestsOnFreshest (ttl : UInt64) (past : List CoverageEvent) (a : CoverageEvent) : Prop :=
  ∀ issuer asset amount nowRound, Mints a issuer asset amount nowRound →
    ∃ used, a.before.checker.stored issuer asset = some used ∧
      (∃ b ∈ past, Accepts b used) ∧
      (∀ b ∈ past, ∀ attestation, Accepts b attestation → attestation.issuer = issuer →
        attestation.asset = asset → attestation.attestedAt ≤ used.attestedAt) ∧
      used.attestedAt.toNat ≤ nowRound.toNat ∧
      nowRound.toNat ≤ used.attestedAt.toNat + ttl.toNat

/-- The attestation satisfies the rule of its pair. -/
def Passes (c : ReserveCoverageChecker) (attestation : ReserveAttestation) : Prop :=
  ∃ rule ∈ c.rule attestation.issuer attestation.asset,
    predicateSatisfied rule attestation.totalReserves attestation.outstandingAtAttestation = .ok ()

instance (c : ReserveCoverageChecker) (attestation : ReserveAttestation) :
    Decidable (Passes c attestation) := inferInstanceAs (Decidable (∃ rule ∈ _, _))

/-- The call comes in order: a submission the rule passes is not older than the stored attestation of
    its pair, and a mint does not come before the round of the attestation it rests on. -/
def InOrder (s : Treasury) : CoverageCall → Prop
  | .submitAttestation attestation => Passes s.checker attestation →
    ∀ stored ∈ s.checker.stored attestation.issuer attestation.asset,
      stored.attestedAt ≤ attestation.attestedAt
  | .mintWithCoverage issuer asset _ nowRound =>
    ∀ stored ∈ s.checker.stored issuer asset, stored.attestedAt ≤ nowRound
  | .setRule .. => True
  | .registry _ => True

instance (s : Treasury) : ∀ call, Decidable (InOrder s call)
  | .submitAttestation attestation => inferInstanceAs (Decidable (Passes _ _ → ∀ stored ∈ _, _))
  | .mintWithCoverage .. => inferInstanceAs (Decidable (∀ stored ∈ _, _))
  | .setRule .. => .isTrue trivial
  | .registry _ => .isTrue trivial

/-- What is stored was accepted, and is the newest accepted one. -/
structure Freshest (ttl : UInt64) (l : List CoverageEvent) (s : Treasury) : Prop where
  ttl : s.checker.ttlRounds = ttl
  accepted : ∀ issuer asset used, s.checker.stored issuer asset = some used → ∃ b ∈ l, Accepts b used
  newest : ∀ b ∈ l, ∀ attestation, Accepts b attestation → ∃ used,
    s.checker.stored attestation.issuer attestation.asset = some used ∧
      attestation.attestedAt ≤ used.attestedAt

section Freshest

variable {ttl : UInt64} {l : List CoverageEvent} {a : CoverageEvent}

theorem ttlRounds_coverageStep (s : Treasury) (call : CoverageCall) :
    (coverageStep s call).checker.ttlRounds = s.checker.ttlRounds := by
  cases call with
  | setRule => rfl
  | mintWithCoverage => rfl
  | registry => rfl
  | submitAttestation att =>
    show (submitAttestation att s.checker).2.ttlRounds = _
    rcases submitAttestation_eq (c := s.checker) att with ⟨_, -, -, hrun⟩ | ⟨e, hrun⟩ <;> rw [hrun]

/-- A submission that comes in order is not older than what it replaces. -/
theorem Accepts.le {attestation stored : ReserveAttestation} (h : Accepts a attestation)
    (horder : InOrder a.before a.event)
    (hstored : a.before.checker.stored attestation.issuer attestation.asset = some stored) :
    stored.attestedAt ≤ attestation.attestedAt := by
  obtain ⟨hcall, hok⟩ := h
  rw [hcall] at horder
  rcases submitAttestation_eq (c := a.before.checker) attestation with
    ⟨rule, hrule, hpass, -⟩ | ⟨e, hrun⟩
  · exact horder ⟨rule, hrule, hpass⟩ stored hstored
  · rw [hrun] at hok
    cases hok

theorem Freshest.concat (h : Freshest ttl l a.before) (horder : InOrder a.before a.event) :
    Freshest ttl (l ++ [a]) (coverageStep a.before a.event) where
  ttl := (ttlRounds_coverageStep _ _).trans h.ttl
  accepted issuer asset used hused := by
    rcases stored_coverageStep a issuer asset with ⟨att, hacc, -, -, hstored⟩ | ⟨-, hkeep⟩
    · rw [hstored] at hused
      cases hused
      exact ⟨a, List.mem_append_right _ List.mem_cons_self, hacc⟩
    · obtain ⟨b, hb, hacc⟩ := h.accepted issuer asset used (hkeep ▸ hused)
      exact ⟨b, List.mem_append_left _ hb, hacc⟩
  newest b hb attestation hacc := by
    rcases List.mem_append.mp hb with hb | hb
    · obtain ⟨used, hused, hle⟩ := h.newest b hb attestation hacc
      rcases stored_coverageStep a attestation.issuer attestation.asset with
        ⟨att, hatt, hi, ha, hstored⟩ | ⟨-, hkeep⟩
      · -- replaced, by one that is not older
        rw [← hi, ← ha] at hused
        exact ⟨att, hstored, hle.trans (hatt.le horder hused)⟩
      · exact ⟨used, hkeep.trans hused, hle⟩
    · cases List.mem_singleton.mp hb
      rcases stored_coverageStep a attestation.issuer attestation.asset with
        ⟨att, hatt, -, -, hstored⟩ | ⟨hnone, -⟩
      · have heq : att = attestation := CoverageCall.submitAttestation.inj (hatt.1.symm.trans hacc.1)
        exact ⟨attestation, heq ▸ hstored, le_refl _⟩
      · exact absurd ⟨rfl, rfl⟩ (hnone attestation hacc)

theorem Freshest.restsOn (h : Freshest ttl l a.before) (horder : InOrder a.before a.event) :
    RestsOnFreshest ttl l a := by
  intro issuer asset amount nowRound hmint
  obtain ⟨used, hused, hage⟩ := hmint.stored
  rw [hmint.1] at horder
  refine ⟨used, hused, h.accepted issuer asset used hused, ?_,
    UInt64.le_iff_toNat_le.mp (horder used hused), h.ttl ▸ hage⟩
  rintro b hb attestation hacc rfl rfl
  obtain ⟨stored, hstored, hle⟩ := h.newest b hb attestation hacc
  rw [hused] at hstored
  cases hstored
  exact hle

theorem freshest_trace (ttl : UInt64) (registry : IssuerRegistry) (calls : List CoverageCall) :
    let l := trace coverageStep calls ⟨.withTtl ttl, registry⟩
    (∀ a ∈ l, InOrder a.before a.event) → Chronicle (RestsOnFreshest ttl) l ∧
      Freshest ttl l (calls.foldl coverageStep ⟨.withTtl ttl, registry⟩) := by
  refine trace_invariant (I := fun l s => (∀ a ∈ l, InOrder a.before a.event) →
    Chronicle (RestsOnFreshest ttl) l ∧ Freshest ttl l s) ?_ ?_ calls
  · intro _
    refine ⟨chronicle_nil, rfl, ?_, List.forall_mem_nil _⟩
    intro issuer asset used hused
    cases (ExtTreeMap.getElem?_empty.symm.trans hused)
  · intro l s call ih horder
    obtain ⟨hpast, hfresh⟩ := ih fun a ha => horder a (List.mem_append_left _ ha)
    have hlast := horder ⟨call, s⟩ (List.mem_append_right _ List.mem_cons_self)
    exact ⟨hpast.concat (hfresh.restsOn hlast), hfresh.concat hlast⟩

end Freshest

/-- **Mints rest on the freshest attestation**, in every run whose calls come in order. -/
theorem mints_rest_on_freshest (ttl : UInt64) (registry : IssuerRegistry) (calls : List CoverageCall)
    (horder : ∀ a ∈ trace coverageStep calls ⟨.withTtl ttl, registry⟩, InOrder a.before a.event) :
    Chronicle (RestsOnFreshest ttl) (trace coverageStep calls ⟨.withTtl ttl, registry⟩) :=
  (freshest_trace ttl registry calls horder).1

/-- A mint on the newer of two attestations, at its round. -/
def mintInOrder : List CoverageCall :=
  passingOnce ++ [.submitAttestation (attest 80 50 9), .mintWithCoverage 1 7 60 9]

theorem mints_rest_on_freshest_inOrder :
    (∀ a ∈ trace coverageStep mintInOrder ⟨.withTtl 100, .withSla 0⟩, InOrder a.before a.event) ∧
    Chronicle (RestsOnFreshest 100) (trace coverageStep mintInOrder ⟨.withTtl 100, .withSla 0⟩) :=
  ⟨by decide +kernel, mints_rest_on_freshest 100 (.withSla 0) mintInOrder (by decide +kernel)⟩

/-- An attestation of round 3 goes over one of round 9, whose reserves do not cover 60 … -/
def mintOnOlder : List CoverageCall :=
  [.registry (.register ⟨1, 0, 100, 0, 0⟩), .setRule 1 7 .oneToOnePar,
   .submitAttestation (attest 50 50 9), .submitAttestation (attest 100 50 3),
   .mintWithCoverage 1 7 60 10]

/-- … and one of round 3 carries a mint of round 1. -/
def mintBeforeRound : List CoverageCall := passingOnce ++ [.mintWithCoverage 1 7 60 1]

theorem mints_on_stale_attestation :
    ¬ Chronicle (RestsOnFreshest 100) (trace coverageStep mintOnOlder ⟨.withTtl 100, .withSla 0⟩) ∧
    ¬ Chronicle (RestsOnFreshest 100)
      (trace coverageStep mintBeforeRound ⟨.withTtl 100, .withSla 0⟩) := by
  constructor
  · intro hlaw
    obtain ⟨used, hused, -, hnewest, -⟩ :=
      hlaw [_, _, _, _] _ [] rfl 1 7 60 10 ⟨rfl, by decide +kernel⟩
    have hold : used = attest 100 50 3 := Option.some.inj (hused.symm.trans (by decide +kernel))
    have hle := hnewest _ (List.mem_cons_of_mem _ (List.mem_cons_of_mem _ List.mem_cons_self))
      (attest 50 50 9) ⟨rfl, by decide +kernel⟩ rfl rfl
    rw [hold] at hle
    exact absurd hle (by decide)
  · intro hlaw
    obtain ⟨used, hused, -, -, hle, -⟩ := hlaw [_, _, _] _ [] rfl 1 7 60 1 ⟨rfl, by decide +kernel⟩
    have hold : used = attest 100 50 3 := Option.some.inj (hused.symm.trans (by decide +kernel))
    rw [hold] at hle
    exact absurd hle (by decide)

end SuwappuDag.Precompiles
