/-
  REWARD SETTLEMENT (`suwappu-precompiles/src/rewards.rs`) — paying proven work, in a stablecoin that
  is minted for it.

  1. **Program** — `settle_epoch` refuses an epoch that is not above the last settled one, checks the
     batch, prices every receipt with checked 128-bit arithmetic, scales the prices down to the budget
     where they exceed it, and mints the sum of the payouts through the reserve breaker.
  2. **Specification** — `Settled`: the payouts are the exact shares in receipt order, the total is
     their exact sum and within the budget, the supply of the one pair has grown by it and no other
     supply has moved; and where something was minted, the coverage rule holds for the NEW supply.
  3. **Crux** — the accumulation of the total is a plain `+`.  Floors of shares add up to no more than
     the floor of the whole (`sum_shares_le`), so the sum stays within the budget and never wraps.
-/
import SuwappuDag.Precompiles.Reserve

namespace SuwappuDag.Precompiles

open Words Command Runs
open Std (ExtTreeMap ExtTreeSet)

abbrev RewardRecipient := BitVec 160

def gib : UInt64 := 1073741824

def uptimeFullRateBps : UInt32 := 9900

def uptimeHalfRateBps : UInt32 := 9500

structure ComputeReceipt where
  recipient : RewardRecipient
  epoch : UInt64
  certificatesSigned : UInt64
  uptimeOkSamples : UInt64
  uptimeTotalSamples : UInt64
  attestationsSigned : UInt64
  daBytesServed : UInt64

structure RewardParams where
  perCertificate : Amount
  perAttestation : Amount
  perGibServed : Amount
  /-- The most that may be minted in an epoch. -/
  epochBudget : Amount

structure EpochSettlement where
  epoch : UInt64
  payouts : List (RewardRecipient × Amount)
  totalMinted : Amount
deriving DecidableEq

inductive RewardError where
  | epochNotMonotonic (epoch : UInt64) (last : Option UInt64)
  | receiptEpochMismatch (receiptEpoch epoch : UInt64)
  | duplicateRecipient
  | malformedUptime
  | coverage (e : CoverageError)
  | issuer (e : IssuerError)
  | overflow
deriving DecidableEq

def RewardError.ofGatedMint : GatedMintError → RewardError
  | .coverage e => .coverage e
  | .issuer e => .issuer e

/-! ## Pricing -/

/-- `x as u128`. -/
def wide (x : UInt64) : Amount := BitVec.ofNat 128 x.toNat

/-- Full rate from 99 %, half rate from 95 %, nothing below or without a sample. -/
def uptimeMultiplierBps (okSamples totalSamples : UInt64) : UInt32 :=
  if totalSamples = 0 ∨ okSamples > totalSamples then 0
  else
    let scaled := wide okSamples * 10000
    if scaled ≥ wide totalSamples * BitVec.ofNat 128 uptimeFullRateBps.toNat then 10000
    else if scaled ≥ wide totalSamples * BitVec.ofNat 128 uptimeHalfRateBps.toNat then 5000
    else 0

def priceReceipt (receipt : ComputeReceipt) (params : RewardParams) : Except RewardError Amount := do
  if receipt.uptimeOkSamples > receipt.uptimeTotalSamples then .error .malformedUptime
  let certs ← okOr (checkedMul (wide receipt.certificatesSigned) params.perCertificate) .overflow
  let attests ← okOr (checkedMul (wide receipt.attestationsSigned) params.perAttestation) .overflow
  let bytes ← okOr (checkedMul (wide receipt.daBytesServed) params.perGibServed) .overflow
  let served := bytes / wide gib
  let raw ← okOr ((checkedAdd certs attests).bind fun s => checkedAdd s served) .overflow
  let multiplier := uptimeMultiplierBps receipt.uptimeOkSamples receipt.uptimeTotalSamples
  okOr ((checkedMul raw (BitVec.ofNat 128 multiplier.toNat)).map fun scaled => scaled / 10000) .overflow

/-! ## Settlement -/

structure RewardSettlement where
  params : RewardParams
  issuer : IssuerId
  asset : AssetId
  lastSettledEpoch : Option UInt64

def RewardSettlement.new (params : RewardParams) (issuer : IssuerId) (asset : AssetId) :
    RewardSettlement := ⟨params, issuer, asset, none⟩

/-- The engine and the registry it mints in. -/
structure Settling where
  engine : RewardSettlement
  issuers : IssuerRegistry

/-- The validation loop, with the recipients it has seen. -/
def checkReceipts (epoch : UInt64) :
    List ComputeReceipt → ExtTreeSet RewardRecipient → Except RewardError Unit
  | [], _ => .ok ()
  | receipt :: receipts, seen =>
    if receipt.epoch ≠ epoch then .error (.receiptEpochMismatch receipt.epoch epoch)
    else if receipt.recipient ∈ seen then .error .duplicateRecipient
    else checkReceipts epoch receipts (seen.insert receipt.recipient)

/-- The pricing loop: the priced receipts and their checked total. -/
def priceReceipts (params : RewardParams) : List ComputeReceipt → List (RewardRecipient × Amount) →
    Amount → Except RewardError (List (RewardRecipient × Amount) × Amount)
  | [], raw, rawTotal => .ok (raw, rawTotal)
  | receipt :: receipts, raw, rawTotal => do
    let amount ← priceReceipt receipt params
    let rawTotal' ← okOr (checkedAdd rawTotal amount) .overflow
    priceReceipts params receipts (raw ++ [(receipt.recipient, amount)]) rawTotal'

/-- One price, scaled down where the total exceeds the budget. -/
def clamp (budget rawTotal amount : Amount) : Except RewardError Amount :=
  if rawTotal > budget then
    (okOr (checkedMul amount budget) .overflow).map fun product => product / rawTotal
  else .ok amount

/-- The payout loop.  The sum is a plain `+`. -/
def clampPayouts (budget rawTotal : Amount) : List (RewardRecipient × Amount) →
    List (RewardRecipient × Amount) → Amount →
    Except RewardError (List (RewardRecipient × Amount) × Amount)
  | [], payouts, total => .ok (payouts, total)
  | (recipient, amount) :: raw, payouts, total => do
    let clamped ← clamp budget rawTotal amount
    if clamped > 0 then
      clampPayouts budget rawTotal raw (payouts ++ [(recipient, clamped)]) (total + clamped)
    else clampPayouts budget rawTotal raw payouts total

/-- `if let Some(last) = self.last_settled_epoch { if epoch <= last { return Err(..) } }` -/
def checkEpoch (epoch : UInt64) : Option UInt64 → Except RewardError Unit
  | none => .ok ()
  | some last => if epoch ≤ last then .error (.epochNotMonotonic epoch (some last)) else .ok ()

/-- `if total > 0 { mint_with_coverage(issuers, coverage, …)?; }` -/
def mintTotal (coverage : ReserveCoverageChecker) (total : Amount) (nowRound : UInt64) :
    Command RewardError Settling Unit := fun s =>
  if total > 0 then
    let minted := mintWithCoverage coverage s.engine.issuer s.engine.asset total nowRound s.issuers
    (minted.1.mapError .ofGatedMint, { s with issuers := minted.2 })
  else (.ok (), s)

def settleEpoch (epoch : UInt64) (receipts : List ComputeReceipt) (coverage : ReserveCoverageChecker)
    (nowRound : UInt64) : Command RewardError Settling EpochSettlement := do
  fetch fun s => checkEpoch epoch s.engine.lastSettledEpoch
  fetch fun _ => checkReceipts epoch receipts ∅
  let priced ← fetch fun s => priceReceipts s.engine.params receipts [] 0
  let paid ← fetch fun s => clampPayouts s.engine.params.epochBudget priced.2 priced.1 [] 0
  mintTotal coverage paid.2 nowRound
  write fun s => { s with engine := { s.engine with lastSettledEpoch := some epoch } }
  return ⟨epoch, paid.1, paid.2⟩

/-! ## Shares -/

/-- A price, scaled down to the budget where the total exceeds it. -/
def share (budget total price : Nat) : Nat :=
  if budget < total then price * budget / total else price

theorem sum_scaled_le (budget total : Nat) (prices : List Nat) :
    (prices.map fun price => price * budget / total).sum ≤ prices.sum * budget / total := by
  induction prices with
  | nil => simp
  | cons price prices ih =>
    rw [List.map_cons, List.sum_cons, List.sum_cons, Nat.add_mul]
    exact (Nat.add_le_add_left ih _).trans (Nat.div_add_div_le_add_div)

/-- **The floors stay within the budget.** -/
theorem sum_shares_le (budget : Nat) (prices : List Nat) :
    (prices.map (share budget prices.sum)).sum ≤ budget := by
  unfold share
  by_cases h : budget < prices.sum
  · simp only [if_pos h]
    refine (sum_scaled_le budget prices.sum prices).trans ?_
    rw [Nat.mul_div_cancel_left _ (Nat.zero_lt_of_lt h)]
  · simp only [if_neg h, List.map_id']
    exact not_lt.mp h

/-- The entry of a payout list; nothing for a share of zero. -/
def payout (budget total : Nat) (recipient : RewardRecipient) (price : Nat) :
    Option (RewardRecipient × Nat) :=
  if share budget total price = 0 then none else some (recipient, share budget total price)

/-- Leaving out the zeros does not change the sum. -/
theorem sum_payouts (budget total : Nat) (raw : List (RewardRecipient × Amount)) :
    ((raw.filterMap fun p => payout budget total p.1 p.2.toNat).map Prod.snd).sum =
      (raw.map fun p => share budget total p.2.toNat).sum := by
  induction raw with
  | nil => rfl
  | cons p raw ih =>
    rw [List.map_cons, List.sum_cons]
    by_cases hzero : share budget total p.2.toNat = 0
    · rw [List.filterMap_cons_none (by rw [payout, if_pos hzero]), hzero, Nat.zero_add, ih]
    · rw [List.filterMap_cons_some (by rw [payout, if_neg hzero]), List.map_cons, List.sum_cons, ih]

/-! ## The loops -/

theorem checkReceipts_ok {epoch : UInt64} {receipts : List ComputeReceipt}
    {seen : ExtTreeSet RewardRecipient} (h : checkReceipts epoch receipts seen = .ok ()) :
    (∀ x ∈ receipts, x.recipient ∉ seen) ∧ (receipts.map (·.recipient)).Nodup := by
  induction receipts generalizing seen with
  | nil => exact ⟨List.forall_mem_nil _, List.nodup_nil⟩
  | cons receipt receipts ih =>
    unfold checkReceipts at h
    split at h
    · cases h
    · split at h
      · cases h
      · next hnew =>
        obtain ⟨hseen, hnodup⟩ := ih h
        have hnot : ∀ x ∈ receipts, x.recipient ≠ receipt.recipient ∧ x.recipient ∉ seen := by
          intro x hx
          have := hseen x hx
          rw [ExtTreeSet.mem_insert, not_or, Std.compare_eq_iff_eq] at this
          exact ⟨fun heq => this.1 heq.symm, this.2⟩
        refine ⟨List.forall_mem_cons.mpr ⟨hnew, fun x hx => (hnot x hx).2⟩, ?_⟩
        rw [List.map_cons, List.nodup_cons]
        refine ⟨fun hmem => ?_, hnodup⟩
        obtain ⟨x, hx, heq⟩ := List.mem_map.mp hmem
        exact (hnot x hx).1 heq

/-- The price of a receipt, where it has one. -/
def priceOf (params : RewardParams) (receipt : ComputeReceipt) : Amount :=
  match priceReceipt receipt params with
  | .ok price => price
  | .error _ => 0

theorem priceReceipts_ok {params : RewardParams} {receipts : List ComputeReceipt}
    {raw raw' : List (RewardRecipient × Amount)} {rawTotal rawTotal' : Amount}
    (h : priceReceipts params receipts raw rawTotal = .ok (raw', rawTotal')) :
    (∀ x ∈ receipts, priceReceipt x params = .ok (priceOf params x)) ∧
      raw' = raw ++ receipts.map (fun x => (x.recipient, priceOf params x)) ∧
      rawTotal'.toNat = rawTotal.toNat + (receipts.map fun x => (priceOf params x).toNat).sum := by
  induction receipts generalizing raw rawTotal with
  | nil =>
    cases h
    exact ⟨List.forall_mem_nil _, (List.append_nil _).symm, rfl⟩
  | cons receipt receipts ih =>
    obtain ⟨amount, hprice, h⟩ := except_bind_eq_ok_iff.mp h
    obtain ⟨next, hadd, h⟩ := except_bind_eq_ok_iff.mp h
    obtain ⟨hprices, hraw, htotal⟩ := ih h
    have hof : priceOf params receipt = amount := by rw [priceOf, hprice]
    have hsum := checkedAdd_eq_some_iff.mp (okOr_eq_ok_iff.mp hadd)
    refine ⟨List.forall_mem_cons.mpr ⟨by rw [hprice, hof], hprices⟩, ?_, ?_⟩
    · rw [hraw, List.map_cons, hof, List.append_assoc]
      rfl
    · rw [htotal, hsum, List.map_cons, List.sum_cons, hof, Nat.add_assoc]

theorem clamp_ok {budget rawTotal amount clamped : Amount}
    (h : clamp budget rawTotal amount = .ok clamped) :
    clamped.toNat = share budget.toNat rawTotal.toNat amount.toNat := by
  unfold clamp at h
  unfold share
  by_cases hover : budget < rawTotal
  · rw [if_pos hover] at h
    rw [if_pos (BitVec.lt_def.mp hover)]
    cases hmul : checkedMul amount budget with
    | none =>
      rw [hmul] at h
      cases h
    | some product =>
      rw [hmul] at h
      cases h
      show (product / rawTotal).toNat = _
      rw [BitVec.toNat_udiv, checkedMul_eq_some_iff.mp hmul]
  · rw [if_neg hover] at h
    rw [if_neg fun hlt => hover (BitVec.lt_def.mpr hlt)]
    cases h
    rfl

theorem clampPayouts_ok {budget rawTotal : Amount} {raw payouts payouts' : List (RewardRecipient × Amount)}
    {total total' : Amount}
    (h : clampPayouts budget rawTotal raw payouts total = .ok (payouts', total'))
    (hfit : total.toNat + (raw.map fun p => share budget.toNat rawTotal.toNat p.2.toNat).sum < 2 ^ 128) :
    payouts'.map (fun p => (p.1, p.2.toNat)) = payouts.map (fun p => (p.1, p.2.toNat)) ++
        raw.filterMap (fun p => payout budget.toNat rawTotal.toNat p.1 p.2.toNat) ∧
      total'.toNat = total.toNat +
        (raw.map fun p => share budget.toNat rawTotal.toNat p.2.toNat).sum := by
  induction raw generalizing payouts total with
  | nil =>
    cases h
    exact ⟨(List.append_nil _).symm, rfl⟩
  | cons p raw ih =>
    obtain ⟨recipient, amount⟩ := p
    obtain ⟨clamped, hclamp, h⟩ := except_bind_eq_ok_iff.mp h
    have hshare := clamp_ok hclamp
    rw [List.map_cons, List.sum_cons] at hfit ⊢
    dsimp only at hfit ⊢
    split at h
    · next hpos =>
      have hne : share budget.toNat rawTotal.toNat amount.toNat ≠ 0 := by
        have := BitVec.lt_def.mp hpos
        rw [← hshare]
        exact Nat.ne_of_gt this
      have hadd : (total + clamped).toNat = total.toNat + clamped.toNat := by
        rw [BitVec.toNat_add]
        exact Nat.mod_eq_of_lt (by omega)
      obtain ⟨hpayouts, htotal⟩ := ih h (by omega)
      refine ⟨?_, by omega⟩
      rw [hpayouts, List.map_append,
        List.filterMap_cons_some (b := (recipient, clamped.toNat)) (by rw [payout, if_neg hne, hshare]),
        List.append_assoc]
      rfl
    · next hpos =>
      have hzero : share budget.toNat rawTotal.toNat amount.toNat = 0 := by
        have := BitVec.le_def.mp (not_lt.mp hpos)
        rw [← hshare]
        exact Nat.le_zero.mp this
      obtain ⟨hpayouts, htotal⟩ := ih h (by omega)
      refine ⟨?_, by omega⟩
      rw [hpayouts, List.filterMap_cons_none (by rw [payout, if_pos hzero])]

/-! ## One settlement -/

/-- A settlement that was made. -/
structure Settled (engine : RewardSettlement) (receipts : List ComputeReceipt)
    (coverage : ReserveCoverageChecker) (r r' : IssuerRegistry) (out : EpochSettlement) : Prop where
  total_eq : out.totalMinted.toNat = (out.payouts.map fun p => p.2.toNat).sum
  total_le : out.totalMinted ≤ engine.params.epochBudget
  /-- The payouts are the shares of the prices, in receipt order, without the zeros. -/
  payouts_eq : ∃ price : ComputeReceipt → Amount,
    (∀ x ∈ receipts, priceReceipt x engine.params = .ok (price x)) ∧
    out.payouts.map (fun p => (p.1, p.2.toNat)) = receipts.filterMap fun x =>
      payout engine.params.epochBudget.toNat (receipts.map fun x => (price x).toNat).sum x.recipient
        (price x).toNat
  nodup : (out.payouts.map Prod.fst).Nodup
  supply : (r'.supplyOf engine.asset engine.issuer).outstanding.toNat =
    (r.supplyOf engine.asset engine.issuer).outstanding.toNat + out.totalMinted.toNat
  others : ∀ asset issuer, ¬ (engine.asset = asset ∧ engine.issuer = issuer) →
    r'.supplyOf asset issuer = r.supplyOf asset issuer
  /-- Nothing is checked where nothing is minted. -/
  covered : 0 < out.totalMinted → ∃ rule attestation,
    coverage.rule engine.issuer engine.asset = some rule ∧
    coverage.stored engine.issuer engine.asset = some attestation ∧
    Covers rule attestation.totalReserves.toNat
      (r'.supplyOf engine.asset engine.issuer).outstanding.toNat

section Settle

variable {s : Settling} {epoch : UInt64} {receipts : List ComputeReceipt}
  {coverage : ReserveCoverageChecker} {nowRound : UInt64}

/-- What the checks of a settlement let through. -/
theorem settleEpoch_guarded : Guarded (settleEpoch epoch receipts coverage nowRound) s (fun out =>
    checkEpoch epoch s.engine.lastSettledEpoch = .ok () ∧ checkReceipts epoch receipts ∅ = .ok () ∧
    ∃ priced, priceReceipts s.engine.params receipts [] 0 = .ok priced ∧
    ∃ paid, clampPayouts s.engine.params.epochBudget priced.2 priced.1 [] 0 = .ok paid ∧
    out = (do
      mintTotal coverage paid.2 nowRound
      write fun s => { s with engine := { s.engine with lastSettledEpoch := some epoch } }
      return ⟨epoch, paid.1, paid.2⟩ : Command RewardError Settling EpochSettlement) s) := by
  refine (guarded_fetch_bind fun _ _ => guarded_fetch_bind fun _ _ => guarded_fetch_bind fun priced _ =>
    guarded_fetch_bind fun paid _ => guarded_run _ _).congr fun out => ?_
  constructor
  · rintro ⟨_, hepoch, _, hbatch, hrest⟩
    exact ⟨hepoch, hbatch, hrest⟩
  · rintro ⟨hepoch, hbatch, hrest⟩
    exact ⟨(), hepoch, (), hbatch, hrest⟩

/-- The payouts of a batch that was priced. -/
theorem paid_spec {params : RewardParams} {priced paid : List (RewardRecipient × Amount) × Amount}
    (hprice : priceReceipts params receipts [] 0 = .ok priced)
    (hpaid : clampPayouts params.epochBudget priced.2 priced.1 [] 0 = .ok paid) :
    paid.2.toNat = (paid.1.map fun p => p.2.toNat).sum ∧ paid.2 ≤ params.epochBudget ∧
    (∀ x ∈ receipts, priceReceipt x params = .ok (priceOf params x)) ∧
    paid.1.map (fun p => (p.1, p.2.toNat)) = receipts.filterMap fun x =>
      payout params.epochBudget.toNat (receipts.map fun x => (priceOf params x).toNat).sum x.recipient
        (priceOf params x).toNat := by
  obtain ⟨raw, rawTotal⟩ := priced
  obtain ⟨payouts, total⟩ := paid
  obtain ⟨hprices, hraw, hrawTotal⟩ := priceReceipts_ok hprice
  rw [List.nil_append] at hraw
  have hsum : rawTotal.toNat = (receipts.map fun x => (priceOf params x).toNat).sum := by
    rw [hrawTotal]
    exact Nat.zero_add _
  -- the shares of the raw list are those of the prices, whose sum the budget bounds
  have hshares : (raw.map fun p => share params.epochBudget.toNat rawTotal.toNat p.2.toNat).sum ≤
      params.epochBudget.toNat := by
    have hle := sum_shares_le params.epochBudget.toNat
      (receipts.map fun x => (priceOf params x).toNat)
    rw [List.map_map, ← hsum] at hle
    rw [hraw, List.map_map]
    exact hle
  have hfit := hshares.trans_lt params.epochBudget.isLt
  obtain ⟨hpayouts, htotal⟩ :=
    clampPayouts_ok hpaid (by rwa [show (0 : Amount).toNat = 0 from rfl, Nat.zero_add])
  rw [List.map_nil, List.nil_append] at hpayouts
  rw [show (0 : Amount).toNat = 0 from rfl, Nat.zero_add] at htotal
  refine ⟨?_, BitVec.le_def.mpr (htotal ▸ hshares), hprices, ?_⟩
  · have hsnd := congrArg (fun l => (l.map Prod.snd).sum) hpayouts
    dsimp only at hsnd
    rw [sum_payouts, List.map_map] at hsnd
    exact htotal.trans hsnd.symm
  · rw [hpayouts, hraw, List.filterMap_map, hsum]
    rfl

/-- Who is paid is a part of who has a receipt, in order. -/
theorem payouts_sublist (budget total : Nat) (price : ComputeReceipt → Nat)
    (receipts : List ComputeReceipt) :
    ((receipts.filterMap fun x => payout budget total x.recipient (price x)).map Prod.fst).Sublist
      (receipts.map (·.recipient)) := by
  induction receipts with
  | nil => exact List.nil_sublist _
  | cons x receipts ih =>
    rw [List.map_cons]
    by_cases hzero : share budget total (price x) = 0
    · rw [List.filterMap_cons_none (by rw [payout, if_pos hzero])]
      exact ih.cons _
    · rw [List.filterMap_cons_some (by rw [payout, if_neg hzero]), List.map_cons]
      exact ih.cons_cons _

/-- The mint of a settlement, also where there is nothing to mint. -/
theorem mintTotal_cases (h : Solvent s.issuers) (total : Amount) :
    (∃ e s', mintTotal coverage total nowRound s = (.error e, s') ∧
      s'.engine = s.engine ∧ ∀ a i, s'.issuers.supplyOf a i = s.issuers.supplyOf a i) ∨
    ∃ r', mintTotal coverage total nowRound s = (.ok (), { s with issuers := r' }) ∧
      (r'.supplyOf s.engine.asset s.engine.issuer).outstanding.toNat =
        (s.issuers.supplyOf s.engine.asset s.engine.issuer).outstanding.toNat + total.toNat ∧
      (∀ a i, ¬ (s.engine.asset = a ∧ s.engine.issuer = i) →
        r'.supplyOf a i = s.issuers.supplyOf a i) ∧
      (0 < total → ∃ rule attestation, coverage.rule s.engine.issuer s.engine.asset = some rule ∧
        coverage.stored s.engine.issuer s.engine.asset = some attestation ∧
        Covers rule attestation.totalReserves.toNat
          (r'.supplyOf s.engine.asset s.engine.issuer).outstanding.toNat) := by
  unfold mintTotal
  by_cases hpos : 0 < total
  · rw [if_pos hpos]
    rcases mintWithCoverage_cases h s.engine.issuer s.engine.asset total nowRound with
      ⟨e, r', hmint, hsame⟩ | ⟨r', hmint, hgrown, hothers, hcovered⟩
    · rw [hmint]
      exact .inl ⟨_, _, rfl, rfl, hsame⟩
    · rw [hmint]
      exact .inr ⟨r', rfl, hgrown, hothers, fun _ => hcovered⟩
  · have hzero : total.toNat = 0 := Nat.le_zero.mp (BitVec.le_def.mp (not_lt.mp hpos))
    rw [if_neg hpos, hzero]
    exact .inr ⟨s.issuers, rfl, rfl, fun _ _ _ => rfl, fun h => absurd h hpos⟩

/-- The watermark moves with a settlement only, and only up. -/
theorem settleEpoch_engine : (∃ e s', settleEpoch epoch receipts coverage nowRound s = (.error e, s') ∧
      s'.engine = s.engine) ∨
    ∃ out s', settleEpoch epoch receipts coverage nowRound s = (.ok out, s') ∧ out.epoch = epoch ∧
      (∀ last ∈ s.engine.lastSettledEpoch, last < epoch) ∧
      s'.engine = { s.engine with lastSettledEpoch := some epoch } := by
  have hguard : Guarded (settleEpoch epoch receipts coverage nowRound) s _ := settleEpoch_guarded
  rcases hguard with ⟨hepoch, -, priced, -, paid, -, hout⟩ | ⟨-, e, he⟩
  · have hmint : (mintTotal coverage paid.2 nowRound s).2.engine = s.engine := by
      unfold mintTotal
      split <;> rfl
    rw [hout]
    rcases hrun : mintTotal coverage paid.2 nowRound s with ⟨e | u, s'⟩
    · rw [hrun] at hmint
      exact .inl ⟨e, s', bind_run_error hrun, hmint⟩
    · rw [hrun] at hmint
      refine .inr ⟨_, _, bind_run_ok hrun, rfl, ?_, by rw [← hmint]⟩
      intro last hlast
      rw [show s.engine.lastSettledEpoch = some last from hlast, checkEpoch] at hepoch
      split at hepoch
      · cases hepoch
      · next hlt => exact not_le.mp hlt
  · exact .inl ⟨e, s, he, rfl⟩

/-- **One settlement**: what it did, or that it did nothing. -/
theorem settleEpoch_cases (h : Solvent s.issuers) :
    (∃ e s', settleEpoch epoch receipts coverage nowRound s = (.error e, s') ∧
      s'.engine = s.engine ∧ ∀ a i, s'.issuers.supplyOf a i = s.issuers.supplyOf a i) ∨
    ∃ out s', settleEpoch epoch receipts coverage nowRound s = (.ok out, s') ∧
      out.epoch = epoch ∧ s'.engine = { s.engine with lastSettledEpoch := some epoch } ∧
      Settled s.engine receipts coverage s.issuers s'.issuers out := by
  have hguard : Guarded (settleEpoch epoch receipts coverage nowRound) s _ := settleEpoch_guarded
  rcases hguard with ⟨hepoch, hbatch, priced, hprice, paid, hpaid, hout⟩ | ⟨-, e, he⟩
  · rw [hout]
    rcases mintTotal_cases h paid.2 with ⟨e, s', hmint, hsame⟩ | ⟨r', hmint, hgrown, hothers, hcovered⟩
    · exact .inl ⟨e, s', bind_run_error hmint, hsame⟩
    · obtain ⟨htotal, hbudget, hprices, hpayouts⟩ := paid_spec hprice hpaid
      refine .inr ⟨_, _, bind_run_ok hmint, rfl, rfl, htotal, hbudget, ⟨_, hprices, hpayouts⟩, ?_,
        hgrown, hothers, hcovered⟩
      have hfst := congrArg (List.map Prod.fst) hpayouts
      rw [List.map_map] at hfst
      exact hfst ▸ (payouts_sublist _ _ _ receipts).nodup (checkReceipts_ok hbatch).2
  · exact .inl ⟨e, s, he, rfl, fun _ _ => rfl⟩

end Settle

/-! ## Runs -/

/-- A settlement as it is asked for: the registry and the checker belong to somebody else, and come
    with every call. -/
structure SettlementCall where
  epoch : UInt64
  receipts : List ComputeReceipt
  issuers : IssuerRegistry
  coverage : ReserveCoverageChecker
  nowRound : UInt64

def SettlementCall.exec (call : SettlementCall) (engine : RewardSettlement) :
    Except RewardError EpochSettlement × Settling :=
  settleEpoch call.epoch call.receipts call.coverage call.nowRound ⟨engine, call.issuers⟩

def settlementStep (engine : RewardSettlement) (call : SettlementCall) : RewardSettlement :=
  (call.exec engine).2.engine

abbrev SettlementEvent := Event RewardSettlement SettlementCall

/-- The epoch was settled. -/
def Settles (a : SettlementEvent) (epoch : UInt64) : Prop :=
  ∃ out, (a.event.exec a.before).1 = .ok out ∧ out.epoch = epoch

/-- A settled epoch is above all that were settled before. -/
def EpochsRise (past : List SettlementEvent) (a : SettlementEvent) : Prop :=
  ∀ epoch, Settles a epoch → ∀ b ∈ past, ∀ earlier, Settles b earlier → earlier < epoch

/-- The watermark is at the epoch or above. -/
def Reached (engine : RewardSettlement) (epoch : UInt64) : Prop :=
  ∃ last ∈ engine.lastSettledEpoch, epoch ≤ last

theorem exec_engine (engine : RewardSettlement) (call : SettlementCall) :
    (∃ e, (call.exec engine).1 = .error e ∧ settlementStep engine call = engine) ∨
    ∃ out, (call.exec engine).1 = .ok out ∧ out.epoch = call.epoch ∧
      (∀ last ∈ engine.lastSettledEpoch, last < call.epoch) ∧
      settlementStep engine call = { engine with lastSettledEpoch := some call.epoch } := by
  have hcases : (∃ e s', call.exec engine = (.error e, s') ∧ s'.engine = engine) ∨
      ∃ out s', call.exec engine = (.ok out, s') ∧ _ := settleEpoch_engine
  unfold settlementStep
  rcases hcases with ⟨e, s', hrun, hengine⟩ | ⟨out, s', hrun, hepoch, hlast, hengine⟩
  · rw [hrun]
    exact .inl ⟨e, rfl, hengine⟩
  · rw [hrun]
    exact .inr ⟨out, rfl, hepoch, hlast, hengine⟩

/-- A settled epoch is the one that was asked for, above the watermark, and becomes the watermark. -/
theorem Settles.spec {a : SettlementEvent} {epoch : UInt64} (h : Settles a epoch) :
    a.event.epoch = epoch ∧ (∀ last ∈ a.before.lastSettledEpoch, last < epoch) ∧
      (settlementStep a.before a.event).lastSettledEpoch = some epoch := by
  obtain ⟨out, hout, rfl⟩ := h
  rcases exec_engine a.before a.event with ⟨e, herr, -⟩ | ⟨out', hout', hepoch, hlast, hengine⟩
  · rw [herr] at hout
    cases hout
  · rw [hout'] at hout
    cases hout
    exact ⟨hepoch.symm, hepoch ▸ hlast, by rw [hengine, hepoch]⟩

/-- The watermark guards the epochs. -/
theorem settlementGuard :
    Guard Event.before (fun a => settlementStep a.before a.event) Settles Reached where
  fresh a epoch h := by
    rintro ⟨last, hlast, hle⟩
    exact absurd (h.spec.2.1 last hlast) (not_lt.mpr hle)
  sets a epoch h := ⟨epoch, h.spec.2.2, le_refl epoch⟩
  keeps a epoch := by
    rintro ⟨last, hlast, hle⟩
    rcases exec_engine a.before a.event with ⟨e, -, hengine⟩ | ⟨out, -, -, hbelow, hengine⟩
    · exact ⟨last, by rw [hengine]; exact hlast, hle⟩
    · exact ⟨a.event.epoch, by rw [hengine]; rfl, hle.trans (hbelow last hlast).le⟩

theorem epochs_rise (engine : RewardSettlement) (calls : List SettlementCall) :
    Chronicle EpochsRise (trace settlementStep calls engine) := by
  intro past a rest hsplit epoch hsettles b hb earlier hearlier
  refine ((settlementGuard.toldApart_trace calls engine).1 past a rest hsplit).increasing ?_ hsettles hb
    hearlier
  rintro s lower upper ⟨last, hlast, hle⟩ hlower
  exact ⟨last, hlast, hlower.trans hle⟩

/-- **Settlement**: of a registry that was built by its calls, for every engine, checker, batch and
    round; and settled epochs rise over every run of an engine. -/
theorem settle_epoch_law :
    (∀ (sla : UInt64) (calls : List IssuerCall) (engine : RewardSettlement) (epoch : UInt64)
        (receipts : List ComputeReceipt) (coverage : ReserveCoverageChecker) (nowRound : UInt64),
      let r := calls.foldl issuerStep (.withSla sla)
      (∀ out s', settleEpoch epoch receipts coverage nowRound ⟨engine, r⟩ = (.ok out, s') →
        Settled engine receipts coverage r s'.issuers out) ∧
      ∀ e s', settleEpoch epoch receipts coverage nowRound ⟨engine, r⟩ = (.error e, s') →
        s'.engine.lastSettledEpoch = engine.lastSettledEpoch ∧
          ∀ asset issuer, s'.issuers.supplyOf asset issuer = r.supplyOf asset issuer) ∧
    ∀ (params : RewardParams) (issuer : IssuerId) (asset : AssetId) (calls : List SettlementCall),
      Chronicle EpochsRise (trace settlementStep calls (.new params issuer asset)) := by
  refine ⟨?_, fun params issuer asset calls => epochs_rise _ calls⟩
  intro sla calls engine epoch receipts coverage nowRound r
  have hcases : (∃ e s', settleEpoch epoch receipts coverage nowRound ⟨engine, r⟩ = (.error e, s') ∧ _) ∨ _ :=
    settleEpoch_cases (Solvent.run sla calls)
  rcases hcases with ⟨e, s', hrun, hengine, hsame⟩ | ⟨out, s', hrun, -, -, hsettled⟩
  · rw [hrun]
    refine ⟨fun out t hout => ?_, fun e t herr => ?_⟩
    · cases hout
    cases herr
    exact ⟨by rw [hengine], hsame⟩
  · rw [hrun]
    refine ⟨fun out t hout => ?_, fun e t herr => ?_⟩
    · cases hout
      exact hsettled
    · cases herr

/-- 100 tokens of asset 7 are outstanding, by a plain mint. -/
def plainMint : List IssuerCall := [.register ⟨1, 0, 100, 0, 0⟩, .mint 1 7 100]

/-- The attested reserves are 50. -/
def halfCovered : ReserveCoverageChecker :=
  (submitAttestation (attest 50 50 0) ((ReserveCoverageChecker.withTtl 100).setRule 1 7 .oneToOnePar)).2

/-- An epoch without receipts settles although the stored attestation does not cover what is
    outstanding. -/
theorem settles_uncovered :
    let r := plainMint.foldl issuerStep (.withSla 0)
    let s := (settleEpoch 1 [] halfCovered 0 ⟨.new ⟨1, 1, 1, 10⟩ 1 7, r⟩)
    s.1 = .ok ⟨1, [], 0⟩ ∧ halfCovered.rule 1 7 = some .oneToOnePar ∧
      halfCovered.stored 1 7 = some (attest 50 50 0) ∧
      ¬ Covers .oneToOnePar (attest 50 50 0).totalReserves.toNat
        (s.2.issuers.supplyOf 7 1).outstanding.toNat := by
  refine ⟨by decide +kernel, by decide +kernel, by decide +kernel, ?_⟩
  show ¬ _ ≤ _
  decide +kernel

end SuwappuDag.Precompiles
