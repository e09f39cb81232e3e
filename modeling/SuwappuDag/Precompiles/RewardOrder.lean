/-
  MORE WORK, NO LESS PAY (`suwappu-precompiles/src/rewards.rs`, pricing and clamp).

  A provider's payout is its price as long as the prices of all fit the budget, and a share of the
  budget otherwise: `share B (p + R) p`, where `R` is what the others are priced at.  Three monotone
  steps make it up: the uptime gate, the price, and the share (`share_mono`), which has to hold across
  the switch from one formula to the other, where the larger claim itself exceeds the budget.
-/
import SuwappuDag.Precompiles.Rewards

namespace SuwappuDag.Precompiles

open Words Command

/-- The claims of `y` are at least those of `x`, for the same provider and the same number of uptime
    samples. -/
structure AtLeast (x y : ComputeReceipt) : Prop where
  recipient : y.recipient = x.recipient
  certificates : x.certificatesSigned ≤ y.certificatesSigned
  attestations : x.attestationsSigned ≤ y.attestationsSigned
  served : x.daBytesServed ≤ y.daBytesServed
  ok : x.uptimeOkSamples ≤ y.uptimeOkSamples
  total : y.uptimeTotalSamples = x.uptimeTotalSamples

/-- What a settlement pays a provider. -/
def EpochSettlement.paidTo (out : EpochSettlement) (who : RewardRecipient) : Nat :=
  ((out.payouts.filter fun p => p.1 = who).map fun p => p.2.toNat).sum

/-! ## Prices -/

theorem toNat_wide (x : UInt64) : (wide x).toNat = x.toNat := by
  have := x.toNat_lt
  rw [wide, BitVec.toNat_ofNat, Nat.mod_eq_of_lt (by omega)]

theorem toNat_wide_mul (x : UInt64) {n : Nat} (hn : n ≤ 10000) :
    (wide x * BitVec.ofNat 128 n).toNat = x.toNat * n := by
  have hx := x.toNat_lt
  have hlt : x.toNat * n < 2 ^ 128 :=
    (Nat.mul_le_mul hx.le hn).trans_lt (by norm_num)
  rw [BitVec.toNat_mul, toNat_wide, BitVec.toNat_ofNat, Nat.mod_eq_of_lt (a := n) (by omega),
    Nat.mod_eq_of_lt hlt]

/-- The uptime gate, in exact arithmetic. -/
theorem toNat_uptimeMultiplierBps {ok total : UInt64} (hle : ok ≤ total) :
    (uptimeMultiplierBps ok total).toNat = if total = 0 then 0
      else if total.toNat * uptimeFullRateBps.toNat ≤ ok.toNat * 10000 then 10000
      else if total.toNat * uptimeHalfRateBps.toNat ≤ ok.toNat * 10000 then 5000 else 0 := by
  have hrate : ∀ {n : Nat}, n ≤ 10000 → (wide ok * 10000 ≥ wide total * BitVec.ofNat 128 n ↔
      total.toNat * n ≤ ok.toNat * 10000) := by
    intro n hn
    have hok : (wide ok * 10000).toNat = ok.toNat * 10000 := toNat_wide_mul ok (le_refl _)
    rw [ge_iff_le, BitVec.le_def, hok, toNat_wide_mul total hn]
  have hfull := hrate (n := uptimeFullRateBps.toNat) (by decide)
  have hhalf := hrate (n := uptimeHalfRateBps.toNat) (by decide)
  unfold uptimeMultiplierBps
  simp only [hfull, hhalf, not_lt.mpr hle, or_false]
  split_ifs <;> rfl

/-- More samples that went well, no lower rate. -/
theorem uptimeMultiplierBps_mono {ok ok' total : UInt64} (h : ok ≤ ok') (hle : ok' ≤ total) :
    (uptimeMultiplierBps ok total).toNat ≤ (uptimeMultiplierBps ok' total).toNat := by
  rw [toNat_uptimeMultiplierBps (h.trans hle), toNat_uptimeMultiplierBps hle]
  rw [UInt64.le_iff_toNat_le] at h
  split_ifs <;> omega

/-- The price of a receipt, in exact arithmetic. -/
theorem toNat_priceReceipt {x : ComputeReceipt} {params : RewardParams} {price : Amount}
    (h : priceReceipt x params = .ok price) : x.uptimeOkSamples ≤ x.uptimeTotalSamples ∧
      price.toNat = (x.certificatesSigned.toNat * params.perCertificate.toNat
        + x.attestationsSigned.toNat * params.perAttestation.toNat
        + x.daBytesServed.toNat * params.perGibServed.toNat / gib.toNat)
          * (uptimeMultiplierBps x.uptimeOkSamples x.uptimeTotalSamples).toNat / 10000 := by
  have hup : x.uptimeOkSamples ≤ x.uptimeTotalSamples := by
    by_contra hgt
    rw [priceReceipt, if_pos (not_le.mp hgt)] at h
    cases h
  rw [priceReceipt, if_neg (not_lt.mpr hup)] at h
  obtain ⟨certs, hcerts, h⟩ := except_bind_eq_ok_iff.mp h
  obtain ⟨attests, hattests, h⟩ := except_bind_eq_ok_iff.mp h
  obtain ⟨bytes, hbytes, h⟩ := except_bind_eq_ok_iff.mp h
  obtain ⟨raw, hraw, h⟩ := except_bind_eq_ok_iff.mp h
  obtain ⟨sum, hsum, hraw⟩ := Option.bind_eq_some_iff.mp (okOr_eq_ok_iff.mp hraw)
  obtain ⟨scaled, hscaled, rfl⟩ := Option.map_eq_some_iff.mp (okOr_eq_ok_iff.mp h)
  rw [okOr_eq_ok_iff, checkedMul_eq_some_iff, toNat_wide] at hcerts hattests hbytes
  rw [checkedAdd_eq_some_iff] at hsum hraw
  rw [checkedMul_eq_some_iff] at hscaled
  have hserved : (bytes / wide gib).toNat = x.daBytesServed.toNat * params.perGibServed.toNat / gib.toNat := by
    rw [BitVec.toNat_udiv, hbytes, toNat_wide]
  have hrate : ∀ m : UInt32, (BitVec.ofNat 128 m.toNat).toNat = m.toNat := by
    intro m
    have := m.toNat_lt
    rw [BitVec.toNat_ofNat, Nat.mod_eq_of_lt (by omega)]
  have hten : (10000 : Amount).toNat = 10000 := rfl
  refine ⟨hup, ?_⟩
  rw [BitVec.toNat_udiv, hscaled, hrate, hraw, hsum, hserved, hcerts, hattests, hten]

theorem priceReceipt_mono {x y : ComputeReceipt} (hxy : AtLeast x y) {params : RewardParams}
    {p q : Amount} (hx : priceReceipt x params = .ok p) (hy : priceReceipt y params = .ok q) :
    p.toNat ≤ q.toNat := by
  obtain ⟨-, hp⟩ := toNat_priceReceipt hx
  obtain ⟨hle, hq⟩ := toNat_priceReceipt hy
  rw [hxy.total] at hle hq
  rw [hp, hq]
  have hcerts := UInt64.le_iff_toNat_le.mp hxy.certificates
  have hattests := UInt64.le_iff_toNat_le.mp hxy.attestations
  have hserved := UInt64.le_iff_toNat_le.mp hxy.served
  have hrate := uptimeMultiplierBps_mono hxy.ok hle
  gcongr

/-! ## Shares -/

/-- A larger price gets no smaller share, the prices of the others being the same. -/
theorem share_mono (budget others : Nat) {p q : Nat} (h : p ≤ q) :
    share budget (p + others) p ≤ share budget (q + others) q := by
  unfold share
  by_cases hq : budget < q + others
  · rw [if_pos hq]
    have hpos : 0 < q + others := by omega
    by_cases hp : budget < p + others
    · -- both are scaled down: `p / (p + R)` grows with `p`
      rw [if_pos hp, Nat.le_div_iff_mul_le hpos]
      have hpos' : 0 < p + others := by omega
      have hothers : p * (budget * others) ≤ q * (budget * others) := Nat.mul_le_mul_right _ h
      calc p * budget / (p + others) * (q + others)
          = (q + others) * (p * budget / (p + others)) := Nat.mul_comm _ _
        _ ≤ (q + others) * (p * budget) / (p + others) := Nat.mul_div_le_mul_div_assoc _ _ _
        _ ≤ q * budget * (p + others) / (p + others) := Nat.div_le_div_right (by linarith)
        _ = q * budget := Nat.mul_div_cancel _ hpos'
    · -- the larger claim is what exceeds the budget
      rw [if_neg hp, Nat.le_div_iff_mul_le hpos]
      nlinarith
  · rw [if_neg hq, if_neg (by omega)]
    exact h

/-! ## Settlements -/

/-- The entries of a provider that is not among the recipients. -/
theorem filter_payouts_eq_nil {budget total : Nat} {price : ComputeReceipt → Nat}
    {receipts : List ComputeReceipt} {who : RewardRecipient}
    (h : who ∉ receipts.map (·.recipient)) :
    (receipts.filterMap fun y => payout budget total y.recipient (price y)).filter
      (fun p => p.1 = who) = [] := by
  rw [List.filter_eq_nil_iff]
  intro p hp
  have hmem : p.1 ∈ receipts.map (·.recipient) :=
    (payouts_sublist budget total price receipts).subset (List.mem_map_of_mem hp)
  exact fun heq => h (of_decide_eq_true heq ▸ hmem)

/-- A provider with one receipt has at most one entry, its share. -/
theorem sum_filter_payouts {budget total : Nat} {price : ComputeReceipt → Nat}
    {pre post : List ComputeReceipt} {x : ComputeReceipt}
    (hpre : x.recipient ∉ pre.map (·.recipient)) (hpost : x.recipient ∉ post.map (·.recipient)) :
    ((((pre ++ x :: post).filterMap fun y => payout budget total y.recipient (price y)).filter
      fun p => p.1 = x.recipient).map Prod.snd).sum = share budget total (price x) := by
  rw [List.filterMap_append, List.filter_append, filter_payouts_eq_nil hpre, List.nil_append,
    List.filterMap_cons]
  by_cases hzero : share budget total (price x) = 0
  · simp only [payout, hzero, if_true]
    exact congrArg (fun l => (l.map Prod.snd).sum) (filter_payouts_eq_nil hpost)
  · simp only [payout, hzero, if_false, List.filter_cons_of_pos, decide_true, List.map_cons,
      List.sum_cons]
    exact congrArg (fun l => _ + (l.map Prod.snd).sum) (filter_payouts_eq_nil hpost)

/-- What a settlement pays the provider of a receipt: its share. -/
theorem paidTo_eq_share {s s' : Settling} {epoch : UInt64} {pre post : List ComputeReceipt}
    {x : ComputeReceipt} {coverage : ReserveCoverageChecker} {nowRound : UInt64}
    {out : EpochSettlement}
    (h : settleEpoch epoch (pre ++ x :: post) coverage nowRound s = (.ok out, s')) :
    priceReceipt x s.engine.params = .ok (priceOf s.engine.params x) ∧
      out.paidTo x.recipient = share s.engine.params.epochBudget.toNat
        ((priceOf s.engine.params x).toNat
          + ((pre ++ post).map fun y => (priceOf s.engine.params y).toNat).sum)
        (priceOf s.engine.params x).toNat := by
  have hguarded : Guarded (settleEpoch epoch (pre ++ x :: post) coverage nowRound) s _ :=
    settleEpoch_guarded
  obtain ⟨-, hcheck, priced, hprice, paid, hpaid, hrun⟩ := hguarded.ok h
  obtain ⟨-, -, hprices, hpayouts⟩ := paid_spec hprice hpaid
  obtain ⟨_, u, -, hrest⟩ := bind_eq_ok_iff.mp hrun.symm
  cases hrest
  refine ⟨hprices x (by simp), ?_⟩
  -- the recipients are told apart by the check of the batch
  have hnodup := (checkReceipts_ok hcheck).2
  rw [List.map_append, List.map_cons, List.nodup_middle, List.nodup_cons, List.mem_append,
    not_or] at hnodup
  have hsum : ((pre ++ x :: post).map fun y => (priceOf s.engine.params y).toNat).sum =
      (priceOf s.engine.params x).toNat
        + ((pre ++ post).map fun y => (priceOf s.engine.params y).toNat).sum := by
    simp only [List.map_append, List.map_cons, List.sum_append, List.sum_cons]
    omega
  have hfilter : (paid.1.filter fun p => p.1 = x.recipient).map (fun p => p.2.toNat) =
      ((paid.1.map fun p => (p.1, p.2.toNat)).filter fun p => p.1 = x.recipient).map Prod.snd := by
    rw [List.filter_map, List.map_map]
    rfl
  show ((paid.1.filter fun p => p.1 = x.recipient).map fun p => p.2.toNat).sum = _
  rw [hfilter, hpayouts, hsum]
  exact sum_filter_payouts hnodup.1.1 hnodup.1.2

/-- **Reward monotonicity**: of two settlements under the same parameters, over receipts that differ in
    one provider's claims only, the one with the larger claims pays that provider no less. -/
theorem reward_monotone {s s' t t' : Settling} (hparams : t.engine.params = s.engine.params)
    {epoch : UInt64} {pre post : List ComputeReceipt} {x y : ComputeReceipt} (hxy : AtLeast x y)
    {coverage coverage' : ReserveCoverageChecker} {nowRound nowRound' : UInt64}
    {out out' : EpochSettlement}
    (h : settleEpoch epoch (pre ++ x :: post) coverage nowRound s = (.ok out, s'))
    (h' : settleEpoch epoch (pre ++ y :: post) coverage' nowRound' t = (.ok out', t')) :
    out.paidTo x.recipient ≤ out'.paidTo x.recipient := by
  obtain ⟨hx, hpaid⟩ := paidTo_eq_share h
  obtain ⟨hy, hpaid'⟩ := paidTo_eq_share h'
  rw [hparams] at hy hpaid'
  rw [hpaid, ← hxy.recipient, hpaid']
  exact share_mono _ _ (priceReceipt_mono hxy hx hy)

/-- The work of provider 5: certificates, all samples good. -/
def certified (certificates : UInt64) : ComputeReceipt := ⟨5, 1, certificates, 100, 100, 0, 0⟩

/-- An engine with a budget of 10 and one token per certificate. -/
def tenBudget : Settling :=
  ⟨.new ⟨1, 1, 1, 10⟩ 1 7, [IssuerCall.register ⟨1, 0, 100, 0, 0⟩].foldl issuerStep (.withSla 0)⟩

/-- Provider 6 has 5 certificates, provider 5 has `n`. -/
def settleSwitch (n : UInt64) : Except RewardError EpochSettlement × Settling :=
  settleEpoch 1 ([⟨6, 1, 5, 100, 100, 0, 0⟩] ++ certified n :: []) halfCovered 0 tenBudget

/-- The claim of provider 5 grows from 4 to 8, past what the budget leaves. -/
theorem reward_monotone_at_switch :
    ∃ out out', (settleSwitch 4).1 = .ok out ∧ (settleSwitch 8).1 = .ok out' ∧
      out.paidTo 5 ≤ out'.paidTo 5 := by
  have hok : (settleSwitch 4).1.isOk = true ∧ (settleSwitch 8).1.isOk = true := by decide +kernel
  rcases h : settleSwitch 4 with ⟨e | out, s'⟩
  · rw [h] at hok
    cases hok.1
  rcases h' : settleSwitch 8 with ⟨e | out', t'⟩
  · rw [h'] at hok
    cases hok.2
  have hmore : AtLeast (certified 4) (certified 8) :=
    ⟨rfl, by decide, le_refl _, le_refl _, le_refl _, rfl⟩
  exact ⟨out, out', rfl, rfl, reward_monotone (s := tenBudget) (t := tenBudget) rfl hmore h h'⟩

end SuwappuDag.Precompiles
