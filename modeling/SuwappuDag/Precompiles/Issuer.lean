/-
  THE REGISTERED-ISSUER PRECOMPILE (`suwappu-precompiles/src/issuer.rs`) — minting under a cap, and
  burning in two phases.

  1. **Program** — `mint` adds up what the issuer has outstanding over ALL its assets, checks the sum
     against the issuer's cap and raises `total_minted`.  `initiate_burn` reserves circulating tokens
     under a fresh burn id; `finalize_burn` retires them, `reverse_burn` returns them after the
     deadline.  `finalize_burn` takes the burn OUT of the pending map before it looks at the supply,
     and both phases `expect` a supply record: a panic is an end of its own here (`Halt`).
  2. **Specification** — `Ledger`: what is reserved is the sum of the pending burns, burned and
     reserved stay within minted, and nobody is outstanding above their cap.
  3. **Crux** — on a ledger that adds up, the subtractions behind the removal cannot fail; so a call
     that returns an error has changed nothing a reader can see (`SameLedger`), and each burn id is
     resolved once.
-/
import SuwappuDag.Precompiles.Did

namespace SuwappuDag.Precompiles

open Words Command Runs MapSum
open Std (ExtTreeMap)

abbrev Amount := BitVec 128

abbrev IssuerId := UInt32

abbrev AssetId := Bytes32

/-- A counter, one per registry. -/
abbrev BurnId := UInt64

def defaultBurnSlaRounds : UInt64 := 1000

structure Issuer where
  id : IssuerId
  principalDid : Did
  /-- The most that may be outstanding over all assets. -/
  delegationCap : Amount
  reserveSchemaVersion : UInt32
  policyVocabularyVersion : UInt32

structure PendingBurn where
  burnId : BurnId
  asset : AssetId
  issuer : IssuerId
  amount : Amount
  initiatedAt : UInt64
  slaDeadline : UInt64

structure PaymentReceiptAttestation where
  digest : Bytes32

structure AssetSupply where
  totalMinted : Amount
  totalBurned : Amount
  reservedForBurn : Amount
deriving DecidableEq

namespace AssetSupply

def default : AssetSupply := ⟨0, 0, 0⟩

def circulating (s : AssetSupply) : Amount :=
  saturatingSub (saturatingSub s.totalMinted s.totalBurned) s.reservedForBurn

/-- Reserved tokens are still outstanding. -/
def outstanding (s : AssetSupply) : Amount := saturatingSub s.totalMinted s.totalBurned

end AssetSupply

/-- The key of a supply record: asset first, issuer second. -/
abbrev SupplyKey := AssetId ×ₗ IssuerId

structure IssuerRegistry where
  issuers : ExtTreeMap IssuerId Issuer
  supply : ExtTreeMap SupplyKey AssetSupply
  pending : ExtTreeMap BurnId PendingBurn
  nextBurnId : BurnId
  slaWindowRounds : UInt64

inductive IssuerError where
  | issuerAlreadyRegistered (issuer : IssuerId)
  | issuerNotRegistered (issuer : IssuerId)
  | delegationCapExceeded (issuer : IssuerId) (outstanding cap : Amount)
  | insufficientCirculating
  | unknownBurn (burnId : BurnId)
  | slaNotExpired (burnId : BurnId) (now deadline : UInt64)
  | overflow
deriving DecidableEq

/-- How a call that may panic ends without a result. -/
inductive Halt (ε : Type) where
  | error (e : ε)
  | panicked (message : String)
deriving DecidableEq

/-! ## The calls -/

namespace IssuerRegistry

/-- A registry with a window of its own for pending burns. -/
def withSla (slaWindowRounds : UInt64) : IssuerRegistry := ⟨∅, ∅, ∅, 0, slaWindowRounds⟩

def new : IssuerRegistry := withSla defaultBurnSlaRounds

/-- The supply record of a pair; an absent one is all zeros. -/
def supplyOf (r : IssuerRegistry) (asset : AssetId) (issuer : IssuerId) : AssetSupply :=
  r.supply[(toLex (asset, issuer) : SupplyKey)]?.getD .default

def setSupply (r : IssuerRegistry) (asset : AssetId) (issuer : IssuerId) (s : AssetSupply) :
    IssuerRegistry :=
  { r with supply := r.supply.insert (toLex (asset, issuer)) s }

end IssuerRegistry

open IssuerRegistry

/-- A mutating method of the registry. -/
abbrev Registrar (α : Type) := Command IssuerError IssuerRegistry α

def register (issuer : Issuer) : Registrar Unit := do
  failWhen (fun r => issuer.id ∈ r.issuers) (.issuerAlreadyRegistered issuer.id)
  write fun r => { r with issuers := r.issuers.insert issuer.id issuer }

/-- The loop of `mint`: what the issuer has outstanding over all its assets. -/
def totalOutstanding (issuer : IssuerId) :
    List (SupplyKey × AssetSupply) → Amount → Except IssuerError Amount
  | [], total => .ok total
  | e :: entries, total =>
    if (ofLex e.1).2 = issuer then
      match checkedAdd total e.2.outstanding with
      | some total' => totalOutstanding issuer entries total'
      | none => .error .overflow
    else totalOutstanding issuer entries total

def mint (issuer : IssuerId) (asset : AssetId) (amount : Amount) : Registrar Unit := do
  let record ← fetch fun r => okOr r.issuers[issuer]? (.issuerNotRegistered issuer)
  let total ← fetch fun r => totalOutstanding issuer r.supply.toList 0
  let outstandingAfter ← fetch fun _ => okOr (checkedAdd total amount) .overflow
  failIf (outstandingAfter > record.delegationCap)
    (.delegationCapExceeded issuer outstandingAfter record.delegationCap)
  -- `entry(..).or_default()` leaves a record behind even when the addition fails
  write fun r => r.setSupply asset issuer (r.supplyOf asset issuer)
  let minted ← fetch fun r => okOr (checkedAdd (r.supplyOf asset issuer).totalMinted amount) .overflow
  write fun r => r.setSupply asset issuer { r.supplyOf asset issuer with totalMinted := minted }

def initiateBurn (issuer : IssuerId) (asset : AssetId) (amount : Amount) (nowRound : UInt64) :
    Registrar BurnId := do
  failWhen (fun r => issuer ∉ r.issuers) (.issuerNotRegistered issuer)
  write fun r => r.setSupply asset issuer (r.supplyOf asset issuer)
  failWhen (fun r => (r.supplyOf asset issuer).circulating < amount) .insufficientCirculating
  let reserved ← fetch fun r =>
    okOr (checkedAdd (r.supplyOf asset issuer).reservedForBurn amount) .overflow
  write fun r => r.setSupply asset issuer { r.supplyOf asset issuer with reservedForBurn := reserved }
  let burnId ← read fun r => r.nextBurnId
  -- both sums wrap: the counter and the deadline are plain `u64` additions
  write fun r =>
    { r with
      nextBurnId := burnId + 1
      pending := r.pending.insert burnId
        ⟨burnId, asset, issuer, amount, nowRound, nowRound + r.slaWindowRounds⟩ }
  return burnId

/-- What both phases expect. -/
def noSupplyRecord : String := "pending burn implies a supply record exists"

def finalizeBurn (burnId : BurnId) (_attestation : PaymentReceiptAttestation) :
    Command (Halt IssuerError) IssuerRegistry Unit := do
  let burn ← fetch fun r => okOr r.pending[burnId]? (.error (.unknownBurn burnId))
  write fun r => { r with pending := r.pending.erase burnId }
  let entry ← fetch fun r =>
    okOr r.supply[(toLex (burn.asset, burn.issuer) : SupplyKey)]? (.panicked noSupplyRecord)
  let reserved ← fetch fun _ => okOr (checkedSub entry.reservedForBurn burn.amount) (.error .overflow)
  write fun r => r.setSupply burn.asset burn.issuer { entry with reservedForBurn := reserved }
  let burned ← fetch fun _ => okOr (checkedAdd entry.totalBurned burn.amount) (.error .overflow)
  write fun r => r.setSupply burn.asset burn.issuer
    { entry with reservedForBurn := reserved, totalBurned := burned }

def reverseBurn (burnId : BurnId) (nowRound : UInt64) :
    Command (Halt IssuerError) IssuerRegistry Unit := do
  let burn ← fetch fun r => okOr r.pending[burnId]? (.error (.unknownBurn burnId))
  failIf (nowRound ≤ burn.slaDeadline) (.error (.slaNotExpired burnId nowRound burn.slaDeadline))
  let entry ← fetch fun r =>
    okOr r.supply[(toLex (burn.asset, burn.issuer) : SupplyKey)]? (.panicked noSupplyRecord)
  let reserved ← fetch fun _ => okOr (checkedSub entry.reservedForBurn burn.amount) (.error .overflow)
  write fun r => r.setSupply burn.asset burn.issuer { entry with reservedForBurn := reserved }
  write fun r => { r with pending := r.pending.erase burnId }

inductive IssuerCall where
  | register (issuer : Issuer)
  | mint (issuer : IssuerId) (asset : AssetId) (amount : Amount)
  | initiateBurn (issuer : IssuerId) (asset : AssetId) (amount : Amount) (nowRound : UInt64)
  | finalizeBurn (burnId : BurnId) (attestation : PaymentReceiptAttestation)
  | reverseBurn (burnId : BurnId) (nowRound : UInt64)

/-- A call, with the burn id where there is one. -/
def IssuerCall.exec : IssuerCall → Command (Halt IssuerError) IssuerRegistry (Option BurnId)
  | .register issuer => do
    mapError .error (Precompiles.register issuer)
    return none
  | .mint issuer asset amount => do
    mapError .error (Precompiles.mint issuer asset amount)
    return none
  | .initiateBurn issuer asset amount nowRound => do
    let id ← mapError .error (Precompiles.initiateBurn issuer asset amount nowRound)
    return some id
  | .finalizeBurn burnId attestation => do
    Precompiles.finalizeBurn burnId attestation
    return none
  | .reverseBurn burnId nowRound => do
    Precompiles.reverseBurn burnId nowRound
    return none

/-- The registry a call leaves. -/
def issuerStep (r : IssuerRegistry) (call : IssuerCall) : IssuerRegistry := (call.exec r).2

/-- The same, method by method. -/
def IssuerCall.state (r : IssuerRegistry) : IssuerCall → IssuerRegistry
  | .register issuer => (Precompiles.register issuer r).2
  | .mint issuer asset amount => (Precompiles.mint issuer asset amount r).2
  | .initiateBurn issuer asset amount nowRound =>
    (Precompiles.initiateBurn issuer asset amount nowRound r).2
  | .finalizeBurn burnId attestation => (Precompiles.finalizeBurn burnId attestation r).2
  | .reverseBurn burnId nowRound => (Precompiles.reverseBurn burnId nowRound r).2

theorem issuerStep_eq (r : IssuerRegistry) (call : IssuerCall) : issuerStep r call = call.state r := by
  cases call <;> exact bind_pure_state _

/-! ## Reading a registry -/

namespace IssuerRegistry

variable (r : IssuerRegistry)

/-- What the issuer has outstanding over all assets. -/
def outstandingTotal (issuer : IssuerId) : Nat :=
  weigh (fun e => if (ofLex e.1).2 = issuer then e.2.outstanding.toNat else 0) r.supply

/-- The pending burns of a pair. -/
def pendingTotal (asset : AssetId) (issuer : IssuerId) : Nat :=
  weigh (fun e => if e.2.asset = asset ∧ e.2.issuer = issuer then e.2.amount.toNat else 0) r.pending

variable {r} {asset : AssetId} {issuer : IssuerId}

theorem supplyOf_setSupply (s : AssetSupply) (a : AssetId) (i : IssuerId) :
    (r.setSupply asset issuer s).supplyOf a i =
      if asset = a ∧ issuer = i then s else r.supplyOf a i := by
  unfold setSupply supplyOf
  rw [ExtTreeMap.getElem?_insert]
  simp only [Std.compare_eq_iff_eq, EmbeddingLike.apply_eq_iff_eq, Prod.mk.injEq]
  split <;> rfl

/-- Only the last of two writes of one record counts. -/
theorem setSupply_setSupply (s s' : AssetSupply) :
    (r.setSupply asset issuer s).setSupply asset issuer s' = r.setSupply asset issuer s' := by
  unfold setSupply
  congr 1
  apply ExtTreeMap.ext_getElem?
  intro k
  rw [ExtTreeMap.getElem?_insert, ExtTreeMap.getElem?_insert, ExtTreeMap.getElem?_insert]
  split <;> rfl

/-- Writing a record moves what is outstanding by the difference. -/
theorem outstandingTotal_setSupply (asset : AssetId) (issuer : IssuerId) (s : AssetSupply)
    (i : IssuerId) :
    (r.setSupply asset issuer s).outstandingTotal i +
        (if issuer = i then (r.supplyOf asset issuer).outstanding.toNat else 0) =
      r.outstandingTotal i + if issuer = i then s.outstanding.toNat else 0 := by
  have hmove := weigh_insert (fun e : SupplyKey × AssetSupply =>
    if (ofLex e.1).2 = i then e.2.outstanding.toNat else 0) r.supply (toLex (asset, issuer)) s
  have hold : ((r.supply[(toLex (asset, issuer) : SupplyKey)]?.map fun v =>
      if issuer = i then v.outstanding.toNat else 0)).getD 0 =
        if issuer = i then (r.supplyOf asset issuer).outstanding.toNat else 0 := by
    unfold supplyOf
    cases r.supply[(toLex (asset, issuer) : SupplyKey)]? with
    | none => simp [AssetSupply.default, AssetSupply.outstanding]
    | some v => rfl
  rw [← hold]
  exact hmove

/-- A record that has grown by at most `grown` adds at most that much to its issuer. -/
theorem outstandingTotal_setSupply_le {s : AssetSupply} {grown : Nat}
    (h : s.outstanding.toNat ≤ (r.supplyOf asset issuer).outstanding.toNat + grown) (i : IssuerId) :
    (r.setSupply asset issuer s).outstandingTotal i ≤
      r.outstandingTotal i + if issuer = i then grown else 0 := by
  have hmove := outstandingTotal_setSupply (r := r) asset issuer s i
  by_cases hi : issuer = i
  · rw [if_pos hi, if_pos hi] at hmove
    rw [if_pos hi]
    omega
  · rw [if_neg hi, if_neg hi] at hmove
    rw [if_neg hi]
    omega

/-- A burn under a fresh id comes on top of those of its pair … -/
theorem pendingTotal_insert {r' : IssuerRegistry} {id : BurnId} {burn : PendingBurn}
    (hfresh : r.pending[id]? = none) (h : r'.pending = r.pending.insert id burn) (a : AssetId)
    (i : IssuerId) : r'.pendingTotal a i =
      r.pendingTotal a i + if burn.asset = a ∧ burn.issuer = i then burn.amount.toNat else 0 := by
  have hmove := weigh_insert (fun e : BurnId × PendingBurn =>
    if e.2.asset = a ∧ e.2.issuer = i then e.2.amount.toNat else 0) r.pending id burn
  rw [hfresh, Option.map_none, Option.getD_none, Nat.add_zero] at hmove
  unfold pendingTotal
  rw [h, hmove]

/-- … and one that is taken out no longer counts. -/
theorem pendingTotal_erase {r' : IssuerRegistry} {id : BurnId} {burn : PendingBurn}
    (hburn : r.pending[id]? = some burn) (h : r'.pending = r.pending.erase id) (a : AssetId)
    (i : IssuerId) : r'.pendingTotal a i
      + (if burn.asset = a ∧ burn.issuer = i then burn.amount.toNat else 0) = r.pendingTotal a i := by
  have hmove := weigh_erase (fun e : BurnId × PendingBurn =>
    if e.2.asset = a ∧ e.2.issuer = i then e.2.amount.toNat else 0) r.pending id
  rw [hburn, Option.map_some, Option.getD_some] at hmove
  unfold pendingTotal
  rw [h, ← hmove]

end IssuerRegistry

/-- The loop adds up, as long as the sum fits. -/
theorem totalOutstanding_entries {issuer : IssuerId} {entries : List (SupplyKey × AssetSupply)}
    {total sum : Amount} : totalOutstanding issuer entries total = .ok sum ↔
      sum.toNat = total.toNat + (entries.map fun e =>
        if (ofLex e.1).2 = issuer then e.2.outstanding.toNat else 0).sum := by
  induction entries generalizing total with
  | nil =>
    simp only [totalOutstanding, Except.ok.injEq, List.map_nil, List.sum_nil, Nat.add_zero]
    rw [eq_comm, BitVec.toNat_eq]
  | cons e entries ih =>
    rw [List.map_cons, List.sum_cons]
    unfold totalOutstanding
    by_cases hissuer : (ofLex e.1).2 = issuer
    · rw [if_pos hissuer, if_pos hissuer]
      cases hadd : checkedAdd total e.2.outstanding with
      | none =>
        have := checkedAdd_eq_none_iff.mp hadd
        have := sum.isLt
        simp only [reduceCtorEq, false_iff]
        omega
      | some total' =>
        have := checkedAdd_eq_some_iff.mp hadd
        rw [ih]
        omega
    · rw [if_neg hissuer, if_neg hissuer, ih, Nat.zero_add]

theorem totalOutstanding_eq_ok_iff {r : IssuerRegistry} {issuer : IssuerId} {total : Amount} :
    totalOutstanding issuer r.supply.toList 0 = .ok total ↔
      total.toNat = r.outstandingTotal issuer := by
  have hzero : (0 : Amount).toNat = 0 := rfl
  rw [totalOutstanding_entries, hzero, Nat.zero_add]
  rfl

/-! ## What the calls do -/

section Calls

variable {r : IssuerRegistry} {issuer : IssuerId} {asset : AssetId} {amount : Amount}

/-- `entry(..).or_default()`. -/
def IssuerRegistry.touch (r : IssuerRegistry) (asset : AssetId) (issuer : IssuerId) :
    IssuerRegistry := r.setSupply asset issuer (r.supplyOf asset issuer)

@[simp] theorem IssuerRegistry.supplyOf_touch (a : AssetId) (i : IssuerId) :
    (r.touch asset issuer).supplyOf a i = r.supplyOf a i := by
  rw [touch, supplyOf_setSupply]
  split
  · next h => rw [h.1, h.2]
  · rfl

@[simp] theorem IssuerRegistry.outstandingTotal_touch (i : IssuerId) :
    (r.touch asset issuer).outstandingTotal i = r.outstandingTotal i := by
  have hmove := outstandingTotal_setSupply (r := r) asset issuer (r.supplyOf asset issuer) i
  rw [touch]
  omega

theorem register_guarded (record : Issuer) : Guarded (register record) r (fun out =>
    record.id ∉ r.issuers ∧
      out = (.ok (), { r with issuers := r.issuers.insert record.id record })) :=
  guarded_failWhen_bind fun _ => guarded_run _ _

/-- What the checks of a mint let through. -/
theorem mint_guarded : Guarded (mint issuer asset amount) r (fun out =>
    ∃ record, r.issuers[issuer]? = some record ∧
      r.outstandingTotal issuer + amount.toNat ≤ record.delegationCap.toNat ∧
      out = (do
        let minted ← fetch fun r =>
          okOr (checkedAdd (r.supplyOf asset issuer).totalMinted amount) .overflow
        write fun r => r.setSupply asset issuer
          { r.supplyOf asset issuer with totalMinted := minted } : Registrar Unit)
        (r.touch asset issuer)) := by
  refine (guarded_fetch_bind fun record _ => guarded_fetch_bind fun total _ => guarded_fetch_bind
    fun outstandingAfter _ => guarded_failIf_bind fun _ => guarded_run _ _).congr fun out => ?_
  simp only [okOr_eq_ok_iff, totalOutstanding_eq_ok_iff, checkedAdd_eq_some_iff, not_lt,
    write_bind_run, gt_iff_lt]
  constructor
  · rintro ⟨record, hrecord, total, htotal, after, hafter, hcap, hout⟩
    have := BitVec.le_def.mp hcap
    exact ⟨record, hrecord, by omega, hout⟩
  · rintro ⟨record, hrecord, hcap, hout⟩
    have hlt := record.delegationCap.isLt
    obtain ⟨total, htotal⟩ := exists_toNat_eq (w := 128) (n := r.outstandingTotal issuer) (by omega)
    obtain ⟨after, hafter⟩ := exists_toNat_eq (w := 128) (n := total.toNat + amount.toNat) (by omega)
    exact ⟨record, hrecord, total, htotal, after, hafter, BitVec.le_def.mpr (by omega), hout⟩

/-- A mint that fails leaves the registry, or at most an empty record behind. -/
theorem mint_cases : (∃ e, mint issuer asset amount r = (.error e, r)) ∨
    (∃ e record, r.issuers[issuer]? = some record ∧
      mint issuer asset amount r = (.error e, r.touch asset issuer)) ∨
    ∃ record minted, r.issuers[issuer]? = some record ∧
      minted.toNat = (r.supplyOf asset issuer).totalMinted.toNat + amount.toNat ∧
      r.outstandingTotal issuer + amount.toNat ≤ record.delegationCap.toNat ∧
      mint issuer asset amount r = (.ok (), r.setSupply asset issuer
        { r.supplyOf asset issuer with totalMinted := minted }) := by
  rcases mint_guarded with ⟨record, hrecord, hcap, hout⟩ | ⟨-, e, he⟩
  · refine .inr ?_
    rw [hout]
    cases hadd : checkedAdd (r.supplyOf asset issuer).totalMinted amount with
    | none =>
      refine .inl ⟨.overflow, record, hrecord, fetch_bind_run_error ?_⟩
      rw [supplyOf_touch, hadd]
      rfl
    | some minted =>
      refine .inr ⟨record, minted, hrecord, checkedAdd_eq_some_iff.mp hadd, hcap, ?_⟩
      rw [fetch_bind_run_ok (a := minted) (by rw [supplyOf_touch, hadd]; rfl), write_run,
        supplyOf_touch, touch, setSupply_setSupply]
  · exact .inl ⟨e, he⟩

/-- A mint within the cap succeeds, if the total still fits. -/
theorem mint_ok {record : Issuer} (hrecord : r.issuers[issuer]? = some record)
    (hcap : r.outstandingTotal issuer + amount.toNat ≤ record.delegationCap.toNat)
    (hfit : (r.supplyOf asset issuer).totalMinted.toNat + amount.toNat < 2 ^ 128) :
    ∃ r', mint issuer asset amount r = (.ok (), r') := by
  obtain ⟨minted, hminted⟩ := exists_toNat_eq hfit
  obtain ⟨_, -, -, hout⟩ := mint_guarded.of_exists ⟨record, hrecord, hcap, rfl⟩
  rw [hout, fetch_bind_run_ok (a := minted)
    (by rw [supplyOf_touch, checkedAdd_eq_some_iff.mpr hminted]; rfl), write_run]
  exact ⟨_, rfl⟩

/-- A burn that is not initiated leaves at most an empty record behind. -/
theorem initiateBurn_cases {nowRound : UInt64} :
    (∃ e, initiateBurn issuer asset amount nowRound r = (.error e, r)) ∨
    (∃ e, issuer ∈ r.issuers ∧
      initiateBurn issuer asset amount nowRound r = (.error e, r.touch asset issuer)) ∨
    ∃ reserved, issuer ∈ r.issuers ∧
      reserved.toNat = (r.supplyOf asset issuer).reservedForBurn.toNat + amount.toNat ∧
      amount.toNat ≤ (r.supplyOf asset issuer).circulating.toNat ∧
      initiateBurn issuer asset amount nowRound r = (.ok r.nextBurnId,
        { r.setSupply asset issuer { r.supplyOf asset issuer with reservedForBurn := reserved } with
          nextBurnId := r.nextBurnId + 1
          pending := r.pending.insert r.nextBurnId
            ⟨r.nextBurnId, asset, issuer, amount, nowRound, nowRound + r.slaWindowRounds⟩ }) := by
  unfold initiateBurn
  by_cases hreg : issuer ∈ r.issuers
  · refine .inr ?_
    rw [failWhen_bind_run_neg (p := fun r : IssuerRegistry => issuer ∉ r.issuers)
      (not_not.mpr hreg), write_bind_run,
      show r.setSupply asset issuer (r.supplyOf asset issuer) = r.touch asset issuer from rfl]
    by_cases hcirc : (r.supplyOf asset issuer).circulating < amount
    · exact .inl ⟨_, hreg, failWhen_bind_run_pos (by rwa [supplyOf_touch])⟩
    · rw [failWhen_bind_run_neg (by rwa [supplyOf_touch])]
      have hle : amount.toNat ≤ (r.supplyOf asset issuer).circulating.toNat :=
        BitVec.le_def.mp (not_lt.mp hcirc)
      cases hadd : checkedAdd (r.supplyOf asset issuer).reservedForBurn amount with
      | none =>
        refine .inl ⟨.overflow, hreg, fetch_bind_run_error ?_⟩
        rw [supplyOf_touch, hadd]
        rfl
      | some reserved =>
        refine .inr ⟨reserved, hreg, checkedAdd_eq_some_iff.mp hadd, hle, ?_⟩
        rw [fetch_bind_run_ok (a := reserved) (by rw [supplyOf_touch, hadd]; rfl), write_bind_run,
          read_bind_run, write_bind_run, supplyOf_touch, touch, setSupply_setSupply]
        rfl
  · exact .inl ⟨_, failWhen_bind_run_pos hreg⟩

end Calls

/-! ## Solvency -/

/-- Burned and reserved stay within minted. -/
def Solvent (r : IssuerRegistry) : Prop := ∀ asset issuer, (r.supplyOf asset issuer).totalBurned.toNat
  + (r.supplyOf asset issuer).reservedForBurn.toNat ≤ (r.supplyOf asset issuer).totalMinted.toNat

namespace Solvent

variable {r : IssuerRegistry}

variable {asset : AssetId} {issuer : IssuerId}

theorem setSupply (h : Solvent r) {s : AssetSupply}
    (hs : s.totalBurned.toNat + s.reservedForBurn.toNat ≤ s.totalMinted.toNat) :
    Solvent (r.setSupply asset issuer s) := by
  intro a i
  rw [supplyOf_setSupply]
  split
  · exact hs
  · exact h a i

theorem touch (h : Solvent r) : Solvent (r.touch asset issuer) :=
  h.setSupply (h asset issuer)

/-- What circulates may be reserved. -/
theorem reserve (h : Solvent r) {amount reserved : Amount}
    (hreserved : reserved.toNat = (r.supplyOf asset issuer).reservedForBurn.toNat + amount.toNat)
    (hcirculating : amount.toNat ≤ (r.supplyOf asset issuer).circulating.toNat) :
    Solvent (r.setSupply asset issuer { r.supplyOf asset issuer with reservedForBurn := reserved }) := by
  have hsolvent := h asset issuer
  simp only [AssetSupply.circulating, toNat_saturatingSub] at hcirculating
  refine h.setSupply ?_
  show (r.supplyOf asset issuer).totalBurned.toNat + reserved.toNat ≤
    (r.supplyOf asset issuer).totalMinted.toNat
  omega

end Solvent

/-! ## The ledger -/

/-- The registry adds up. -/
structure Ledger (r : IssuerRegistry) : Prop where
  /-- What is reserved is what is pending. -/
  reserved : ∀ asset issuer,
    (r.supplyOf asset issuer).reservedForBurn.toNat = r.pendingTotal asset issuer
  burned_le : ∀ asset issuer, (r.supplyOf asset issuer).totalBurned.toNat
    + (r.supplyOf asset issuer).reservedForBurn.toNat ≤ (r.supplyOf asset issuer).totalMinted.toNat
  /-- Nobody is above their cap; who is not registered has nothing outstanding. -/
  capped : ∀ issuer, r.outstandingTotal issuer ≤
    (r.issuers[issuer]?.map (·.delegationCap.toNat)).getD 0
  /-- A pending burn has a supply record. -/
  recorded : ∀ (id : BurnId) burn, r.pending[id]? = some burn →
    (toLex (burn.asset, burn.issuer) : SupplyKey) ∈ r.supply
  /-- Burn ids are handed out in order. -/
  numbered : ∀ id : BurnId, id ∈ r.pending → id < r.nextBurnId

/-- No reader can tell the two registries apart. -/
structure SameLedger (r r' : IssuerRegistry) : Prop where
  issuers : r'.issuers = r.issuers
  pending : r'.pending = r.pending
  supply : ∀ asset issuer, r'.supplyOf asset issuer = r.supplyOf asset issuer

/-- The burn is taken out of the pending ones; its amount is no longer reserved, and so much of it is
    burned. -/
structure BurnMoved (r r' : IssuerRegistry) (id : BurnId) (burn : PendingBurn) (burned : Nat) :
    Prop where
  pending : r.pending[id]? = some burn
  removed : r'.pending = r.pending.erase id
  reserved : (r'.supplyOf burn.asset burn.issuer).reservedForBurn.toNat + burn.amount.toNat =
    (r.supplyOf burn.asset burn.issuer).reservedForBurn.toNat
  burned : (r'.supplyOf burn.asset burn.issuer).totalBurned.toNat =
    (r.supplyOf burn.asset burn.issuer).totalBurned.toNat + burned
  minted : (r'.supplyOf burn.asset burn.issuer).totalMinted =
    (r.supplyOf burn.asset burn.issuer).totalMinted
  others : ∀ asset issuer, ¬ (burn.asset = asset ∧ burn.issuer = issuer) →
    r'.supplyOf asset issuer = r.supplyOf asset issuer
  issuers : r'.issuers = r.issuers

/-- The burn `id` is settled: so much stays reserved, so much is burned. -/
def IssuerRegistry.settle (r : IssuerRegistry) (id : BurnId) (burn : PendingBurn)
    (reserved burned : Amount) : IssuerRegistry :=
  { r.setSupply burn.asset burn.issuer { r.supplyOf burn.asset burn.issuer with
      reservedForBurn := reserved, totalBurned := burned } with
    pending := r.pending.erase id }

namespace Ledger

variable {r : IssuerRegistry} {issuer : IssuerId} {asset : AssetId} {amount : Amount}

theorem withSla (sla : UInt64) : Ledger (IssuerRegistry.withSla sla) where
  reserved asset issuer := rfl
  burned_le asset issuer := Nat.le_refl 0
  capped issuer := Nat.zero_le _
  recorded id burn h := by simp [IssuerRegistry.withSla] at h
  numbered id h := by simp [IssuerRegistry.withSla] at h

variable {burn : PendingBurn} {id : BurnId}

/-- The pending burn counts among those of its pair. -/
theorem amount_le (h : Ledger r) (hburn : r.pending[id]? = some burn) :
    burn.amount.toNat ≤ (r.supplyOf burn.asset burn.issuer).reservedForBurn.toNat := by
  rw [h.reserved, pendingTotal, ← weigh_erase _ r.pending id, hburn]
  simp

theorem supply_eq (h : Ledger r) (hburn : r.pending[id]? = some burn) :
    r.supply[(toLex (burn.asset, burn.issuer) : SupplyKey)]? =
      some (r.supplyOf burn.asset burn.issuer) := by
  have hmem := ExtTreeMap.mem_iff_isSome_getElem?.mp (h.recorded id burn hburn)
  obtain ⟨s, hs⟩ := Option.isSome_iff_exists.mp hmem
  rw [supplyOf, hs, Option.getD_some]

/-- What is reserved covers every pending burn. -/
theorem reserved_sub (h : Ledger r) (hburn : r.pending[id]? = some burn) : ∃ reserved, checkedSub
      (r.supplyOf burn.asset burn.issuer).reservedForBurn burn.amount = some reserved := by
  cases hsub : checkedSub (r.supplyOf burn.asset burn.issuer).reservedForBurn burn.amount with
  | none => exact absurd (checkedSub_eq_none_iff.mp hsub) (not_lt.mpr (h.amount_le hburn))
  | some reserved => exact ⟨reserved, rfl⟩

/-- What is burned stays within what was minted, and so within 128 bits. -/
theorem burned_add (h : Ledger r) (hburn : r.pending[id]? = some burn) : ∃ burned, checkedAdd
      (r.supplyOf burn.asset burn.issuer).totalBurned burn.amount = some burned := by
  have hle := h.amount_le hburn
  have hfit := h.burned_le burn.asset burn.issuer
  have hminted := (r.supplyOf burn.asset burn.issuer).totalMinted.isLt
  cases hadd : checkedAdd (r.supplyOf burn.asset burn.issuer).totalBurned burn.amount with
  | none => exact absurd (checkedAdd_eq_none_iff.mp hadd) (by omega)
  | some burned => exact ⟨burned, rfl⟩

/-- On a ledger that adds up, `finalize_burn` fails for an unknown id only. -/
theorem finalizeBurn_cases (h : Ledger r) (id : BurnId) (attestation : PaymentReceiptAttestation) :
    (finalizeBurn id attestation r = (.error (.error (.unknownBurn id)), r)) ∨
    ∃ burn reserved burned, r.pending[id]? = some burn ∧
      reserved.toNat + burn.amount.toNat =
        (r.supplyOf burn.asset burn.issuer).reservedForBurn.toNat ∧
      burned.toNat = (r.supplyOf burn.asset burn.issuer).totalBurned.toNat + burn.amount.toNat ∧
      finalizeBurn id attestation r = (.ok (), r.settle id burn reserved burned) := by
  unfold finalizeBurn
  cases hburn : r.pending[id]? with
  | none => exact .inl (fetch_bind_run_error (by rw [hburn]; rfl))
  | some burn =>
    obtain ⟨reserved, hreserved⟩ := h.reserved_sub hburn
    obtain ⟨burned, hburned⟩ := h.burned_add hburn
    refine .inr ⟨burn, reserved, burned, rfl, checkedSub_eq_some_iff.mp hreserved,
      checkedAdd_eq_some_iff.mp hburned, ?_⟩
    rw [fetch_bind_run_ok (a := burn) (by rw [hburn]; rfl), write_bind_run,
      fetch_bind_run_ok (a := r.supplyOf burn.asset burn.issuer) (by rw [h.supply_eq hburn]; rfl),
      fetch_bind_run_ok (a := reserved) (by rw [hreserved]; rfl), write_bind_run,
      fetch_bind_run_ok (a := burned) (by rw [hburned]; rfl), write_run, setSupply_setSupply]
    rfl

/-- On a ledger that adds up, `reverse_burn` fails for an unknown id or before the deadline only. -/
theorem reverseBurn_cases (h : Ledger r) (id : BurnId) (nowRound : UInt64) :
    (∃ e, reverseBurn id nowRound r = (.error (.error e), r)) ∨
    ∃ burn reserved, r.pending[id]? = some burn ∧
      reserved.toNat + burn.amount.toNat =
        (r.supplyOf burn.asset burn.issuer).reservedForBurn.toNat ∧
      reverseBurn id nowRound r =
        (.ok (), r.settle id burn reserved (r.supplyOf burn.asset burn.issuer).totalBurned) := by
  unfold reverseBurn
  cases hburn : r.pending[id]? with
  | none => exact .inl ⟨_, fetch_bind_run_error (by rw [hburn]; rfl)⟩
  | some burn =>
    rw [fetch_bind_run_ok (a := burn) (by rw [hburn]; rfl)]
    by_cases hearly : nowRound ≤ burn.slaDeadline
    · exact .inl ⟨_, failIf_bind_run_pos hearly⟩
    · obtain ⟨reserved, hreserved⟩ := h.reserved_sub hburn
      refine .inr ⟨burn, reserved, rfl, checkedSub_eq_some_iff.mp hreserved, ?_⟩
      rw [failIf_bind_run_neg hearly,
        fetch_bind_run_ok (a := r.supplyOf burn.asset burn.issuer) (by rw [h.supply_eq hburn]; rfl),
        fetch_bind_run_ok (a := reserved) (by rw [hreserved]; rfl), write_bind_run, write_run]
      rfl

/-! ## The calls keep the ledger -/

theorem touch (h : Ledger r) : Ledger (r.touch asset issuer) where
  reserved a i := by
    rw [supplyOf_touch]
    exact h.reserved a i
  burned_le a i := by
    rw [supplyOf_touch]
    exact h.burned_le a i
  capped i := by
    rw [outstandingTotal_touch]
    exact h.capped i
  recorded id burn hburn := ExtTreeMap.mem_insert.mpr (.inr (h.recorded id burn hburn))
  numbered := h.numbered

theorem register (h : Ledger r) {record : Issuer} (hnew : record.id ∉ r.issuers) :
    Ledger { r with issuers := r.issuers.insert record.id record } where
  reserved := h.reserved
  burned_le := h.burned_le
  capped i := by
    have hcap := h.capped i
    show r.outstandingTotal i ≤ ((r.issuers.insert record.id record)[i]?.map _).getD 0
    rw [ExtTreeMap.getElem?_insert]
    split
    · next heq =>
      obtain rfl := Std.compare_eq_iff_eq.mp heq
      rw [notMem_iff.mp hnew] at hcap
      exact hcap.trans (Nat.zero_le _)
    · exact hcap
  recorded := h.recorded
  numbered := h.numbered

theorem mint (h : Ledger r) {record : Issuer} {minted : Amount}
    (hrecord : r.issuers[issuer]? = some record)
    (hminted : minted.toNat = (r.supplyOf asset issuer).totalMinted.toNat + amount.toNat)
    (hcap : r.outstandingTotal issuer + amount.toNat ≤ record.delegationCap.toNat) :
    Ledger (r.setSupply asset issuer { r.supplyOf asset issuer with totalMinted := minted }) where
  reserved a i := by
    rw [supplyOf_setSupply]
    split
    · next heq =>
      obtain ⟨rfl, rfl⟩ := heq
      exact h.reserved asset issuer
    · exact h.reserved a i
  burned_le := by
    refine Solvent.setSupply h.burned_le ((h.burned_le asset issuer).trans ?_)
    show _ ≤ minted.toNat
    omega
  capped i := by
    have hgrown : ({ r.supplyOf asset issuer with totalMinted := minted } : AssetSupply).outstanding.toNat
        ≤ (r.supplyOf asset issuer).outstanding.toNat + amount.toNat := by
      simp only [AssetSupply.outstanding, toNat_saturatingSub]
      omega
    refine (outstandingTotal_setSupply_le hgrown i).trans ?_
    split
    · next hi =>
      subst hi
      show _ ≤ (r.issuers[issuer]?.map _).getD 0
      rwa [hrecord]
    · exact h.capped i
  recorded id burn hburn := ExtTreeMap.mem_insert.mpr (.inr (h.recorded id burn hburn))
  numbered := h.numbered

theorem initiateBurn (h : Ledger r) {reserved : Amount} {deadline now : UInt64}
    (hregistered : issuer ∈ r.issuers)
    (hreserved : reserved.toNat = (r.supplyOf asset issuer).reservedForBurn.toNat + amount.toNat)
    (hcirculating : amount.toNat ≤ (r.supplyOf asset issuer).circulating.toNat)
    (hroom : r.nextBurnId.toNat + 1 < 2 ^ 64) :
    Ledger { r.setSupply asset issuer { r.supplyOf asset issuer with reservedForBurn := reserved } with
      nextBurnId := r.nextBurnId + 1
      pending := r.pending.insert r.nextBurnId
        ⟨r.nextBurnId, asset, issuer, amount, now, deadline⟩ } where
  reserved a i := by
    -- the id is fresh, so that the burn comes on top of those that are pending
    have hfresh : r.pending[r.nextBurnId]? = none :=
      notMem_iff.mp fun hmem => lt_irrefl _ (h.numbered _ hmem)
    rw [pendingTotal_insert hfresh rfl, ← h.reserved a i]
    show ((r.setSupply asset issuer _).supplyOf a i).reservedForBurn.toNat = _
    rw [supplyOf_setSupply]
    by_cases heq : asset = a ∧ issuer = i
    · obtain ⟨rfl, rfl⟩ := heq
      rw [if_pos ⟨rfl, rfl⟩, if_pos ⟨rfl, rfl⟩]
      exact hreserved
    · rw [if_neg heq, if_neg heq, Nat.add_zero]
  burned_le := Solvent.reserve h.burned_le hreserved hcirculating
  capped i := by
    have hgrown : ({ r.supplyOf asset issuer with reservedForBurn := reserved }
        : AssetSupply).outstanding.toNat ≤ (r.supplyOf asset issuer).outstanding.toNat + 0 :=
      Nat.le_refl _
    refine (outstandingTotal_setSupply_le hgrown i).trans ?_
    rw [ite_self, Nat.add_zero]
    exact h.capped i
  recorded id burn hburn := by
    rw [ExtTreeMap.getElem?_insert] at hburn
    split at hburn
    · cases hburn
      exact ExtTreeMap.mem_insert_self
    · exact ExtTreeMap.mem_insert.mpr (.inr (h.recorded id burn hburn))
  numbered id hid := by
    have hnext : (r.nextBurnId + 1).toNat = r.nextBurnId.toNat + 1 := by
      rw [UInt64.toNat_add]
      exact Nat.mod_eq_of_lt hroom
    show id < r.nextBurnId + 1
    rw [UInt64.lt_iff_toNat_lt, hnext]
    rcases ExtTreeMap.mem_insert.mp hid with heq | hmem
    · obtain rfl := Std.compare_eq_iff_eq.mp heq
      omega
    · have := UInt64.lt_iff_toNat_lt.mp (h.numbered id hmem)
      omega

theorem settle (h : Ledger r) {reserved burned : Amount} (hburn : r.pending[id]? = some burn)
    (hreserved : reserved.toNat + burn.amount.toNat =
      (r.supplyOf burn.asset burn.issuer).reservedForBurn.toNat)
    (hmore : (r.supplyOf burn.asset burn.issuer).totalBurned.toNat ≤ burned.toNat)
    (hmost : burned.toNat ≤ (r.supplyOf burn.asset burn.issuer).totalBurned.toNat
      + burn.amount.toNat) : Ledger (r.settle id burn reserved burned) where
  reserved a i := by
    have hmove : (r.settle id burn reserved burned).pendingTotal a i + _ = r.pendingTotal a i :=
      pendingTotal_erase hburn rfl a i
    rw [← h.reserved a i] at hmove
    show ((r.setSupply burn.asset burn.issuer _).supplyOf a i).reservedForBurn.toNat = _
    rw [supplyOf_setSupply]
    by_cases heq : burn.asset = a ∧ burn.issuer = i
    · obtain ⟨rfl, rfl⟩ := heq
      rw [if_pos ⟨rfl, rfl⟩] at hmove ⊢
      show reserved.toNat = _
      omega
    · rw [if_neg heq] at hmove ⊢
      exact hmove.symm
  burned_le := by
    refine Solvent.setSupply h.burned_le (le_trans ?_ (h.burned_le burn.asset burn.issuer))
    show burned.toNat + reserved.toNat ≤ _
    omega
  capped i := by
    have hgrown : ({ r.supplyOf burn.asset burn.issuer with
        reservedForBurn := reserved, totalBurned := burned } : AssetSupply).outstanding.toNat
        ≤ (r.supplyOf burn.asset burn.issuer).outstanding.toNat + 0 := by
      simp only [AssetSupply.outstanding, toNat_saturatingSub]
      omega
    refine (outstandingTotal_setSupply_le hgrown i).trans ?_
    rw [ite_self, Nat.add_zero]
    exact h.capped i
  recorded id' burn' hburn' := by
    refine ExtTreeMap.mem_insert.mpr (.inr (h.recorded id' burn' ?_))
    change (r.pending.erase id)[id']? = some burn' at hburn'
    rw [ExtTreeMap.getElem?_erase] at hburn'
    split at hburn'
    · cases hburn'
    · exact hburn'
  numbered id' hid' := h.numbered id' (ExtTreeMap.mem_of_mem_erase hid')

end Ledger

/-! ## Every call, in one place -/

section Effects

variable {r : IssuerRegistry}

theorem SameLedger.refl (r : IssuerRegistry) : SameLedger r r := ⟨rfl, rfl, fun _ _ => rfl⟩

theorem SameLedger.touch (asset : AssetId) (issuer : IssuerId) : SameLedger r (r.touch asset issuer) :=
  ⟨rfl, rfl, fun _ _ => supplyOf_touch _ _⟩

/-- Settling moves the amount, whatever of it is burned. -/
theorem burnMoved_settle {id : BurnId} {burn : PendingBurn} {reserved burned : Amount} {more : Nat}
    (hburn : r.pending[id]? = some burn)
    (hreserved : reserved.toNat + burn.amount.toNat =
      (r.supplyOf burn.asset burn.issuer).reservedForBurn.toNat)
    (hburned : burned.toNat = (r.supplyOf burn.asset burn.issuer).totalBurned.toNat + more) :
    BurnMoved r (r.settle id burn reserved burned) id burn more := by
  have hsupply : ∀ asset issuer, (r.settle id burn reserved burned).supplyOf asset issuer =
      if burn.asset = asset ∧ burn.issuer = issuer then
        { r.supplyOf burn.asset burn.issuer with reservedForBurn := reserved, totalBurned := burned }
      else r.supplyOf asset issuer := supplyOf_setSupply _
  have hself := (hsupply burn.asset burn.issuer).trans (if_pos ⟨rfl, rfl⟩)
  exact
    { pending := hburn
      removed := rfl
      reserved := by rw [hself, ← hreserved]
      burned := by rw [hself, ← hburned]
      minted := by rw [hself]
      others := fun asset issuer hne => (hsupply asset issuer).trans (if_neg hne)
      issuers := rfl }

/-- What a call does to a ledger that adds up.  There is no case for a panic. -/
inductive CallEffect (r : IssuerRegistry) : IssuerCall →
    Except (Halt IssuerError) (Option BurnId) × IssuerRegistry → Prop
  | refused {call : IssuerCall} {e : IssuerError} {r' : IssuerRegistry} : SameLedger r r' →
      r'.nextBurnId = r.nextBurnId → CallEffect r call (.error (.error e), r')
  | registered {record : Issuer} {r' : IssuerRegistry} : r'.pending = r.pending →
      r'.nextBurnId = r.nextBurnId → CallEffect r (.register record) (.ok none, r')
  | minted {issuer : IssuerId} {asset : AssetId} {amount : Amount} {r' : IssuerRegistry} :
      r'.pending = r.pending → r'.nextBurnId = r.nextBurnId →
      CallEffect r (.mint issuer asset amount) (.ok none, r')
  | initiated {issuer : IssuerId} {asset : AssetId} {amount : Amount} {nowRound : UInt64}
      {burn : PendingBurn} {r' : IssuerRegistry} :
      r'.pending = r.pending.insert r.nextBurnId burn → r'.nextBurnId = r.nextBurnId + 1 →
      CallEffect r (.initiateBurn issuer asset amount nowRound) (.ok (some r.nextBurnId), r')
  | finalized {id : BurnId} {attestation : PaymentReceiptAttestation} {burn : PendingBurn}
      {r' : IssuerRegistry} : BurnMoved r r' id burn burn.amount.toNat →
      r'.nextBurnId = r.nextBurnId → CallEffect r (.finalizeBurn id attestation) (.ok none, r')
  | reversed {id : BurnId} {nowRound : UInt64} {burn : PendingBurn} {r' : IssuerRegistry} :
      BurnMoved r r' id burn 0 → r'.nextBurnId = r.nextBurnId →
      CallEffect r (.reverseBurn id nowRound) (.ok none, r')

/-- The call handed out a burn id. -/
def handsOut : Except (Halt IssuerError) (Option BurnId) → Bool
  | .ok (some _) => true
  | _ => false

namespace CallEffect

variable {call : IssuerCall} {out : Except (Halt IssuerError) (Option BurnId)} {r' : IssuerRegistry}

/-- Only `initiate_burn` adds to what is pending. -/
theorem mem_pending (h : CallEffect r call (out, r')) {id : BurnId} (hid : id ∈ r'.pending) :
    id ∈ r.pending ∨ id = r.nextBurnId := by
  cases h with
  | refused hsame _ => exact .inl (hsame.pending ▸ hid)
  | registered hpending _ => exact .inl (hpending ▸ hid)
  | minted hpending _ => exact .inl (hpending ▸ hid)
  | initiated hpending _ =>
    rw [hpending] at hid
    rcases ExtTreeMap.mem_insert.mp hid with heq | hmem
    · exact .inr (Std.compare_eq_iff_eq.mp heq).symm
    · exact .inl hmem
  | finalized hmoved _ => exact .inl (ExtTreeMap.mem_of_mem_erase (hmoved.removed ▸ hid))
  | reversed hmoved _ => exact .inl (ExtTreeMap.mem_of_mem_erase (hmoved.removed ▸ hid))

/-- The counter moves with every id that is handed out. -/
theorem nextBurnId_eq (h : CallEffect r call (out, r')) :
    r'.nextBurnId = if handsOut out then r.nextBurnId + 1 else r.nextBurnId := by
  cases h with
  | refused _ hnext => exact hnext
  | registered _ hnext => exact hnext
  | minted _ hnext => exact hnext
  | initiated _ hnext => exact hnext
  | finalized _ hnext => exact hnext
  | reversed _ hnext => exact hnext

theorem same_of_error {e : IssuerError} (h : CallEffect r call (.error (.error e), r')) :
    SameLedger r r' := by
  cases h with
  | refused hsame _ => exact hsame

theorem not_panicked {message : String} : ¬ CallEffect r call (.error (.panicked message), r') := by
  intro h
  cases h

end CallEffect

/-- A call that is refused, with a registry that no reader can tell from the one it found. -/
theorem Ledger.exec_refused {call : IssuerCall} {e : IssuerError} {r' : IssuerRegistry}
    (hrun : call.exec r = (.error (.error e), r')) (hsame : SameLedger r r')
    (hnext : r'.nextBurnId = r.nextBurnId) (h : Ledger r') : CallEffect r call (call.exec r) ∧
    ((∀ id, (call.exec r).1 = .ok (some id) → r.nextBurnId.toNat + 1 < 2 ^ 64) →
      Ledger (call.exec r).2) := by
  rw [hrun]
  exact ⟨.refused hsame hnext, fun _ => h⟩

/-- **The step**: on a ledger that adds up every call has its effect, and the ledger adds up behind it
    as long as the burn ids do not wrap. -/
theorem Ledger.exec (h : Ledger r) (call : IssuerCall) : CallEffect r call (call.exec r) ∧
    ((∀ id, (call.exec r).1 = .ok (some id) → r.nextBurnId.toNat + 1 < 2 ^ 64) →
      Ledger (call.exec r).2) := by
  cases call with
  | register record =>
    rcases register_guarded record with ⟨hnew, hrun⟩ | ⟨-, e, hrun⟩
    · have hexec : (IssuerCall.register record).exec r = _ := bind_run_ok (mapError_run_ok hrun)
      rw [hexec]
      exact ⟨.registered rfl rfl, fun _ => h.register hnew⟩
    · exact exec_refused (bind_run_error (mapError_run_error hrun)) (.refl r) rfl h
  | mint issuer asset amount =>
    rcases mint_cases with ⟨e, hrun⟩ | ⟨e, record, hrecord, hrun⟩ |
      ⟨record, minted, hrecord, hminted, hcap, hrun⟩
    · exact exec_refused (bind_run_error (mapError_run_error hrun)) (.refl r) rfl h
    · exact exec_refused (bind_run_error (mapError_run_error hrun)) (.touch asset issuer) rfl h.touch
    · have hexec : (IssuerCall.mint issuer asset amount).exec r = _ :=
        bind_run_ok (mapError_run_ok hrun)
      rw [hexec]
      exact ⟨.minted rfl rfl, fun _ => h.mint hrecord hminted hcap⟩
  | initiateBurn issuer asset amount nowRound =>
    rcases initiateBurn_cases with ⟨e, hrun⟩ | ⟨e, hregistered, hrun⟩ |
      ⟨reserved, hregistered, hreserved, hcirculating, hrun⟩
    · exact exec_refused (bind_run_error (mapError_run_error hrun)) (.refl r) rfl h
    · exact exec_refused (bind_run_error (mapError_run_error hrun)) (.touch asset issuer) rfl h.touch
    · have hexec : (IssuerCall.initiateBurn issuer asset amount nowRound).exec r = _ :=
        bind_run_ok (mapError_run_ok hrun)
      rw [hexec]
      exact ⟨.initiated rfl rfl, fun hroom => h.initiateBurn hregistered hreserved hcirculating
        (hroom r.nextBurnId rfl)⟩
  | finalizeBurn id attestation =>
    rcases h.finalizeBurn_cases id attestation with hrun |
      ⟨burn, reserved, burned, hburn, hreserved, hburned, hrun⟩
    · exact exec_refused (bind_run_error hrun) (.refl r) rfl h
    · have hexec : (IssuerCall.finalizeBurn id attestation).exec r = _ := bind_run_ok hrun
      rw [hexec]
      exact ⟨.finalized (burnMoved_settle hburn hreserved hburned) rfl,
        fun _ => h.settle hburn hreserved (by omega) (by omega)⟩
  | reverseBurn id nowRound =>
    rcases h.reverseBurn_cases id nowRound with ⟨e, hrun⟩ | ⟨burn, reserved, hburn, hreserved, hrun⟩
    · exact exec_refused (bind_run_error hrun) (.refl r) rfl h
    · have hexec : (IssuerCall.reverseBurn id nowRound).exec r = _ := bind_run_ok hrun
      rw [hexec]
      exact ⟨.reversed (burnMoved_settle hburn hreserved rfl) rfl,
        fun _ => h.settle hburn hreserved (Nat.le_refl _) (Nat.le_add_right _ _)⟩

end Effects

/-! ## Runs -/

abbrev IssuerEvent := Event IssuerRegistry IssuerCall

def outcome (a : IssuerEvent) : Except (Halt IssuerError) (Option BurnId) := (a.event.exec a.before).1

def after (a : IssuerEvent) : IssuerRegistry := issuerStep a.before a.event

/-- The burns of a run. -/
def burns (l : List IssuerEvent) : Nat := l.countP fun a => handsOut (outcome a)

def Finalizes (a : IssuerEvent) (id : BurnId) : Prop :=
  (∃ attestation, a.event = .finalizeBurn id attestation) ∧ outcome a = .ok none

def Reverses (a : IssuerEvent) (id : BurnId) : Prop :=
  (∃ nowRound, a.event = .reverseBurn id nowRound) ∧ outcome a = .ok none

def Resolves (a : IssuerEvent) (id : BurnId) : Prop := Finalizes a id ∨ Reverses a id

/-- No burn the call resolves has been resolved before, either way. -/
def ResolvesOnce (past : List IssuerEvent) (a : IssuerEvent) : Prop :=
  ∀ id, Resolves a id → ∀ b ∈ past, ¬ Resolves b id

/-- A run of the registry, accounted for. -/
structure Accounted (l : List IssuerEvent) (r : IssuerRegistry) : Prop where
  reserved : ∀ asset issuer,
    (r.supplyOf asset issuer).reservedForBurn.toNat = r.pendingTotal asset issuer
  burned_le : ∀ asset issuer, (r.supplyOf asset issuer).totalBurned.toNat
    + (r.supplyOf asset issuer).reservedForBurn.toNat ≤ (r.supplyOf asset issuer).totalMinted.toNat
  capped : ∀ issuer, r.outstandingTotal issuer ≤
    (r.issuers[issuer]?.map (·.delegationCap.toNat)).getD 0
  once : Chronicle ResolvesOnce l
  finalized : ∀ a ∈ l, ∀ id, Finalizes a id →
    ∃ burn, BurnMoved a.before (after a) id burn burn.amount.toNat
  reversed : ∀ a ∈ l, ∀ id, Reverses a id → ∃ burn, BurnMoved a.before (after a) id burn 0
  refused : ∀ a ∈ l, ∀ e, outcome a = .error (.error e) → SameLedger a.before (after a)
  safe : ∀ a ∈ l, ∀ message, outcome a ≠ .error (.panicked message)

section Events

variable {a : IssuerEvent} {l : List IssuerEvent} {r : IssuerRegistry}

/-- The effect of an event, result and registry apart. -/
theorem Ledger.effect (h : Ledger a.before) : CallEffect a.before a.event (outcome a, after a) :=
  (h.exec a.event).1

variable {id : BurnId}

theorem Ledger.finalized (h : Ledger a.before) (hf : Finalizes a id) :
    ∃ burn, BurnMoved a.before (after a) id burn burn.amount.toNat := by
  obtain ⟨⟨attestation, hcall⟩, hout⟩ := hf
  have heffect := h.effect
  rw [hcall, hout] at heffect
  cases heffect with
  | finalized hmoved => exact ⟨_, hmoved⟩

theorem Ledger.reversed (h : Ledger a.before) (hr : Reverses a id) :
    ∃ burn, BurnMoved a.before (after a) id burn 0 := by
  obtain ⟨⟨nowRound, hcall⟩, hout⟩ := hr
  have heffect := h.effect
  rw [hcall, hout] at heffect
  cases heffect with
  | reversed hmoved => exact ⟨_, hmoved⟩

/-- Either way the burn was pending and is taken out. -/
theorem Ledger.resolved (h : Ledger a.before) (hr : Resolves a id) :
    id ∈ a.before.pending ∧ (after a).pending = a.before.pending.erase id := by
  have hmem : ∀ {burn}, a.before.pending[id]? = some burn → id ∈ a.before.pending := fun hburn =>
    ExtTreeMap.mem_iff_isSome_getElem?.mpr (Option.isSome_of_eq_some hburn)
  rcases hr with hf | hr
  · obtain ⟨burn, hmoved⟩ := h.finalized hf
    exact ⟨hmem hmoved.pending, hmoved.removed⟩
  · obtain ⟨burn, hmoved⟩ := h.reversed hr
    exact ⟨hmem hmoved.pending, hmoved.removed⟩

theorem burns_concat (l : List IssuerEvent) (a : IssuerEvent) :
    burns (l ++ [a]) = burns l + if handsOut (outcome a) then 1 else 0 := by
  rw [burns, List.countP_append, List.countP_singleton]
  rfl

/-- The counter counts. -/
theorem Ledger.nextBurnId_after (h : Ledger a.before) (hroom : burns (l ++ [a]) < 2 ^ 64)
    (hcount : a.before.nextBurnId.toNat = burns l) : (after a).nextBurnId.toNat = burns (l ++ [a]) := by
  rw [burns_concat] at hroom ⊢
  rw [h.effect.nextBurnId_eq]
  by_cases hhand : handsOut (outcome a) = true
  · rw [if_pos hhand] at hroom
    rw [if_pos hhand, if_pos hhand, UInt64.toNat_add, hcount]
    exact Nat.mod_eq_of_lt hroom
  · rw [if_neg hhand, if_neg hhand, hcount, Nat.add_zero]

/-- What a run of fewer than 2⁶⁴ burns keeps. -/
structure IssuerInvariant (l : List IssuerEvent) (r : IssuerRegistry) : Prop where
  ledger : Ledger r
  ledgers : ∀ a ∈ l, Ledger a.before
  count : r.nextBurnId.toNat = burns l
  /-- A resolved id is behind the counter and gone from what is pending: it never comes back. -/
  gone : ∀ a ∈ l, ∀ id, Resolves a id → id < r.nextBurnId ∧ id ∉ r.pending
  once : Chronicle ResolvesOnce l

theorem IssuerInvariant.concat (h : IssuerInvariant l a.before) (hroom : burns (l ++ [a]) < 2 ^ 64) :
    IssuerInvariant (l ++ [a]) (after a) := by
  have hnext := h.ledger.nextBurnId_after hroom h.count
  have hgrow : a.before.nextBurnId.toNat ≤ (after a).nextBurnId.toNat := by
    rw [hnext, h.count, burns_concat]
    exact Nat.le_add_right _ _
  have hhands : ∀ id, outcome a = .ok (some id) → a.before.nextBurnId.toNat + 1 < 2 ^ 64 := by
    intro id hout
    rw [burns_concat, hout] at hroom
    rw [h.count]
    exact hroom
  refine ⟨(h.ledger.exec a.event).2 hhands, ?_, hnext, ?_, h.once.concat ?_⟩
  · intro b hb
    rcases List.mem_append.mp hb with hb | hb
    · exact h.ledgers b hb
    · cases List.mem_singleton.mp hb
      exact h.ledger
  · intro b hb id hid
    rcases List.mem_append.mp hb with hb | hb
    · -- resolved earlier: behind the counter already, so the call cannot hand it out again
      obtain ⟨hlt, hgone⟩ := h.gone b hb id hid
      refine ⟨UInt64.lt_iff_toNat_lt.mpr ((UInt64.lt_iff_toNat_lt.mp hlt).trans_le hgrow), ?_⟩
      intro hmem
      rcases h.ledger.effect.mem_pending hmem with hmem | rfl
      · exact hgone hmem
      · exact lt_irrefl _ hlt
    · cases List.mem_singleton.mp hb
      obtain ⟨hmem, herase⟩ := h.ledger.resolved hid
      have hlt := UInt64.lt_iff_toNat_lt.mp (h.ledger.numbered id hmem)
      refine ⟨UInt64.lt_iff_toNat_lt.mpr (hlt.trans_le hgrow), ?_⟩
      rw [herase]
      exact notMem_iff.mpr ExtTreeMap.getElem?_erase_self
  · intro id hid b hb hb'
    exact (h.gone b hb id hb').2 (h.ledger.resolved hid).1

/-- **The run.**  A prefix of it hands out no more burn ids than the whole. -/
theorem issuerInvariant_trace (sla : UInt64) (calls : List IssuerCall) :
    burns (trace issuerStep calls (withSla sla)) < 2 ^ 64 →
    IssuerInvariant (trace issuerStep calls (withSla sla)) (calls.foldl issuerStep (withSla sla)) := by
  refine trace_invariant (I := fun l r => burns l < 2 ^ 64 → IssuerInvariant l r) ?_ ?_ calls
  · intro _
    exact ⟨.withSla sla, List.forall_mem_nil _, rfl, List.forall_mem_nil _, chronicle_nil⟩
  · intro l r call ih hroom
    have hshorter : burns l ≤ burns (l ++ [⟨call, r⟩]) := by
      rw [burns_concat]
      exact Nat.le_add_right _ _
    exact (ih (hshorter.trans_lt hroom)).concat hroom

end Events

/-- **The issuer ledger**: a run of any calls on a fresh registry is accounted for. -/
theorem issuer_ledger (sla : UInt64) (calls : List IssuerCall)
    (hburns : burns (trace issuerStep calls (withSla sla)) < 2 ^ 64) :
    Accounted (trace issuerStep calls (withSla sla)) (calls.foldl issuerStep (withSla sla)) := by
  have h := issuerInvariant_trace sla calls hburns
  refine ⟨h.ledger.reserved, h.ledger.burned_le, h.ledger.capped, h.once,
    fun a ha id => (h.ledgers a ha).finalized, fun a ha id => (h.ledgers a ha).reversed, ?_, ?_⟩
  · intro a ha e hout
    have heffect := (h.ledgers a ha).effect
    rw [hout] at heffect
    exact heffect.same_of_error
  · intro a ha message hout
    have heffect := (h.ledgers a ha).effect
    rw [hout] at heffect
    exact heffect.not_panicked

/-! ## Solvency of every run -/

namespace Solvent

variable {r : IssuerRegistry}

/-- A pending burn of any origin: what `finalize_burn` and `reverse_burn` take from the reserved part
    was there. -/
theorem settled (h : Solvent r) {burn : PendingBurn} {entry : AssetSupply}
    (hentry : r.supply[(toLex (burn.asset, burn.issuer) : SupplyKey)]? = some entry)
    {s : AssetSupply} (hminted : s.totalMinted = entry.totalMinted)
    (hle : s.totalBurned.toNat + s.reservedForBurn.toNat ≤
      entry.totalBurned.toNat + entry.reservedForBurn.toNat) :
    Solvent (r.setSupply burn.asset burn.issuer s) := by
  have hsolvent := h burn.asset burn.issuer
  rw [supplyOf, hentry, Option.getD_some] at hsolvent
  exact h.setSupply (hle.trans (hminted ▸ hsolvent))

/-- The calls lead from solvent registries to solvent ones. -/
def Kept (r r' : IssuerRegistry) : Prop := Solvent r → Solvent r'

instance : IsPreorder IssuerRegistry Kept where
  refl _ h := h
  trans _ _ _ hst htu h := htu (hst h)

theorem finalizeBurn_leads (id : BurnId) (attestation : PaymentReceiptAttestation) :
    Leads Kept (finalizeBurn id attestation) r := by
  refine leads_fetch_bind fun burn _ => Leads.bind (leads_write fun h => h) fun _ r₁ _ =>
    leads_fetch_bind fun entry hentry => leads_fetch_bind fun reserved hsub => ?_
  have hreserved := checkedSub_eq_some_iff.mp (okOr_eq_ok_iff.mp hsub)
  rw [okOr_eq_ok_iff] at hentry
  -- the two last writes go together: between them the burn is neither reserved nor burned
  show Kept r₁ ((write _ >>= _) r₁).2
  intro h
  rw [write_bind_run]
  cases hadd : checkedAdd entry.totalBurned burn.amount with
  | none =>
    exact h.settled (s := { entry with reservedForBurn := reserved }) hentry rfl
      (Nat.add_le_add_left (hreserved ▸ Nat.le_add_right _ _) _)
  | some burned =>
    have hburned := checkedAdd_eq_some_iff.mp hadd
    show Solvent ((r₁.setSupply _ _ _).setSupply burn.asset burn.issuer
      { entry with reservedForBurn := reserved, totalBurned := burned })
    rw [setSupply_setSupply]
    refine h.settled hentry rfl ?_
    show burned.toNat + reserved.toNat ≤ _
    omega

theorem reverseBurn_leads (id : BurnId) (nowRound : UInt64) :
    Leads Kept (reverseBurn id nowRound) r := by
  refine leads_fetch_bind fun burn _ => leads_failIf_bind fun _ => leads_fetch_bind fun entry hentry =>
    leads_fetch_bind fun reserved hsub => Leads.bind (leads_write fun h => ?_) fun _ _ _ =>
      leads_write fun h => h
  have hreserved := checkedSub_eq_some_iff.mp (okOr_eq_ok_iff.mp hsub)
  exact h.settled (s := { entry with reservedForBurn := reserved }) (okOr_eq_ok_iff.mp hentry) rfl
    (Nat.add_le_add_left (hreserved ▸ Nat.le_add_right _ _) _)

theorem issuerStep (h : Solvent r) (call : IssuerCall) : Solvent (issuerStep r call) := by
  rw [issuerStep_eq]
  cases call with
  | register record =>
    rcases register_guarded record with ⟨-, hrun⟩ | ⟨-, e, hrun⟩ <;> rw [IssuerCall.state, hrun]
    · exact h
    · exact h
  | mint issuer asset amount =>
    rcases mint_cases with ⟨e, hrun⟩ | ⟨e, record, -, hrun⟩ | ⟨record, minted, -, hminted, -, hrun⟩ <;>
      rw [IssuerCall.state, hrun]
    · exact h
    · exact h.touch
    · refine h.setSupply ((h asset issuer).trans ?_)
      show _ ≤ minted.toNat
      omega
  | initiateBurn issuer asset amount nowRound =>
    rcases initiateBurn_cases with ⟨e, hrun⟩ | ⟨e, -, hrun⟩ |
      ⟨reserved, -, hreserved, hcirculating, hrun⟩ <;> rw [IssuerCall.state, hrun]
    · exact h
    · exact h.touch
    · exact h.reserve hreserved hcirculating
  | finalizeBurn id attestation => exact finalizeBurn_leads id attestation h
  | reverseBurn id nowRound => exact reverseBurn_leads id nowRound h

/-- **Every registry is solvent**, however many burns it has seen. -/
theorem run (sla : UInt64) (calls : List IssuerCall) :
    Solvent (calls.foldl Precompiles.issuerStep (withSla sla)) :=
  Along.invariant (P := fun _ _ => True) (I := Solvent) (fun r call h _ => h.issuerStep call)
    (Ledger.withSla sla).burned_le (along_of_forall (fun _ _ _ => trivial) _)

end Solvent

/-- Mint 10 of a cap of 10, reserve 4 and 3, finalize the first and reverse the second. -/
def mintAndBurn : List IssuerCall :=
  [.register ⟨1, 0, 10, 0, 0⟩,
   .mint 1 7 10,
   .initiateBurn 1 7 4 0,
   .initiateBurn 1 7 3 0,
   .finalizeBurn 0 ⟨9⟩,
   .reverseBurn 1 6,
   .reverseBurn 0 6]

theorem issuer_ledger_mintAndBurn :
    burns (trace issuerStep mintAndBurn (withSla 5)) = 2 ∧
    Accounted (trace issuerStep mintAndBurn (withSla 5)) (mintAndBurn.foldl issuerStep (withSla 5)) :=
  ⟨by decide +kernel, issuer_ledger 5 mintAndBurn (by decide +kernel)⟩

/-! ## The deadline of a burn -/

/-- No burn came in, and the window is the same. -/
def NoneCame (r r' : IssuerRegistry) : Prop :=
  r'.slaWindowRounds = r.slaWindowRounds ∧
    ∀ (id : BurnId) (burn : PendingBurn), r'.pending[id]? = some burn → r.pending[id]? = some burn

instance noneCamePreorder : IsPreorder IssuerRegistry NoneCame where
  refl _ := ⟨rfl, fun _ _ h => h⟩
  trans _ _ _ hst htu := ⟨htu.1.trans hst.1, fun id burn h => hst.2 id burn (htu.2 id burn h)⟩

section Deadline

variable {r : IssuerRegistry}

theorem noneCame_setSupply {asset : AssetId} {issuer : IssuerId} {entry : AssetSupply} :
    NoneCame r (r.setSupply asset issuer entry) := ⟨rfl, fun _ _ h => h⟩

theorem noneCame_erase (id : BurnId) : NoneCame r { r with pending := r.pending.erase id } := by
  refine ⟨rfl, fun id' burn h => ?_⟩
  have h : (r.pending.erase id)[id']? = some burn := h
  rw [ExtTreeMap.getElem?_erase] at h
  split at h
  · cases h
  · exact h

/-- A burn is not initiated, or handed out with its record. -/
theorem pending_initiateBurn {issuer : IssuerId} {asset : AssetId} {amount : Amount}
    {nowRound : UInt64} {call : IssuerCall} (hcall : call = .initiateBurn issuer asset amount nowRound) :
    (issuerStep r call).slaWindowRounds = r.slaWindowRounds ∧
    ((∃ e, (call.exec r).1 = .error e) ∧ (issuerStep r call).pending = r.pending ∨
      (call.exec r).1 = .ok (some r.nextBurnId) ∧ (issuerStep r call).pending =
        r.pending.insert r.nextBurnId
          ⟨r.nextBurnId, asset, issuer, amount, nowRound, nowRound + r.slaWindowRounds⟩) := by
  subst hcall
  have hrefused : ∀ {e r'}, initiateBurn issuer asset amount nowRound r = (.error e, r') →
      (IssuerCall.initiateBurn issuer asset amount nowRound).exec r = (.error (.error e), r') :=
    fun hrun => bind_run_error (mapError_run_error hrun)
  rcases initiateBurn_cases with ⟨e, hrun⟩ | ⟨e, -, hrun⟩ | ⟨reserved, -, -, -, hrun⟩
  · rw [issuerStep, hrefused hrun]
    exact ⟨rfl, .inl ⟨⟨_, rfl⟩, rfl⟩⟩
  · rw [issuerStep, hrefused hrun]
    exact ⟨rfl, .inl ⟨⟨_, rfl⟩, rfl⟩⟩
  · have hexec : (IssuerCall.initiateBurn issuer asset amount nowRound).exec r = _ :=
      bind_run_ok (mapError_run_ok hrun)
    rw [issuerStep, hexec]
    exact ⟨rfl, .inr ⟨rfl, rfl⟩⟩

theorem noneCame_issuerStep {call : IssuerCall}
    (h : ∀ issuer asset amount nowRound, call ≠ .initiateBurn issuer asset amount nowRound) :
    NoneCame r (issuerStep r call) := by
  rw [issuerStep_eq]
  cases call with
  | register record =>
    rcases register_guarded record with ⟨-, hrun⟩ | ⟨-, e, hrun⟩ <;> rw [IssuerCall.state, hrun]
    · exact ⟨rfl, fun _ _ h => h⟩
    · exact refl_of NoneCame r
  | mint issuer asset amount =>
    rcases mint_cases with ⟨e, hrun⟩ | ⟨e, record, -, hrun⟩ | ⟨record, minted, -, -, -, hrun⟩ <;>
      rw [IssuerCall.state, hrun]
    · exact refl_of NoneCame r
    · exact noneCame_setSupply
    · exact noneCame_setSupply
  | initiateBurn issuer asset amount nowRound => exact absurd rfl (h issuer asset amount nowRound)
  | finalizeBurn id attestation =>
    show Leads NoneCame (finalizeBurn id attestation) r
    exact leads_fetch_bind fun _ _ => Leads.bind (leads_write (noneCame_erase id)) fun _ _ _ =>
      leads_fetch_bind fun _ _ => leads_fetch_bind fun _ _ => Leads.bind
        (leads_write noneCame_setSupply) fun _ _ _ => leads_fetch_bind fun _ _ =>
          leads_write noneCame_setSupply
  | reverseBurn id nowRound =>
    show Leads NoneCame (reverseBurn id nowRound) r
    exact leads_fetch_bind fun _ _ => leads_failIf_bind fun _ => leads_fetch_bind fun _ _ =>
      leads_fetch_bind fun _ _ => Leads.bind (leads_write noneCame_setSupply) fun _ _ _ =>
        leads_write (noneCame_erase id)

/-- A call keeps the window, and brings a burn in only under the id it hands out. -/
theorem pending_issuerStep (call : IssuerCall) :
    (issuerStep r call).slaWindowRounds = r.slaWindowRounds ∧
    ∀ (id : BurnId) (burn : PendingBurn), (call.exec r).1 ≠ .ok (some id) →
      (issuerStep r call).pending[id]? = some burn → r.pending[id]? = some burn := by
  by_cases hinit : ∃ issuer asset amount nowRound, call = .initiateBurn issuer asset amount nowRound
  · obtain ⟨issuer, asset, amount, nowRound, rfl⟩ := hinit
    obtain ⟨hsla, ⟨-, hpending⟩ | ⟨hout, hpending⟩⟩ := pending_initiateBurn (r := r) rfl
    · exact ⟨hsla, fun id burn _ h => hpending ▸ h⟩
    · refine ⟨hsla, fun id burn hne h => ?_⟩
      rw [hpending, ExtTreeMap.getElem?_insert, if_neg] at h
      · exact h
      · rw [Std.compare_eq_iff_eq]
        rintro rfl
        exact hne hout
  · push Not at hinit
    have hnone := noneCame_issuerStep (r := r) hinit
    exact ⟨hnone.1, fun id burn _ => hnone.2 id burn⟩

end Deadline

/-- **No burn is reversed before its deadline**, as long as the deadline is within 64 bits: a burn is
    initiated at `round` under an id that no later call hands out again, and reversed at `now`. -/
theorem reversed_after_deadline (sla : UInt64) (earlier later : List IssuerCall) (issuer : IssuerId)
    (asset : AssetId) (amount : Amount) (round now : UInt64) (id : BurnId)
    (hfits : round.toNat + sla.toNat < 2 ^ 64) :
    let r := earlier.foldl issuerStep (withSla sla)
    let call := IssuerCall.initiateBurn issuer asset amount round
    (call.exec r).1 = .ok (some id) →
    Along issuerStep (fun r c => (c.exec r).1 ≠ .ok (some id)) later (issuerStep r call) →
    (reverseBurn id now (later.foldl issuerStep (issuerStep r call))).1 = .ok () →
    round.toNat + sla.toNat < now.toNat := by
  intro r call hid honly hreversed
  have hsla : r.slaWindowRounds = sla :=
    Along.invariant (P := fun _ _ => True) (I := fun r : IssuerRegistry => r.slaWindowRounds = sla)
      (fun r call h _ => (pending_issuerStep call).1.trans h) rfl
      (along_of_forall (fun _ _ _ => trivial) _)
  -- the record under the id is the one of this call, as long as it is there
  have hdated : ∀ burn : PendingBurn,
      (later.foldl issuerStep (issuerStep r call)).pending[id]? = some burn →
        burn.slaDeadline = round + sla := by
    refine honly.invariant (I := fun r : IssuerRegistry => ∀ burn : PendingBurn,
      r.pending[id]? = some burn → burn.slaDeadline = round + sla) ?_ ?_
    · exact fun r c h hne burn hburn => h burn ((pending_issuerStep c).2 id burn hne hburn)
    · intro burn hburn
      have hcall : call = .initiateBurn issuer asset amount round := rfl
      obtain ⟨-, ⟨⟨e, he⟩, -⟩ | ⟨hout, hpending⟩⟩ := pending_initiateBurn (r := r) hcall
      · cases he.symm.trans hid
      · cases hout.symm.trans hid
        rw [hpending, ExtTreeMap.getElem?_insert_self] at hburn
        cases hburn
        rw [hsla]
  generalize later.foldl issuerStep (issuerStep r call) = final at hdated hreversed
  have hguarded : Guarded (reverseBurn id now) final _ :=
    guarded_fetch_bind fun burn _ => guarded_failIf_bind fun _ => guarded_run _ _
  obtain ⟨burn, hburn, hlate, -⟩ := hguarded.ok (Prod.ext hreversed rfl)
  rw [hdated burn (okOr_eq_ok_iff.mp hburn), UInt64.le_iff_toNat_le, UInt64.toNat_add,
    Nat.mod_eq_of_lt hfits] at hlate
  exact not_le.mp hlate

/-- One issuer with ten tokens. -/
def oneIssuer : List IssuerCall := [.register ⟨1, 0, 10, 0, 0⟩, .mint 1 7 10]

theorem reversed_after_deadline_oneIssuer :
    (reverseBurn 0 9 (issuerStep (oneIssuer.foldl issuerStep (withSla 5)) (.initiateBurn 1 7 4 3))).1 =
        .ok () ∧
      3 + 5 < 9 :=
  have hreversed : (reverseBurn 0 9 (issuerStep (oneIssuer.foldl issuerStep (withSla 5))
    (.initiateBurn 1 7 4 3))).1 = .ok () := by decide +kernel
  ⟨hreversed, reversed_after_deadline 5 oneIssuer [] 1 7 4 3 9 0 (by decide) (by decide +kernel)
    trivial hreversed⟩

/-- A window as long as there are rounds: the deadline wraps, and the burn of round 1 is reversed at
    round 2. -/
theorem wrapped_deadline_reversed :
    let r := oneIssuer.foldl issuerStep (withSla (2 ^ 64 - 1))
    let call := IssuerCall.initiateBurn 1 7 4 1
    (call.exec r).1 = .ok (some 0) ∧ (reverseBurn 0 2 (issuerStep r call)).1 = .ok () ∧
      (2 : UInt64).toNat < (1 : UInt64).toNat + (2 ^ 64 - 1 : UInt64).toNat := by
  decide +kernel

end SuwappuDag.Precompiles
