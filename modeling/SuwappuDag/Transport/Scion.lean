/-
  SCION PATH AUTHENTICATION (`suwappu-transport/src/scion.rs`).

  1. **Program** — a path is a list of hop fields, each with a MAC over the previous MAC and the hop's
     interfaces and expiration, under the key its AS has in the trust root configuration.  `sealPath`
     overwrites the MACs in one pass; `verifyPath` recomputes them in one pass and compares.
  2. **Chain** — `Chained`: every hop is authorised and its MAC is the one computed from the MAC before.
     Both loops are about it: `verifyHops_ok_iff` adds the expirations, and a list is left as it is by
     sealing exactly if it is chained (`sealHops_eq_self_iff`).
  3. **Result** — a path verifies exactly if it is a fresh path that sealing reproduces
     (`verifyPath_ok_iff`); what was sealed is accepted until it expires
     (`verifyPath_sealPath_iff`).
-/
import SuwappuDag.Lib.Words

namespace SuwappuDag.Transport

open Words
open Std (ExtTreeMap)

abbrev IsdId := UInt16

abbrev AsId := UInt32

/-- Sixteen bytes. -/
abbrev HopMac := BitVec 128

@[ext] structure HopField where
  isdAs : IsdId × AsId
  ingressIface : UInt16
  egressIface : UInt16
  expirationRound : UInt64
  mac : HopMac
deriving DecidableEq

@[ext] structure Path where
  isd : IsdId
  hops : List HopField
  createdAt : UInt64
deriving DecidableEq

structure TrustRootConfig where
  isd : IsdId
  version : UInt32
  asKeys : ExtTreeMap AsId Bytes32
  validUntil : UInt64

inductive ScionError where
  | isdMismatch (pathIsd trcIsd : IsdId)
  | trcExpired (expiredAt : UInt64)
  | emptyPath
  | unauthorizedAs (hopIndex : Nat) (isd : IsdId) (asId : AsId)
  | hopExpired (hopIndex : Nat) (expirationRound now : UInt64)
  | invalidHopMac (hopIndex : Nat)
deriving DecidableEq

/-- BLAKE3, plain and keyed. -/
structure PathCrypto where
  blake3 : List UInt8 → Bytes32
  blake3Keyed : Bytes32 → List UInt8 → Bytes32

/-! ## The program -/

/-- The first sixteen bytes of a digest. -/
def truncate (digest : Bytes32) : HopMac := digest.extractLsb' 128 128

/-- What the MAC of a hop covers: neither its ISD nor its AS. -/
def hopMessage (prevMac : HopMac) (hop : HopField) : List UInt8 :=
  beBytes 16 prevMac.toNat ++ beBytes 2 hop.ingressIface.toNat ++ beBytes 2 hop.egressIface.toNat
    ++ beBytes 8 hop.expirationRound.toNat

section Program

variable (C : PathCrypto)

def hopMac (asKey : Bytes32) (prevMac : HopMac) (hop : HopField) : HopMac :=
  truncate (C.blake3Keyed asKey (hopMessage prevMac hop))

def pathSeedMac (path : Path) : HopMac :=
  truncate (C.blake3 (asciiBytes "SUWAPPU-SCION-PATH-SEED-V1" ++ beBytes 2 path.isd.toNat
    ++ beBytes 8 path.createdAt.toNat))

/-- The loop of `seal_path` from hop `idx` on. -/
def sealHops (trc : TrustRootConfig) : Nat → HopMac → List HopField → Except ScionError (List HopField)
  | _, _, [] => .ok []
  | idx, seed, hop :: rest =>
    match trc.asKeys[hop.isdAs.2]? with
    | none => .error (.unauthorizedAs idx hop.isdAs.1 hop.isdAs.2)
    | some key =>
      let mac := hopMac C key seed hop
      match sealHops trc (idx + 1) mac rest with
      | .error e => .error e
      | .ok hops => .ok ({ hop with mac } :: hops)

def sealPath (isd : IsdId) (createdAt : UInt64) (hops : List HopField) (trc : TrustRootConfig) :
    Except ScionError Path :=
  match sealHops C trc 0 (pathSeedMac C ⟨isd, [], createdAt⟩) hops with
  | .error e => .error e
  | .ok hops => .ok ⟨isd, hops, createdAt⟩

/-- The loop of `verify_path` from hop `idx` on. -/
def verifyHops (trc : TrustRootConfig) (now : UInt64) :
    Nat → HopMac → List HopField → Except ScionError Unit
  | _, _, [] => .ok ()
  | idx, prev, hop :: rest =>
    match trc.asKeys[hop.isdAs.2]? with
    | none => .error (.unauthorizedAs idx hop.isdAs.1 hop.isdAs.2)
    | some key =>
      if hop.expirationRound < now then .error (.hopExpired idx hop.expirationRound now)
      else if hopMac C key prev hop ≠ hop.mac then .error (.invalidHopMac idx)
      else verifyHops trc now (idx + 1) hop.mac rest

def verifyPath (path : Path) (trc : TrustRootConfig) (now : UInt64) : Except ScionError Unit :=
  if path.isd ≠ trc.isd then .error (.isdMismatch path.isd trc.isd)
  else if trc.validUntil < now then .error (.trcExpired trc.validUntil)
  else if path.hops.isEmpty then .error .emptyPath
  else verifyHops C trc now 0 (pathSeedMac C path) path.hops

end Program

/-! ## The chain -/

/-- From the MAC `prev` on, every hop is authorised and carries the MAC computed from the one before. -/
def Chained (C : PathCrypto) (trc : TrustRootConfig) : HopMac → List HopField → Prop
  | _, [] => True
  | prev, hop :: rest =>
    (∃ key, trc.asKeys[hop.isdAs.2]? = some key ∧ hopMac C key prev hop = hop.mac) ∧
      Chained C trc hop.mac rest

section Chain

variable {C : PathCrypto} {trc : TrustRootConfig} {now : UInt64}

/-- **The checking loop** accepts the chains of unexpired hops, whatever index it counts from. -/
theorem verifyHops_ok_iff {hops : List HopField} : ∀ {idx : Nat} {prev : HopMac},
    verifyHops C trc now idx prev hops = .ok () ↔
      (∀ hop ∈ hops, now ≤ hop.expirationRound) ∧ Chained C trc prev hops := by
  induction hops with
  | nil => simp [verifyHops, Chained]
  | cons hop rest ih =>
    intro idx prev
    rw [verifyHops, Chained, List.forall_mem_cons]
    cases hkey : trc.asKeys[hop.isdAs.2]? with
    | none => simp
    | some key =>
      simp only [Option.some.injEq, exists_eq_left']
      by_cases hexp : hop.expirationRound < now
      · simp [hexp, not_le.mpr hexp]
      · rw [if_neg hexp]
        by_cases hmac : hopMac C key prev hop = hop.mac
        · rw [if_neg (not_not.mpr hmac), ih]
          simp only [not_lt.mp hexp, hmac, true_and]
        · simp [hmac]

theorem hopMac_congr {key : Bytes32} {prev : HopMac} (hop : HopField) (mac : HopMac) :
    hopMac C key prev { hop with mac } = hopMac C key prev hop := rfl

/-- The sealing loop at a hop: the key of its AS, the MAC under it, and the rest from that MAC. -/
theorem sealHops_cons_ok_iff {hop : HopField} {rest out : List HopField} {idx : Nat} {seed : HopMac} :
    sealHops C trc idx seed (hop :: rest) = .ok out ↔
      ∃ key tail, trc.asKeys[hop.isdAs.2]? = some key ∧
        sealHops C trc (idx + 1) (hopMac C key seed hop) rest = .ok tail ∧
        out = { hop with mac := hopMac C key seed hop } :: tail := by
  rw [sealHops]
  cases hkey : trc.asKeys[hop.isdAs.2]? with
  | none => simp
  | some key =>
    simp only [Option.some.injEq, exists_and_left, exists_eq_left']
    cases hrest : sealHops C trc (idx + 1) (hopMac C key seed hop) rest with
    | error e => simp
    | ok tail => simp [eq_comm]

/-- **The sealing loop** leaves exactly the chains as they are. -/
theorem sealHops_eq_self_iff {hops : List HopField} : ∀ {idx : Nat} {seed : HopMac},
    sealHops C trc idx seed hops = .ok hops ↔ Chained C trc seed hops := by
  induction hops with
  | nil => simp [sealHops, Chained]
  | cons hop rest ih =>
    intro idx seed
    rw [sealHops_cons_ok_iff, Chained]
    constructor
    · rintro ⟨key, tail, hkey, hrest, hout⟩
      obtain ⟨hhop, rfl⟩ := List.cons.inj hout
      have hmac : hop.mac = hopMac C key seed hop := congrArg HopField.mac hhop
      rw [← hmac] at hrest
      exact ⟨⟨key, hkey, hmac.symm⟩, ih.mp hrest⟩
    · rintro ⟨⟨key, hkey, hmac⟩, hchain⟩
      refine ⟨key, rest, hkey, ?_, ?_⟩
      · rw [hmac]
        exact ih.mpr hchain
      · rw [hmac]

/-- Sealing makes a chain. -/
theorem chained_sealHops {hops : List HopField} : ∀ {idx : Nat} {seed : HopMac} {out : List HopField},
    sealHops C trc idx seed hops = .ok out → Chained C trc seed out := by
  induction hops with
  | nil => intro idx seed out h; cases h; trivial
  | cons hop rest ih =>
    intro idx seed out h
    obtain ⟨key, tail, hkey, hrest, rfl⟩ := sealHops_cons_ok_iff.mp h
    exact ⟨⟨key, hkey, hopMac_congr hop _⟩, ih hrest⟩

/-- Sealing touches the MACs only. -/
theorem map_sealHops {α : Type} (f : HopField → α) (hf : ∀ hop mac, f { hop with mac } = f hop)
    {hops : List HopField} : ∀ {idx : Nat} {seed : HopMac} {out : List HopField},
    sealHops C trc idx seed hops = .ok out → out.map f = hops.map f := by
  induction hops with
  | nil => intro idx seed out h; cases h; rfl
  | cons hop rest ih =>
    intro idx seed out h
    obtain ⟨key, tail, hkey, hrest, rfl⟩ := sealHops_cons_ok_iff.mp h
    rw [List.map_cons, List.map_cons, hf, ih hrest]

end Chain

/-! ## Paths -/

section Paths

variable {C : PathCrypto} {trc : TrustRootConfig} {now : UInt64} {path : Path}

theorem verifyPath_ok_iff_chained :
    verifyPath C path trc now = .ok () ↔
      path.isd = trc.isd ∧ now ≤ trc.validUntil ∧ path.hops ≠ [] ∧
      (∀ hop ∈ path.hops, now ≤ hop.expirationRound) ∧
      Chained C trc (pathSeedMac C path) path.hops := by
  rw [verifyPath]
  by_cases hisd : path.isd = trc.isd
  swap
  · simp [hisd]
  rw [if_neg (not_not.mpr hisd)]
  by_cases hvalid : trc.validUntil < now
  · simp [hvalid, not_le.mpr hvalid]
  rw [if_neg hvalid]
  by_cases hempty : path.hops = []
  · simp [hempty]
  · simp only [List.isEmpty_iff, hempty, if_false, verifyHops_ok_iff, hisd, not_lt.mp hvalid, ne_eq,
      not_false_eq_true, true_and]

theorem sealPath_eq_self_iff :
    sealPath C path.isd path.createdAt path.hops trc = .ok path ↔
      Chained C trc (pathSeedMac C path) path.hops := by
  have hseed : pathSeedMac C ⟨path.isd, [], path.createdAt⟩ = pathSeedMac C path := rfl
  have hloop : sealHops C trc 0 (pathSeedMac C path) path.hops = .ok path.hops ↔ _ := sealHops_eq_self_iff
  rw [← hloop, sealPath, hseed]
  cases hops : sealHops C trc 0 (pathSeedMac C path) path.hops with
  | error e => simp
  | ok out =>
    simp only [Except.ok.injEq]
    exact ⟨fun h => congrArg Path.hops h, fun h => by rw [h]⟩

end Paths

/-- **Path authentication accepts exactly the sealed paths** that are in date. -/
theorem verifyPath_ok_iff (C : PathCrypto) (trc : TrustRootConfig) (path : Path) (now : UInt64) :
    verifyPath C path trc now = .ok () ↔
      path.isd = trc.isd ∧ now ≤ trc.validUntil ∧ path.hops ≠ [] ∧
      (∀ hop ∈ path.hops, now ≤ hop.expirationRound) ∧
      sealPath C path.isd path.createdAt path.hops trc = .ok path := by
  rw [verifyPath_ok_iff_chained, sealPath_eq_self_iff]

/-- **A sealed path is accepted exactly until the first of its expirations**, under the trust root of
    its ISD: the MACs never stand in the way, whatever the hops carried before. -/
theorem verifyPath_sealPath_iff {C : PathCrypto} {trc : TrustRootConfig} {isd : IsdId}
    {createdAt : UInt64} {hops : List HopField} {path : Path}
    (hseal : sealPath C isd createdAt hops trc = .ok path) (now : UInt64) :
    verifyPath C path trc now = .ok () ↔
      isd = trc.isd ∧ now ≤ trc.validUntil ∧ hops ≠ [] ∧ ∀ hop ∈ hops, now ≤ hop.expirationRound := by
  rw [sealPath] at hseal
  cases hhops : sealHops C trc 0 (pathSeedMac C ⟨isd, [], createdAt⟩) hops with
  | error e =>
    rw [hhops] at hseal
    cases hseal
  | ok out =>
    rw [hhops] at hseal
    cases hseal
    have hexp : out.map (·.expirationRound) = hops.map (·.expirationRound) :=
      map_sealHops _ (fun _ _ => rfl) hhops
    have hnil : out = [] ↔ hops = [] := by
      rw [← List.map_eq_nil_iff (f := (·.expirationRound)), hexp, List.map_eq_nil_iff]
    have hfresh : (∀ hop ∈ out, now ≤ hop.expirationRound) ↔ ∀ hop ∈ hops, now ≤ hop.expirationRound := by
      rw [← List.forall_mem_map (P := (now ≤ ·)), hexp, List.forall_mem_map]
    rw [verifyPath_ok_iff_chained, ne_eq, hnil, hfresh]
    have hchain : Chained C trc (pathSeedMac C ⟨isd, out, createdAt⟩) out := chained_sealHops hhops
    simp only [hchain, and_true, ne_eq]

/-- One hop of AS 7, whose MAC was 9 before: sealed under the key of AS 7, and in date at round 3. -/
theorem verifyPath_sealPath_at_three :
    let C : PathCrypto := ⟨fun _ => 1, fun key _ => key⟩
    let trc : TrustRootConfig := ⟨2, 0, (∅ : ExtTreeMap AsId Bytes32).insert 7 (5 <<< 128), 8⟩
    sealPath C 2 0 [⟨(2, 7), 0, 1, 4, 9⟩] trc = .ok ⟨2, [⟨(2, 7), 0, 1, 4, 5⟩], 0⟩ ∧
      verifyPath C ⟨2, [⟨(2, 7), 0, 1, 4, 5⟩], 0⟩ trc 3 = .ok () := by
  intro C trc
  have hseal : sealPath C 2 0 [⟨(2, 7), 0, 1, 4, 9⟩] trc = .ok ⟨2, [⟨(2, 7), 0, 1, 4, 5⟩], 0⟩ := by
    decide +kernel
  exact ⟨hseal, (verifyPath_sealPath_iff hseal 3).mpr (by decide)⟩

end SuwappuDag.Transport
