/-
  THE COMMITTEE a node works with (`suwappu-node/src/daemon.rs`: the registries, the stake table,
  `n_authorities` and the parked stake).

  Three places write it.  Governance seats and unseats at an epoch boundary; the FIRST certificate of
  a newly seated authority promotes its parked stake and counts it; a detected equivocation unseats.
  The first runs at a point of the committed history, the other two when a message arrives.
-/
import SuwappuDag.Node.Authority

namespace SuwappuDag.Node

open Words Consensus Execution
open Std (ExtTreeMap)

structure Committee where
  stakeTable : StakeTable
  authorityRegistry : AuthorityRegistry
  validatorRegistry : ValidatorRegistry
  /-- The size that quorums and leaders are computed from. -/
  nAuthorities : UInt32
  /-- Stake of seated authorities that have not shown up yet. -/
  pendingStake : ExtTreeMap AuthorityId Stake
deriving DecidableEq

namespace Committee

/-- The `Ok` arm of an admission: seated, its stake parked, `nAuthorities` NOT raised. -/
def seat (committee : Committee) (registry : AuthorityRegistry) (id : AuthorityId) (stake : UInt64) :
    Committee :=
  { committee with
    authorityRegistry := registry
    pendingStake := committee.pendingStake.insert id (BitVec.ofNat 128 stake.toNat)
    -- the validator registry's own refusal is ignored
    validatorRegistry :=
      match committee.validatorRegistry.tryAdmit ⟨id, BitVec.ofNat 128 stake.toNat⟩ with
      | .ok registry => registry
      | .error _ => committee.validatorRegistry }

/-- Remove an authority everywhere and recount; nothing happens to one that is not seated. -/
def unseat (committee : Committee) (id : AuthorityId) : Committee :=
  if id ∈ committee.authorityRegistry then
    let registry := committee.authorityRegistry.erase id
    { stakeTable := committee.stakeTable.erase id
      authorityRegistry := registry
      validatorRegistry := committee.validatorRegistry.erase id
      nAuthorities := UInt32.ofNat registry.size
      pendingStake := committee.pendingStake.erase id }
  else committee

/-- `saturating_add(1)`. -/
def succSaturating (n : UInt32) : UInt32 := if n = UInt32.ofNat (2 ^ 32 - 1) then n else n + 1

/-- First-certificate activation: parked stake moves to the stake table and the author is counted. -/
def promote (committee : Committee) (author : AuthorityId) : Committee :=
  match committee.pendingStake[author]? with
  | none => committee
  | some stake =>
    { committee with
      pendingStake := committee.pendingStake.erase author
      nAuthorities := succSaturating committee.nAuthorities
      stakeTable := committee.stakeTable.insert author stake }

/-- The registry part of `apply_governance_intent`, behind its authorization. -/
def enact (committee : Committee) : Intent → Committee
  | .admitAuthority id stake mldsaPublicKey _ =>
    match committee.authorityRegistry.tryAdmit ⟨id, stake, mldsaPublicKey⟩ with
    | .ok registry => committee.seat registry id stake
    | .error _ => committee
  | .exitAuthority id => committee.unseat id
  | .ejectAuthority id _ => committee.unseat id
  | _ => committee

/-- `apply_governance_intent`: the envelope is verified against the registry as it is NOW. -/
def applyGovernanceIntent (C : Crypto) (networkId : List UInt8) (committee : Committee)
    (intent : Intent) (auth : Option GovAuth) : Committee :=
  match auth with
  | none => committee
  | some envelope =>
    match verifyGovernedIntent C committee.authorityRegistry networkId intent envelope with
    | .error _ => committee
    | .ok _ => committee.enact intent

end Committee

/-- The calls that reach the committee of a node. -/
inductive Reshape where
  | promote (author : AuthorityId)
  | govern (intent : Intent) (auth : Option GovAuth)
  | eject (author : AuthorityId)

def Reshape.apply (C : Crypto) (networkId : List UInt8) (committee : Committee) : Reshape → Committee
  | .promote author => committee.promote author
  | .govern intent auth => committee.applyGovernanceIntent C networkId intent auth
  | .eject author => committee.unseat author

end SuwappuDag.Node
