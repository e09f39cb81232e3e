/-
  THE VALIDATOR LEG of the joint quorum (`suwappu-consensus/src/joint.rs`).

  A commit needs more than two thirds of the stake besides the authorities' quorum.  Votes carry no
  signature; a validator counts once per candidate, however often its vote is listed.  Stake is
  `u128` and wraps, as a release build does.  Where two candidates both have a quorum, two functions
  name those who supported both: `authorityEquivocators` and `validatorDoubleVoteStake`.
-/
import SuwappuDag.Consensus.Commit

namespace SuwappuDag.Consensus

open Words
open Std (ExtTreeMap)

/-- Index into the published Validator Ring (`u32`). -/
abbrev ValidatorId := UInt32

/-- Stake weight (`u128`). -/
abbrev Stake := BitVec 128

/-- The Validator Ring's stake, by id. -/
abbrev StakeTable := ExtTreeMap ValidatorId Stake

namespace StakeTable

def total (table : StakeTable) : Stake := (table.toList.map Prod.snd).sum

/-- Zero if absent. -/
def weight (table : StakeTable) (id : ValidatorId) : Stake := table[id]?.getD 0

end StakeTable

structure Vote where
  validator : ValidatorId
  candidate : CertHash
deriving DecidableEq, Repr

/-- Strictly more than two thirds of the stake. -/
def validatorQuorumThreshold (table : StakeTable) : Stake := 2 * table.total / 3 + 1

/-- The loop of `voting_stake`; `counted` holds the validators seen so far. -/
def countVotes (table : StakeTable) (candidate : CertHash) :
    List Vote → Finset ValidatorId → Stake → Stake
  | [], _, total => total
  | v :: votes, counted, total =>
    if v.candidate = candidate ∧ v.validator ∉ counted then
      countVotes table candidate votes (insert v.validator counted)
        (total + table.weight v.validator)
    else countVotes table candidate votes counted total

/-- The stake that votes for `candidate`. -/
def votingStake (table : StakeTable) (candidate : CertHash) (votes : List Vote) : Stake :=
  countVotes table candidate votes ∅ 0

/-- `candidate` has the validator quorum. -/
def validatorQuorumMet (table : StakeTable) (candidate : CertHash) (votes : List Vote) : Bool :=
  validatorQuorumThreshold table ≤ votingStake table candidate votes

/-! ## Who is to blame for two candidates -/

/-- The authors of the certificates at `round` that cite `candidate`. -/
def citers (dag : DagStore) (candidate : CertHash) (round : Round) : Finset AuthorityId :=
  (((dag.linearize.filterMap dag.get).filter fun c =>
    c.round = round ∧ candidate ∈ c.parents).map Certificate.author).toFinset

/-- The authors that cite both candidates at `round`. -/
def authorityEquivocators (dag : DagStore) (candA candB : CertHash) (round : Round) :
    Finset AuthorityId :=
  citers dag candA round ∩ citers dag candB round

def voters (candidate : CertHash) (votes : List Vote) : Finset ValidatorId :=
  ((votes.filter fun v => v.candidate = candidate).map Vote.validator).toFinset

/-- The stake that votes for both candidates. -/
def validatorDoubleVoteStake (table : StakeTable) (candA candB : CertHash) (votes : List Vote) :
    Stake :=
  ∑ id ∈ voters candA votes ∩ voters candB votes, table.weight id

end SuwappuDag.Consensus
