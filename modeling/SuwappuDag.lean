import SuwappuDag.Execution.Supply
import SuwappuDag.Consensus.Accountability
import SuwappuDag.Consensus.Work
import SuwappuDag.Node.Honesty
import SuwappuDag.Node.Reconfiguration
import SuwappuDag.Execution.Bridge
import SuwappuDag.Execution.Lifecycle
import SuwappuDag.Execution.Distributions
import SuwappuDag.Node.Heights
import SuwappuDag.FastPath.Agreement
import SuwappuDag.Execution.Records
import SuwappuDag.Consensus.Reference
import SuwappuDag.Ltp.Attest
import SuwappuDag.Transport.Gateway
import SuwappuDag.Node.SigningDigest
import SuwappuDag.Indexer.Backfill
import SuwappuDag.Identifiers
import SuwappuDag.L2.Batch
import SuwappuDag.Zkvm.ReserveCoverage
import SuwappuDag.Consensus.Forward
import SuwappuDag.Node.Wakeups
import SuwappuDag.Execution.AssetLifecycle
import SuwappuDag.Execution.Delegations
import SuwappuDag.Execution.Sequential
import SuwappuDag.Execution.SlashAmounts
import SuwappuDag.Ltp.DidStark
import SuwappuDag.Node.Checkpoint
import SuwappuDag.Node.Epochs
import SuwappuDag.Node.Receipts
import SuwappuDag.Node.RingSlashing
import SuwappuDag.Precompiles.Mint
import SuwappuDag.Precompiles.RewardOrder
import SuwappuDag.Execution.L2Batches
import SuwappuDag.Node.Buffers
