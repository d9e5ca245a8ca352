import ZkSync.Api.EventFetcher
import ZkSync.Api.FeeTicker
import ZkSync.Api.RpcServer
import ZkSync.Contract.Agreement
import ZkSync.Contract.Bytes
import ZkSync.Contract.Calls
import ZkSync.Contract.ChangePubkeyMessage
import ZkSync.Contract.Consent
import ZkSync.Contract.Counters
import ZkSync.Contract.Effects
import ZkSync.Contract.Finality
import ZkSync.Contract.Holdings
import ZkSync.Contract.OnchainOps
import ZkSync.Contract.Operations
import ZkSync.Contract.PriorityQueue
import ZkSync.Contract.Requests
import ZkSync.Contract.Solvency
import ZkSync.Contract.Storage
import ZkSync.Contract.UpgradeGatekeeper
import ZkSync.Contract.WithdrawalIds
import ZkSync.Contract.Withdrawals
import ZkSync.Core.Admission
import ZkSync.Core.BlockFunds
import ZkSync.Core.BlockOps
import ZkSync.Core.BlockProposer
import ZkSync.Core.Chunks
import ZkSync.Core.EthWatch
import ZkSync.Core.Gas
import ZkSync.Core.Hashable
import ZkSync.Core.KeeperAlike
import ZkSync.Core.KeeperCalls
import ZkSync.Core.Mempool
import ZkSync.Core.MempoolStorage
import ZkSync.Core.Pipeline
import ZkSync.Core.ProposedBlock
import ZkSync.Core.Recovery
import ZkSync.Core.Retry
import ZkSync.Core.SealedBlocks
import ZkSync.Core.StateKeeper
import ZkSync.Core.Stream
import ZkSync.Core.WithdrawalLimit
import ZkSync.Core.WithinBlock
import ZkSync.Crypto.ParallelSmt
import ZkSync.Crypto.SequentialSmt
import ZkSync.Crypto.SmtBacked
import ZkSync.Crypto.SmtBits
import ZkSync.Crypto.SmtHash
import ZkSync.Crypto.SmtInsert
import ZkSync.Crypto.SmtNodes
import ZkSync.Crypto.SmtPath
import ZkSync.Crypto.SmtRuns
import ZkSync.Crypto.TreeCache
import ZkSync.DataRestore.EventScan
import ZkSync.DataRestore.EventsState
import ZkSync.DataRestore.ParserTotality
import ZkSync.DataRestore.Replay
import ZkSync.DataRestore.RollupOps
import ZkSync.DataRestore.Statements
import ZkSync.DataRestore.TreeState
import ZkSync.EthSender.Database
import ZkSync.EthSender.GasAdjuster
import ZkSync.EthSender.KnownHashes
import ZkSync.EthSender.OperationRoundTrip
import ZkSync.EthSender.QueueDiscipline
import ZkSync.EthSender.Sender
import ZkSync.EthSender.SenderSteps
import ZkSync.EthSender.StartedOnce
import ZkSync.EthSender.TxQueue
import ZkSync.EthSender.Waiting
import ZkSync.Lib.Bytes
import ZkSync.Lib.FinMap
import ZkSync.Lib.HeapIndex
import ZkSync.Lib.MachineInt
import ZkSync.Lib.NumberedLog
import ZkSync.Lib.Outcome
import ZkSync.Lib.Related
import ZkSync.Lib.Run
import ZkSync.Lib.Table
import ZkSync.Sdk.Packing
import ZkSync.Sdk.Signer
import ZkSync.State.Alike
import ZkSync.State.Atomicity
import ZkSync.State.Authorization
import ZkSync.State.Conservation
import ZkSync.State.Effects
import ZkSync.State.Emitted
import ZkSync.State.Execute
import ZkSync.State.Handler
import ZkSync.State.Ledger
import ZkSync.State.Mirror
import ZkSync.State.Replay
import ZkSync.State.Restart
import ZkSync.State.Rollback
import ZkSync.State.RootHash
import ZkSync.State.State
import ZkSync.State.System
import ZkSync.State.Touches
import ZkSync.State.Updates
import ZkSync.State.Validation
import ZkSync.State.Writes
import ZkSync.Storage.BlockSchema
import ZkSync.Storage.History
import ZkSync.Storage.PendingWithdrawals
import ZkSync.Storage.ProverJobs
import ZkSync.Storage.SavedOps
import ZkSync.Storage.StateDiffs
import ZkSync.Storage.StateInitParams
import ZkSync.Storage.StateSchema
import ZkSync.Storage.StoredBlocks
import ZkSync.Storage.StoredLog
import ZkSync.Types.Account
import ZkSync.Types.AccountLeaf
import ZkSync.Types.Block
import ZkSync.Types.BlockData
import ZkSync.Types.GasCounter
import ZkSync.Types.Packable
import ZkSync.Types.Packed
import ZkSync.Types.PackedValue
import ZkSync.Types.PriorityOps
import ZkSync.Types.PublicData
import ZkSync.Types.Tx
import ZkSync.Types.TxBytes
import ZkSync.Witness.BlockRuns
import ZkSync.Witness.BlockWitness
import ZkSync.Witness.CircuitTree
import ZkSync.Witness.Commitment
import ZkSync.Witness.Fees
import ZkSync.Witness.Generators
import ZkSync.Witness.Nonces
import ZkSync.Witness.OperationBits
import ZkSync.Witness.Operations
import ZkSync.Witness.PublicInput
import ZkSync.Witness.Rebuilt
import ZkSync.Witness.RestoredTree
import ZkSync.Witness.Rounds
