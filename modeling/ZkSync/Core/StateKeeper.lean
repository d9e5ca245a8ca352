import Mathlib.Data.List.Sort
import ZkSync.Lib.MachineInt
import ZkSync.State.Execute
import ZkSync.Types.Block
import ZkSync.Types.GasCounter

/-!
# The state keeper

`zksync_core::state_keeper`: the actor that owns the state and fills the block
under construction. `PendingBlock` is that block. `applyPriorityOp`, `applyTx`
and `applyBatch` are the three ways into it: each first asks whether the
operation still fits the chunks, the gas and the withdrawals of the block —
`Err` means "seal the block and ask again" — and then executes it.
`sealPendingBlock` pays the fees and makes a block of it.

A call returns its result together with the keeper after it: a call that
answers `Err` may have moved counters of the pending block already. A panic is
`KeeperPanic`, which tells the keeper's own two panics from those of the
functions it calls. The channels and the times of execution are not modelled.
-/

namespace ZkSync

/-! ## Panics -/

/-- Where a panic of the state keeper comes from. -/
inductive KeeperPanic where
  /-- A function it calls, or one of its other counters. -/
  | call (message : String)
  /-- The subtraction of chunks. -/
  | chunksLeft (message : String)
  /-- No block size is large enough. -/
  | blockSize (message : String)
  deriving DecidableEq

section Calls

universe u

variable {α : Type u}

/-- Call a function that returns no error. -/
def infallible (source : String → KeeperPanic) : Outcome α → Except KeeperPanic α
  | .ok a => .ok a
  | .error e => .error (source e.message)

/-- Call a function whose error is handled. -/
def attempt : Outcome α → Except KeeperPanic (Except String α)
  | .ok a => .ok (.ok a)
  | .error (.error message) => .ok (.error message)
  | .error (.panic message) => .error (.call message)

@[simp] theorem infallible_eq_ok {source : String → KeeperPanic} {x : Outcome α} {a : α} :
    infallible source x = .ok a ↔ x = .ok a := by
  cases x with
  | ok b => exact ⟨fun h => by rw [← Except.ok.inj h], fun h => by rw [← Except.ok.inj h]; rfl⟩
  | error e => exact ⟨fun h => (by cases h), fun h => (by cases h)⟩

end Calls

/-! ## The pending block -/

structure PendingBlock where
  successOperations : List ExecutedOperations
  failedTxs : List ExecutedTx
  accountUpdates : AccountUpdates
  chunksLeft : Nat
  pendingOpBlockIndex : UInt32
  unprocessedPriorityOpBefore : UInt64
  pendingBlockIteration : Nat
  withdrawalsAmount : UInt32
  gasCounter : GasCounter
  /-- This block should be generated faster than usual. -/
  fastProcessingRequired : Bool
  /-- Fees are paid only when the block is sealed. -/
  collectedFees : List CollectedFee
  /-- The number of account updates that are stored in the database. -/
  storedAccountUpdates : Nat
  deriving DecidableEq

namespace PendingBlock

def new (unprocessedPriorityOpBefore : UInt64) (chunksLeft : Nat) : PendingBlock where
  successOperations := []
  failedTxs := []
  accountUpdates := []
  chunksLeft := chunksLeft
  pendingOpBlockIndex := 0
  unprocessedPriorityOpBefore := unprocessedPriorityOpBefore
  pendingBlockIteration := 0
  withdrawalsAmount := 0
  gasCounter := GasCounter.new
  fastProcessingRequired := false
  collectedFees := []
  storedAccountUpdates := 0

/-- What every successful operation does to the pending block. The chunks are
those that were asked for before it was executed. -/
def pushSuccess (overflowChecks : Bool) (p : PendingBlock) (chunksNeeded : Nat)
    (success : OpSuccess) (executed : UInt32 → ExecutedOperations) :
    Except KeeperPanic (ExecutedOperations × PendingBlock) := do
  let chunksLeft ← infallible .chunksLeft (usizeSub overflowChecks p.chunksLeft chunksNeeded)
  let blockIndex := p.pendingOpBlockIndex
  let pendingOpBlockIndex ← infallible .call (u32Increment overflowChecks blockIndex)
  let execResult := executed blockIndex
  return (execResult, { p with
    chunksLeft := chunksLeft
    accountUpdates := p.accountUpdates ++ success.updates
    collectedFees := p.collectedFees ++ success.fee.toList
    pendingOpBlockIndex := pendingOpBlockIndex
    successOperations := p.successOperations ++ [execResult] })

/-- The result of a transaction, alone (`batchId` is none) or in a batch. -/
def pushTxResult (overflowChecks : Bool) (p : PendingBlock) (chunksNeeded : Nat)
    (batchId : Option Int) (tx : SignedZkSyncTx) :
    Except String OpSuccess → Except KeeperPanic (ExecutedOperations × PendingBlock)
  | .ok success =>
    p.pushSuccess overflowChecks chunksNeeded success fun blockIndex => .Tx
      { signedTx := tx
        success := true
        op := some success.executedOp
        failReason := none
        blockIndex := some blockIndex
        batchId := batchId }
  | .error error =>
    let failedTx : ExecutedTx :=
      { signedTx := tx
        success := false
        op := none
        failReason := some error
        blockIndex := none
        batchId := batchId }
    .ok (.Tx failedTx, { p with failedTxs := p.failedTxs ++ [failedTx] })

/-- The loop of `apply_batch` over the transactions and their results. -/
def pushBatchResults (overflowChecks : Bool) (chunksNeeded : Nat) (batchId : Int) :
    PendingBlock → List (SignedZkSyncTx × Except String OpSuccess) →
      Except KeeperPanic (List ExecutedOperations × PendingBlock)
  | p, [] => .ok ([], p)
  | p, (tx, txUpdates) :: rest => do
    let (execResult, p) ←
      p.pushTxResult overflowChecks chunksNeeded (some batchId) tx txUpdates
    let (executedOperations, p) ← pushBatchResults overflowChecks chunksNeeded batchId p rest
    return (execResult :: executedOperations, p)

/-- Counts a withdrawal. Only a single withdrawal speeds the block up: `marksFast`
is false in a batch. -/
def countWithdrawal (overflowChecks marksFast : Bool) (p : PendingBlock) :
    ZkSyncTx → Except KeeperPanic PendingBlock
  | .Withdraw tx => do
    let withdrawalsAmount ← infallible .call (u32Increment overflowChecks p.withdrawalsAmount)
    return { p with
      withdrawalsAmount := withdrawalsAmount
      fastProcessingRequired := p.fastProcessingRequired || (marksFast && tx.fast) }
  | _ => .ok p

/-- "If conversion failed, then transaction will fail as well": it costs no gas. -/
def countGas (gasCounter : GasCounter) : Except String ZkSyncOp →
    Except KeeperPanic (Option GasCounter)
  | .ok nonExecutedOp => infallible .call (gasCounter.addOp nonExecutedOp)
  | .error _ => .ok (some gasCounter)

/-- Whether the gas and the withdrawals of the block leave room for the
transaction. A refused transaction has been counted as a withdrawal all the
same, and its gas stays in the counter. -/
def admitTx (env : Env) (state : ZkSyncState) (maxWithdrawals : Nat) (marksFast : Bool)
    (p : PendingBlock) (tx : ZkSyncTx) : Except KeeperPanic (Bool × PendingBlock) := do
  let nonExecutedOp ← attempt (state.zksyncTxToZksyncOp env tx)
  let gasCounter ← countGas p.gasCounter nonExecutedOp
  match gasCounter with
  | none => return (false, p)
  | some gasCounter =>
    let p ← countWithdrawal env.overflowChecks marksFast { p with gasCounter := gasCounter } tx
    return (p.withdrawalsAmount ≤ UInt32.ofNat maxWithdrawals, p)

/-- The first loop of `apply_batch`. -/
def admitBatch (env : Env) (state : ZkSyncState) (maxWithdrawals : Nat) :
    PendingBlock → List ZkSyncTx → Except KeeperPanic (Bool × PendingBlock)
  | p, [] => .ok (true, p)
  | p, tx :: txs => do
    let (admitted, p) ← p.admitTx env state maxWithdrawals false tx
    if admitted then admitBatch env state maxWithdrawals p txs else return (false, p)

end PendingBlock

/-! ## The keeper -/

structure ZkSyncStateKeeper where
  state : ZkSyncState
  feeAccountId : AccountId
  currentUnprocessedPriorityOp : UInt64
  pendingBlock : PendingBlock
  availableBlockChunkSizes : List Nat
  maxMiniblockIterations : Nat
  fastMiniblockIterations : Nat
  maxNumberOfWithdrawalsPerBlock : Nat

structure ZkSyncStateInitParams where
  tree : AccountTree
  accIdByAddr : Finmap fun _ : Address => AccountId
  lastBlockNumber : BlockNumber
  unprocessedPriorityOp : UInt64

structure BlockCommitRequest where
  block : Block
  accountsUpdated : AccountUpdates
  deriving DecidableEq

structure AppliedUpdatesRequest where
  accountUpdates : AccountUpdates
  firstUpdateOrderId : Nat
  deriving DecidableEq

/-- The pending block as it is stored in the database. -/
structure SendablePendingBlock where
  number : BlockNumber
  chunksLeft : Nat
  unprocessedPriorityOpBefore : UInt64
  pendingBlockIteration : Nat
  successOperations : List ExecutedOperations
  failedTxs : List ExecutedTx
  deriving DecidableEq

namespace ZkSyncStateKeeper

def new (env : Env) (initialState : ZkSyncStateInitParams) (feeAccountAddress : Address)
    (availableBlockChunkSizes : List Nat) (maxMiniblockIterations fastMiniblockIterations : Nat)
    (maxNumberOfWithdrawalsPerBlock : Nat) : Outcome ZkSyncStateKeeper := do
  Outcome.assert (availableBlockChunkSizes ≠ [])
    "assertion failed: !available_block_chunk_sizes.is_empty()"
  Outcome.assert (availableBlockChunkSizes.insertionSort (· ≤ ·) = availableBlockChunkSizes)
    "assertion failed: is_sorted"
  let blockNumber ← u32Increment env.overflowChecks initialState.lastBlockNumber
  let state : ZkSyncState :=
    { balanceTree := initialState.tree
      accountIdByAddress := initialState.accIdByAddr
      blockNumber := blockNumber }
  let found ← state.getAccountByAddress feeAccountAddress
  let (feeAccountId, _) ← Outcome.expect found
    "Fee account should be present in the account tree"
  let maxBlockSize ← Outcome.expect availableBlockChunkSizes.max?
    "called Option::unwrap() on a None value"
  let (_, state) ← state.rootHash env.hasher
  return {
    state := state
    feeAccountId := feeAccountId
    currentUnprocessedPriorityOp := initialState.unprocessedPriorityOp
    pendingBlock := PendingBlock.new initialState.unprocessedPriorityOp maxBlockSize
    availableBlockChunkSizes := availableBlockChunkSizes
    maxMiniblockIterations := maxMiniblockIterations
    fastMiniblockIterations := fastMiniblockIterations
    maxNumberOfWithdrawalsPerBlock := maxNumberOfWithdrawalsPerBlock }

/-- The operation comes back if there is no space in the block. -/
def applyPriorityOp (env : Env) (k : ZkSyncStateKeeper) (priorityOp : PriorityOp) :
    Except KeeperPanic (Except PriorityOp ExecutedOperations × ZkSyncStateKeeper) := do
  let chunksNeeded := priorityOp.data.chunks
  if k.pendingBlock.chunksLeft < chunksNeeded then return (.error priorityOp, k)
  else
    let nonExecutedOp ← infallible .call (k.state.priorityOpToZksyncOp priorityOp.data)
    let gasCounter ← infallible .call (k.pendingBlock.gasCounter.addOp nonExecutedOp)
    match gasCounter with
    | none => return (.error priorityOp, k)
    | some gasCounter =>
      let (success, state) ← infallible .call (k.state.executePriorityOp priorityOp.data)
      let (execResult, pendingBlock) ←
        { k.pendingBlock with gasCounter := gasCounter }.pushSuccess env.overflowChecks
          chunksNeeded success fun blockIndex => .PriorityOp
            { priorityOp := priorityOp, op := success.executedOp, blockIndex := blockIndex }
      let currentUnprocessedPriorityOp ← infallible .call
        (u64Increment env.overflowChecks k.currentUnprocessedPriorityOp)
      return (.ok execResult, { k with
        state := state
        pendingBlock := pendingBlock
        currentUnprocessedPriorityOp := currentUnprocessedPriorityOp })

/-- A transaction that fails leaves the state as it was. -/
def executeTxResult (env : Env) (state : ZkSyncState) (tx : ZkSyncTx) :
    Except KeeperPanic (Except String OpSuccess × ZkSyncState) :=
  match state.executeTx env tx with
  | .ok (success, state') => .ok (.ok success, state')
  | .error (.error error) => .ok (.error error, state)
  | .error (.panic message) => .error (.call message)

def applyTx (env : Env) (k : ZkSyncStateKeeper) (tx : SignedZkSyncTx) :
    Except KeeperPanic (Except Unit ExecutedOperations × ZkSyncStateKeeper) := do
  let chunksNeeded ← infallible .call (k.state.chunksForTx tx.tx)
  if k.pendingBlock.chunksLeft < chunksNeeded then return (.error (), k)
  else
    let (admitted, pendingBlock) ← k.pendingBlock.admitTx env k.state
      k.maxNumberOfWithdrawalsPerBlock true tx.tx
    if admitted then
      let (txUpdates, state) ← executeTxResult env k.state tx.tx
      let (execResult, pendingBlock) ←
        pendingBlock.pushTxResult env.overflowChecks chunksNeeded none tx txUpdates
      return (.ok execResult, { k with state := state, pendingBlock := pendingBlock })
    else return (.error (), { k with pendingBlock := pendingBlock })

/-- Every success of the batch is charged the chunks of the whole batch. -/
def applyBatch (env : Env) (k : ZkSyncStateKeeper) (txs : List SignedZkSyncTx) (batchId : Int) :
    Except KeeperPanic (Except Unit (List ExecutedOperations) × ZkSyncStateKeeper) := do
  let chunksNeeded ← infallible .call (k.state.chunksForBatch txs)
  if k.pendingBlock.chunksLeft < chunksNeeded then return (.error (), k)
  else
    let (admitted, pendingBlock) ← k.pendingBlock.admitBatch env k.state
      k.maxNumberOfWithdrawalsPerBlock (txs.map (·.tx))
    if admitted then
      let (allUpdates, state) ← infallible .call (k.state.executeTxsBatch env txs)
      let (executedOperations, pendingBlock) ←
        pendingBlock.pushBatchResults env.overflowChecks chunksNeeded batchId (txs.zip allUpdates)
      return (.ok executedOperations, { k with state := state, pendingBlock := pendingBlock })
    else return (.error (), { k with pendingBlock := pendingBlock })

/-- Finalizes the pending block, transforming it into a full block. -/
def sealPendingBlock (env : Env) (k : ZkSyncStateKeeper) :
    Except KeeperPanic ((BlockCommitRequest × AppliedUpdatesRequest) × ZkSyncStateKeeper) := do
  let pendingBlock := k.pendingBlock
  let maxBlockSize ← infallible .call (Outcome.expect k.availableBlockChunkSizes.getLast?
    "failed to get max block size")
  let (feeUpdates, state) ← infallible .call
    (k.state.collectFee pendingBlock.collectedFees k.feeAccountId)
  let accountUpdates := pendingBlock.accountUpdates ++ feeUpdates
  let blockTransactions := pendingBlock.successOperations ++ pendingBlock.failedTxs.map .Tx
  let (rootHash, state) ← infallible .call (state.rootHash env.hasher)
  let block ← infallible .blockSize (Block.newFromAvailableBlockSizes state.blockNumber rootHash
    k.feeAccountId blockTransactions
    (pendingBlock.unprocessedPriorityOpBefore, k.currentUnprocessedPriorityOp)
    k.availableBlockChunkSizes pendingBlock.gasCounter.commitGasLimit
    pendingBlock.gasCounter.verifyGasLimit)
  let firstUpdateOrderId := pendingBlock.storedAccountUpdates
  let notStored ← infallible .call (sliceFrom accountUpdates firstUpdateOrderId)
  let blockNumber ← infallible .call (u32Increment env.overflowChecks state.blockNumber)
  return (({ block := block, accountsUpdated := accountUpdates },
      { accountUpdates := notStored, firstUpdateOrderId := firstUpdateOrderId }),
    { k with
      state := { state with blockNumber := blockNumber }
      pendingBlock := PendingBlock.new k.currentUnprocessedPriorityOp maxBlockSize })

/-- Stores the pending block, and the account updates that are not stored yet. -/
def storePendingBlock (k : ZkSyncStateKeeper) :
    Except KeeperPanic ((SendablePendingBlock × AppliedUpdatesRequest) × ZkSyncStateKeeper) := do
  let p := k.pendingBlock
  let firstUpdateOrderId := p.storedAccountUpdates
  let notStored ← infallible .call (sliceFrom p.accountUpdates firstUpdateOrderId)
  return (({
      number := k.state.blockNumber
      chunksLeft := p.chunksLeft
      unprocessedPriorityOpBefore := p.unprocessedPriorityOpBefore
      pendingBlockIteration := p.pendingBlockIteration
      successOperations := p.successOperations
      failedTxs := p.failedTxs },
      { accountUpdates := notStored, firstUpdateOrderId := firstUpdateOrderId }),
    { k with pendingBlock := { p with storedAccountUpdates := p.accountUpdates.length } })

/-- One round of the loop of `initialize`: the operation is executed again. -/
def restoreOperation (env : Env) (k : ZkSyncStateKeeper) :
    ExecutedOperations → Except KeeperPanic ZkSyncStateKeeper
  | .Tx tx => do
    let (result, k) ← k.applyTx env tx.signedTx
    match result with
    | .ok _ => return k
    | .error () => .error (.call "Tx from the restored pending block was not executed")
  | .PriorityOp op => do
    let (result, k) ← k.applyPriorityOp env op.priorityOp
    match result with
    | .ok _ => return k
    | .error _ => .error (.call "Priority op from the restored pending block was not executed")

/-- Executes the stored pending block again, operation by operation. -/
def initializeWith (env : Env) (k : ZkSyncStateKeeper) :
    Option SendablePendingBlock → Except KeeperPanic ZkSyncStateKeeper
  | none => .ok k
  | some pendingBlock => do
    let k ← pendingBlock.successOperations.foldlM (restoreOperation env) k
    return { k with pendingBlock := { k.pendingBlock with
      storedAccountUpdates := k.pendingBlock.accountUpdates.length
      failedTxs := pendingBlock.failedTxs } }

/-- What `execute_proposed_block` does before it decides whether to seal. -/
def countIteration (k : ZkSyncStateKeeper) : ZkSyncStateKeeper :=
  if k.pendingBlock.successOperations ≠ [] then
    { k with pendingBlock := { k.pendingBlock with
        pendingBlockIteration := k.pendingBlock.pendingBlockIteration + 1 } }
  else k

/-- If the pending block contains withdrawals it is sealed faster. -/
def iterationsAllowed (k : ZkSyncStateKeeper) : Nat :=
  if k.pendingBlock.fastProcessingRequired then k.fastMiniblockIterations
  else k.maxMiniblockIterations

end ZkSyncStateKeeper

end ZkSync
