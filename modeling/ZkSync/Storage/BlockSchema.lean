import Mathlib.Data.List.MinMax
import ZkSync.Core.StateKeeper
import ZkSync.Lib.Table

/-!
# The tables of blocks and their operations

`storage::chain::block` and `storage::chain::operations`, as far as blocks are
saved and read back: a pending block every time it is stored, a block when it is
sealed. Its operations go to two tables. A transaction has one row per hash: a
success takes the place of an earlier failure, a failure changes nothing that is
there. A priority operation has one row per serial id.

`SELECT` without `ORDER BY` answers in any order, so a query that reads several
rows is a relation here.

The serialization of transactions and operations as JSON, and the casts between
`u64` and `i64`, lose nothing and are not modelled. Block indices are cast to
`i32`; that is. The columns that only the explorer's queries read are left out:
the times of execution, and the accounts and the nonce of a transaction.
-/

namespace ZkSync.BlockSchema

/-! ## Rows -/

section Records

variable (H : Type)

structure NewExecutedTransaction where
  blockNumber : BlockNumber
  blockIndex : Option Int32
  tx : ZkSyncTx
  operation : Option ZkSyncOp
  txHash : H
  success : Bool
  failReason : Option String
  ethSignData : Option (List UInt8 × String)
  batchId : Option Int
  deriving DecidableEq

structure StoredExecutedTransaction where
  blockNumber : BlockNumber
  blockIndex : Option Int32
  tx : ZkSyncTx
  operation : Option ZkSyncOp
  txHash : H
  success : Bool
  failReason : Option String
  ethSignData : Option (List UInt8 × String)
  batchId : Option Int
  deriving DecidableEq

end Records

/-- A row of `executed_priority_operations`. `NewExecutedPriorityOperation` has the
same columns, and all of them are inserted. -/
structure StoredExecutedPriorityOperation where
  blockNumber : BlockNumber
  blockIndex : Int32
  operation : ZkSyncOp
  fromAccount : Address
  toAccount : Address
  priorityOpSerialid : UInt64
  deadlineBlock : UInt64
  ethHash : List UInt8
  ethBlock : UInt64
  deriving DecidableEq

structure StoragePendingBlock where
  number : BlockNumber
  chunksLeft : Nat
  unprocessedPriorityOpBefore : UInt64
  pendingBlockIteration : Nat
  deriving DecidableEq

structure StorageBlock where
  number : BlockNumber
  rootHash : Fr
  feeAccountId : AccountId
  unprocessedPriorOpBefore : UInt64
  unprocessedPriorOpAfter : UInt64
  blockSize : Nat
  commitGasLimit : Nat
  verifyGasLimit : Nat
  deriving DecidableEq

structure Tables (H : Type) where
  executedTransactions : Table (StoredExecutedTransaction H) fun row => row.txHash
  executedPriorityOperations :
    Table StoredExecutedPriorityOperation fun row => row.priorityOpSerialid
  pendingBlock : Table StoragePendingBlock fun row => row.number
  blocks : Table StorageBlock fun row => row.number

instance (H : Type) : EmptyCollection (Tables H) := ⟨⟨⟨[], List.nodup_nil⟩, ⟨[], List.nodup_nil⟩,
  ⟨[], List.nodup_nil⟩, ⟨[], List.nodup_nil⟩⟩⟩

/-! ## Saving -/

section Saving

variable {H : Type} [DecidableEq H] (hash : ZkSyncTx → H)

/-- `prepare_stored_tx`. -/
def prepareStoredTx (execTx : ExecutedTx) (block : BlockNumber) : NewExecutedTransaction H where
  blockNumber := block
  blockIndex := execTx.blockIndex.map UInt32.toInt32
  tx := execTx.signedTx.tx
  operation := execTx.op
  txHash := hash execTx.signedTx.tx
  success := execTx.success
  failReason := execTx.failReason
  ethSignData := execTx.signedTx.ethSignData
  batchId := execTx.batchId

/-- The accounts a priority operation moves funds between. -/
def priorityOpAccounts : ZkSyncOp → Outcome (Address × Address)
  | .Deposit deposit => .ok (deposit.priorityOp.fromAddress, deposit.priorityOp.toAddress)
  | .FullExit fullExit => .ok (fullExit.priorityOp.ethAddress, fullExit.priorityOp.ethAddress)
  | _ => .error (.panic "Incorrect type of priority op")

/-- `prepare_stored_priority_op`. -/
def prepareStoredPriorityOp (execPriorOp : ExecutedPriorityOp) (block : BlockNumber) :
    Outcome StoredExecutedPriorityOperation := do
  let (fromAccount, toAccount) ← priorityOpAccounts execPriorOp.op
  return {
    blockNumber := block
    blockIndex := execPriorOp.blockIndex.toInt32
    operation := execPriorOp.op
    fromAccount := fromAccount
    toAccount := toAccount
    priorityOpSerialid := execPriorOp.priorityOp.serialId
    deadlineBlock := execPriorOp.priorityOp.deadlineBlock
    ethHash := execPriorOp.priorityOp.ethHash
    ethBlock := execPriorOp.priorityOp.ethBlock }

/-- The columns of the `INSERT INTO executed_transactions`: `batch_id` is not one of them. -/
def NewExecutedTransaction.inserted (operation : NewExecutedTransaction H) :
    StoredExecutedTransaction H where
  blockNumber := operation.blockNumber
  blockIndex := operation.blockIndex
  tx := operation.tx
  operation := operation.operation
  txHash := operation.txHash
  success := operation.success
  failReason := operation.failReason
  ethSignData := operation.ethSignData
  batchId := none

/-- If transaction succeed, it should replace the stored tx with the same hash.
If transaction failed, we do nothing on conflict. -/
def storeExecutedOperation (db : Tables H) (operation : NewExecutedTransaction H) : Tables H :=
  if operation.success then
    { db with executedTransactions := db.executedTransactions.upsert operation.inserted }
  else
    { db with executedTransactions := db.executedTransactions.insertNew operation.inserted }

def storeExecutedPriorityOperation (db : Tables H) (operation : StoredExecutedPriorityOperation) :
    Tables H :=
  { db with executedPriorityOperations := db.executedPriorityOperations.insertNew operation }

/-- One round of `save_block_transactions`. -/
def saveOperation (blockNumber : BlockNumber) (db : Tables H) :
    ExecutedOperations → Outcome (Tables H)
  | .Tx tx => .ok (storeExecutedOperation db (prepareStoredTx hash tx blockNumber))
  | .PriorityOp priorOp => do
    let newPriorityOp ← prepareStoredPriorityOp priorOp blockNumber
    return storeExecutedPriorityOperation db newPriorityOp

/-- Given a block, stores its transactions in the database. -/
def saveBlockTransactions (db : Tables H) (blockNumber : BlockNumber)
    (operations : List ExecutedOperations) : Outcome (Tables H) :=
  operations.foldlM (saveOperation hash blockNumber) db

def storagePendingBlock (pendingBlock : SendablePendingBlock) : StoragePendingBlock where
  number := pendingBlock.number
  chunksLeft := pendingBlock.chunksLeft
  unprocessedPriorityOpBefore := pendingBlock.unprocessedPriorityOpBefore
  pendingBlockIteration := pendingBlock.pendingBlockIteration

def savePendingBlock (db : Tables H) (pendingBlock : SendablePendingBlock) :
    Outcome (Tables H) :=
  let db := { db with pendingBlock := db.pendingBlock.upsert (storagePendingBlock pendingBlock) }
  let executedTransactions :=
    pendingBlock.successOperations ++ pendingBlock.failedTxs.map ExecutedOperations.Tx
  saveBlockTransactions hash db pendingBlock.number executedTransactions

def storageBlock (block : Block) : StorageBlock where
  number := block.blockNumber
  rootHash := block.newRootHash
  feeAccountId := block.feeAccount
  unprocessedPriorOpBefore := block.processedPriorityOps.1
  unprocessedPriorOpAfter := block.processedPriorityOps.2
  blockSize := block.blockChunksSize
  commitGasLimit := block.commitGasLimit
  verifyGasLimit := block.verifyGasLimit

/-- `U256::as_u64`. -/
def asU64 (n : Nat) : Outcome Unit :=
  Outcome.assert (n < 2 ^ 64) "Integer overflow when casting to u64"

def saveBlock (db : Tables H) (block : Block) : Outcome (Tables H) := do
  asU64 block.commitGasLimit
  asU64 block.verifyGasLimit
  let db ← saveBlockTransactions hash db block.blockNumber block.blockTransactions
  -- Remove pending block (as it's now completed).
  let pendingBlock := db.pendingBlock.retain fun row => row.number ≠ block.blockNumber
  let blocks ← Outcome.okOrElse (db.blocks.insert (storageBlock block))
    "duplicate key value violates unique constraint"
  return { db with pendingBlock := pendingBlock, blocks := blocks }

end Saving

/-! ## Reading -/

section Reading

variable {H : Type}

/-- `u32::try_from`. -/
def tryFromI32 (val : Int32) : Outcome UInt32 := do
  Outcome.assert (0 ≤ val) "Invalid block index"
  return val.toUInt32

def blockIndexFrom : Option Int32 → Outcome (Option UInt32)
  | some val => some <$> tryFromI32 val
  | none => .ok none

/-- `into_executed_tx`. -/
def StoredExecutedTransaction.intoExecutedTx (row : StoredExecutedTransaction H) :
    Outcome ExecutedTx := do
  let blockIndex ← blockIndexFrom row.blockIndex
  return {
    signedTx := { tx := row.tx, ethSignData := row.ethSignData }
    success := row.success
    op := row.operation
    failReason := row.failReason
    blockIndex := blockIndex
    batchId := row.batchId }

/-- `into_executed`. -/
def StoredExecutedPriorityOperation.intoExecuted (row : StoredExecutedPriorityOperation) :
    Outcome ExecutedPriorityOp := do
  let data ← Outcome.expect row.operation.tryGetPriorityOp "ZkSyncOp should have priority op"
  return {
    priorityOp :=
      { serialId := row.priorityOpSerialid
        data := data
        deadlineBlock := row.deadlineBlock
        ethHash := row.ethHash
        ethBlock := row.ethBlock }
    op := row.operation
    blockIndex := row.blockIndex.toUInt32 }

/-- Failed operations are at the end. -/
def sortKey : ExecutedOperations → UInt32
  | .Tx tx => tx.blockIndex.getD (UInt32.ofNat (2 ^ 32 - 1))
  | .PriorityOp op => op.blockIndex

/-- What `get_block_executed_ops` makes of the rows it has selected. -/
def executedOpsFrom (txs : List (StoredExecutedTransaction H))
    (priorityOps : List StoredExecutedPriorityOperation) : Outcome (List ExecutedOperations) := do
  let executedOps ← txs.mapM StoredExecutedTransaction.intoExecutedTx
  let executedPriorityOps ← priorityOps.mapM StoredExecutedPriorityOperation.intoExecuted
  let executedOperations := executedOps.map ExecutedOperations.Tx ++
    executedPriorityOps.map ExecutedOperations.PriorityOp
  return executedOperations.mergeSort fun a b => sortKey a ≤ sortKey b

namespace Tables

variable (db : Tables H)

/-- Given the block number, loads all the operations that were executed in that
block. The rows come in any order. -/
def GetBlockExecutedOps (block : BlockNumber) (r : Outcome (List ExecutedOperations)) : Prop :=
  ∃ txs priorityOps,
    txs.Perm (db.executedTransactions.rows.filter fun row => row.blockNumber = block) ∧
    priorityOps.Perm (db.executedPriorityOperations.rows.filter fun row =>
      row.blockNumber = block) ∧
    r = executedOpsFrom txs priorityOps

end Tables

/-- The block of a header and its transactions. -/
def StorageBlock.block (storedBlock : StorageBlock) (blockTransactions : List ExecutedOperations) :
    Block where
  blockNumber := storedBlock.number
  newRootHash := storedBlock.rootHash
  feeAccount := storedBlock.feeAccountId
  blockTransactions := blockTransactions
  processedPriorityOps :=
    (storedBlock.unprocessedPriorOpBefore, storedBlock.unprocessedPriorOpAfter)
  blockChunksSize := storedBlock.blockSize
  commitGasLimit := storedBlock.commitGasLimit
  verifyGasLimit := storedBlock.verifyGasLimit

/-- The pending block of a header and its operations. -/
def StoragePendingBlock.pendingBlock (block : StoragePendingBlock)
    (executedOps : List ExecutedOperations) : SendablePendingBlock where
  number := block.number
  chunksLeft := block.chunksLeft
  unprocessedPriorityOpBefore := block.unprocessedPriorityOpBefore
  pendingBlockIteration := block.pendingBlockIteration
  successOperations := executedOps.filter fun op => match op with
    | .Tx tx => tx.success
    | _ => true
  failedTxs := executedOps.filterMap fun op => match op with
    | .Tx tx => if tx.success then none else some tx
    | _ => none

namespace Tables

variable (db : Tables H)

/-- Given the block number, attempts to retrieve it from the database. -/
def GetBlock (block : BlockNumber) (r : Outcome (Option Block)) : Prop :=
  match db.blocks.find block with
  | none => r = .ok none
  | some storedBlock => ∃ ops, db.GetBlockExecutedOps block ops ∧
      r = (fun blockTransactions => some (storedBlock.block blockTransactions)) <$> ops

/-- `ORDER BY number DESC LIMIT 1`. -/
def loadStoragePendingBlock : Option StoragePendingBlock :=
  db.pendingBlock.rows.argmax fun row => row.number.toNat

def LoadPendingBlock (r : Outcome (Option SendablePendingBlock)) : Prop :=
  match db.loadStoragePendingBlock with
  | none => r = .ok none
  | some block => ∃ ops, db.GetBlockExecutedOps block.number ops ∧
      r = (fun executedOps => some (block.pendingBlock executedOps)) <$> ops

end Tables

end Reading

end ZkSync.BlockSchema
