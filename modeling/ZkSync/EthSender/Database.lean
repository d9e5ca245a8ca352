import Mathlib.Data.Nat.Digits.Defs
import ZkSync.EthSender.TxQueue

/-!
# The database of the Ethereum sender

`zksync_storage::ethereum`, as far as the sender uses it: which Ethereum operations
were started, with what nonce, and the hashes of the transactions that were sent for
them. The rows of a table are in the order of their ids, so `ORDER BY id` is the order
of the list.

The queries themselves are functions here; that a query can fail is said where the
sender awaits it. `load_unconfirmed_operations` reads the gas price back with
`U256::from_str`, which takes the decimal digits of the stored number for hexadecimal
ones (`u256FromStr`).
-/

namespace ZkSync

abbrev EthOpId := Nat

/-- `zksync_types::ethereum::ETHOperation`. -/
structure ETHOperation where
  id : EthOpId
  opType : OperationType
  op : Option Operation
  nonce : Nat
  lastDeadlineBlock : UInt64
  lastUsedGasPrice : Nat
  usedTxHashes : List (List UInt8)
  /-- Not signed. -/
  encodedTxData : List UInt8
  confirmed : Bool
  finalHash : Option (List UInt8)
  deriving DecidableEq

namespace ETHOperation

def isStuck (op : ETHOperation) (currentBlock : UInt64) : Bool :=
  op.lastDeadlineBlock ≤ currentBlock

def isVerify (op : ETHOperation) : Bool :=
  match op.op with
  | some ⟨_, .Verify _, _⟩ => true
  | _ => false

end ETHOperation

/-! ## The tables -/

/-- A row of `eth_operations`; block numbers are stored as `i64`. -/
structure StorageETHOperation where
  id : EthOpId
  nonce : Nat
  confirmed : Bool
  rawTx : List UInt8
  opType : OperationType
  finalHash : Option (List UInt8)
  lastDeadlineBlock : Int64
  lastUsedGasPrice : Nat
  deriving DecidableEq

/-- A row of `eth_tx_hashes`. -/
structure ETHTxHash where
  ethOpId : EthOpId
  txHash : List UInt8
  deriving DecidableEq

/-- A row of `eth_ops_binding`. -/
structure ETHBinding where
  opId : Int
  ethOpId : EthOpId
  deriving DecidableEq

/-- A row of `operations`, with its block. -/
structure OperationRow where
  id : Int
  action : Action
  block : Block
  confirmed : Bool
  deriving DecidableEq

def OperationRow.intoOp (row : OperationRow) : Operation := ⟨some row.id, row.action, row.block⟩

/-- The single row of `eth_parameters`. -/
structure ETHParams where
  nonce : Nat
  commitOps : Nat := 0
  verifyOps : Nat := 0
  withdrawOps : Nat := 0
  deriving DecidableEq

structure EthDb where
  ethParameters : ETHParams
  ethOperations : List StorageETHOperation := []
  /-- The last id of `eth_operations` that was given out; a rollback does not take it back. -/
  ethOperationsIdSeq : Nat := 0
  ethTxHashes : List ETHTxHash := []
  ethOpsBinding : List ETHBinding := []
  operations : List OperationRow := []
  deriving DecidableEq

/-- `U256::from_str` of the decimal digits of a number: a hexadecimal number of at most
64 digits. -/
def u256FromStr (decimal : Nat) : Outcome Nat := do
  Outcome.assert ((Nat.digits 10 decimal).length ≤ 64) "called `Result::unwrap()` on an `Err` value"
  return Nat.ofDigits 16 (Nat.digits 10 decimal)

structure InsertedOperationResponse where
  id : EthOpId
  nonce : Nat

namespace EthDb

variable (db : EthDb)

/-! ## Starting an operation -/

def getNextNonce : Nat × EthDb :=
  (db.ethParameters.nonce,
    { db with ethParameters := { db.ethParameters with nonce := db.ethParameters.nonce + 1 } })

/-- Called once for each operation. -/
def reportCreatedOperation (operationType : OperationType) : EthDb :=
  let currentStats := db.ethParameters
  { db with ethParameters := match operationType with
      | .Commit => { currentStats with commitOps := currentStats.commitOps + 1 }
      | .Verify => { currentStats with verifyOps := currentStats.verifyOps + 1 }
      | .Withdraw => { currentStats with withdrawOps := currentStats.withdrawOps + 1 } }

def saveNewEthTx (opType : OperationType) (opId : Option Int) (lastDeadlineBlock : Int64)
    (lastUsedGasPrice : Nat) (rawTx : List UInt8) : InsertedOperationResponse × EthDb :=
  let (nonce, db) := db.getNextNonce
  let ethOpId := db.ethOperationsIdSeq + 1
  let row : StorageETHOperation :=
    ⟨ethOpId, nonce, false, rawTx, opType, none, lastDeadlineBlock, lastUsedGasPrice⟩
  let bindings := (opId.map fun opId => ETHBinding.mk opId ethOpId).toList
  let db := { db with
    ethOperationsIdSeq := ethOpId
    ethOperations := db.ethOperations ++ [row]
    ethOpsBinding := db.ethOpsBinding ++ bindings }
  (⟨ethOpId, nonce⟩, db.reportCreatedOperation opType)

def addHashEntry (ethOpId : EthOpId) (hash : List UInt8) : EthDb :=
  { db with ethTxHashes := db.ethTxHashes ++ [⟨ethOpId, hash⟩] }

/-- `UPDATE eth_operations SET .. WHERE id = ethOpId`. -/
def updateRow (ethOpId : EthOpId) (f : StorageETHOperation → StorageETHOperation) : EthDb :=
  { db with ethOperations := db.ethOperations.map fun row => if row.id = ethOpId then f row else row }

def updateEthTx (ethOpId : EthOpId) (newDeadlineBlock : Int64) (newGasValue : Nat) : EthDb :=
  db.updateRow ethOpId fun row =>
    { row with lastUsedGasPrice := newGasValue, lastDeadlineBlock := newDeadlineBlock }

/-! ## Confirming an operation -/

/-- `fetch_one`: an error if the hash was not stored. -/
def getEthOpId (hash : List UInt8) : Outcome EthOpId := do
  let hashEntry ← Outcome.okOrElse (db.ethTxHashes.find? fun entry => entry.txHash = hash)
    "no rows returned by a query that expected to return at least one row"
  return hashEntry.ethOpId

/-- The id of the operation that is bound to the Ethereum operation. -/
def boundOpId (ethOpId : EthOpId) : Option Int :=
  (db.ethOpsBinding.find? fun binding => binding.ethOpId = ethOpId).map ETHBinding.opId

def confirmEthTx (hash : List UInt8) : Outcome EthDb := do
  let ethOpId ← db.getEthOpId hash
  Outcome.ensure (∃ row ∈ db.ethOperations, row.id = ethOpId)
    "no rows returned by a query that expected to return at least one row"
  let db := db.updateRow ethOpId fun row => { row with confirmed := true, finalHash := some hash }
  return { db with operations := db.operations.map fun row =>
    if db.boundOpId ethOpId = some row.id then { row with confirmed := true } else row }

/-! ## Loading -/

def hashesOf (ethOpId : EthOpId) : List (List UInt8) :=
  (db.ethTxHashes.filter fun entry => entry.ethOpId = ethOpId).map ETHTxHash.txHash

def boundOperation (ethOpId : EthOpId) : Option Operation := do
  let opId ← db.boundOpId ethOpId
  let row ← db.operations.find? fun row => row.id = opId
  return row.intoOp

def loadUnconfirmedOperation (row : StorageETHOperation) : Outcome ETHOperation := do
  Outcome.assert (db.hashesOf row.id ≠ []) "No hashes stored for the Ethereum operation"
  let lastUsedGasPrice ← u256FromStr row.lastUsedGasPrice
  return {
    id := row.id
    opType := row.opType
    op := db.boundOperation row.id
    nonce := row.nonce
    lastDeadlineBlock := row.lastDeadlineBlock.toUInt64
    lastUsedGasPrice
    usedTxHashes := db.hashesOf row.id
    encodedTxData := row.rawTx
    confirmed := row.confirmed
    finalHash := row.finalHash }

def loadUnconfirmedOperations : Outcome (List ETHOperation) :=
  (db.ethOperations.filter fun row => row.confirmed = false).mapM db.loadUnconfirmedOperation

def loadUnprocessedOperations : List Operation :=
  (db.operations.filter fun row => row.confirmed = false ∧
    ¬ ∃ binding ∈ db.ethOpsBinding, binding.opId = row.id).map OperationRow.intoOp

end EthDb

end ZkSync
