import ZkSync.EthSender.Database
import ZkSync.Types.BlockData
import ZkSync.Types.GasCounter

/-!
# The Ethereum sender

`ETHSender` of `zksync_eth_sender`. One round of its loop loads the new operations into
the queue, starts what the queue yields (`initialize_operation`), and then looks once
at each ongoing operation (`perform_commitment_step`): it is confirmed, or left alone,
or replaced by a supplement transaction with the same nonce.

Every call that is awaited may fail. How they ended is in the `Replies` that a step
comes with, and an error anywhere ends the step where it happened: what was changed
before stays changed in memory, and of the database what was committed. A transaction
whose `commit` fails is rolled back. A panic ends the process; there is no state after
it.

The limit of the gas price is a reply too: it comes from averages of gas prices.
The log and the waits are not modelled.
-/

namespace ZkSync

/-- A call that was awaited. -/
def await {α : Type} (reply : Except String α) : Outcome α :=
  match reply with
  | .ok a => .ok a
  | .error message => .error (.error message)

@[simp] theorem await_eq_ok {α : Type} {reply : Except String α} {a : α} :
    await reply = .ok a ↔ reply = .ok a := by
  cases reply with
  | ok b => exact ⟨fun h => by rw [Except.ok.inj h], fun h => by rw [Except.ok.inj h]; rfl⟩
  | error message => exact ⟨fun h => (by cases h), fun h => (by cases h)⟩

/-! ## The Ethereum node -/

/-- The fields of `web3::contract::Options` that the sender sets. -/
structure TxOptions where
  nonce : Nat
  gasPrice : Nat
  gas : Nat

/-- A signed transaction, with what the database keeps of it. -/
structure SignedCallResult where
  rawTx : List UInt8
  gasPrice : Nat
  nonce : Nat
  hash : List UInt8
  deriving DecidableEq

/-- The calls of the contract that the sender encodes. -/
inductive ContractCall where
  | commitBlock (blockNumber feeAccount : Nat) (newRoot : Fr) (publicData ethWitness : Bytes)
      (ethWitnessSizes : List Nat)
  | verifyBlock (blockNumber : Nat) (proof : List Nat) (withdrawalsData : Bytes)
  | completeWithdrawals (n : Nat)

/-- `config::MAX_WITHDRAWALS_TO_COMPLETE_IN_A_CALL`. -/
def MAX_WITHDRAWALS_TO_COMPLETE_IN_A_CALL : Nat := 20

namespace GasCounter

def COMPLETE_WITHDRAWALS_BASE_COST : Nat := 30307
def COMPLETE_WITHDRAWALS_COST : Nat := 41641

/-- The limit grows with the number of withdrawals that a call may complete. -/
def completeWithdrawalsGasLimit : Nat :=
  scaleUp (COMPLETE_WITHDRAWALS_BASE_COST +
    MAX_WITHDRAWALS_TO_COMPLETE_IN_A_CALL * COMPLETE_WITHDRAWALS_COST)

end GasCounter

/-- The options that the sender is configured with. -/
structure EthSenderOptions where
  expectedWaitTimeBlock : UInt64
  waitConfirmations : UInt64
  maxTxsInFlight : Nat
  isEnabled : Bool

/-- The options of the sender, the encoder of contract calls and the signer. -/
structure SenderEnv where
  overflowChecks : Bool
  options : EthSenderOptions
  encodeTxData : ContractCall → List UInt8
  signTransaction : List UInt8 → TxOptions → List UInt8
  sha3 : List UInt8 → List UInt8

/-- `None` if the transaction is in no block. -/
structure ExecutedTxStatus where
  confirmations : UInt64
  success : Bool
  hasReceipt : Bool

/-- An operation is checked by its last transaction, or by those before it. -/
inductive TxCheckMode where
  | Latest
  | Old
  deriving DecidableEq

/-- What the sender finds out about a transaction. -/
inductive TxCheckOutcome where
  | Committed
  | Pending
  | Stuck
  | Failed

/-- Whether an operation is through, or has to be looked at again. -/
inductive OperationCommitment where
  | Committed
  | Pending

/-- The answers that the price of a transaction depends on. -/
structure GasReplies where
  networkPrice : Except String Nat
  limit : Nat

/-- How the calls of `initialize_operation` ended. An error of `send_tx` only goes to
the log, so nothing is said of it. -/
structure InitReplies where
  blockNumber : Except String UInt64
  gas : GasReplies
  connection : Except String Unit := .ok ()
  startTransaction : Except String Unit := .ok ()
  save : Except String Unit := .ok ()
  sign : Except String Unit := .ok ()
  addHash : Except String Unit := .ok ()
  commit : Except String Unit := .ok ()
  /-- The ids that an `INSERT` used up, of a transaction that did not get to its commit. -/
  skippedIds : Nat := 0

/-- How the calls ended from `create_supplement_tx` on. -/
structure SupplementReplies where
  gas : GasReplies
  sign : Except String Unit := .ok ()
  connection : Except String Unit := .ok ()
  startTransaction : Except String Unit := .ok ()
  update : Except String Unit := .ok ()
  addHash : Except String Unit := .ok ()
  send : Except String Unit := .ok ()
  commit : Except String Unit := .ok ()

/-- How the calls of `perform_commitment_step` ended. -/
structure SiftReplies where
  blockNumber : Except String UInt64
  /-- Of each used hash, by its index. -/
  getTxStatus : Nat → Except String (Option ExecutedTxStatus)
  connection : Except String Unit := .ok ()
  confirm : Except String Unit := .ok ()
  supplement : SupplementReplies

/-- `GasAdjuster::scale_up`: 15% more. -/
def scaleUpGasPrice (priceToScale currentNetworkPrice : Nat) : Outcome Nat := do
  Outcome.assert (priceToScale * 115 < 2 ^ 256) "arithmetic operation overflow"
  return max currentNetworkPrice (priceToScale * 115 / 100)

/-- `GasAdjuster::get_gas_price`. -/
def getGasPrice (gas : GasReplies) (oldTxGasPrice : Option Nat) : Outcome Nat := do
  let networkPrice ← await gas.networkPrice
  let scaledPrice ← match oldTxGasPrice with
    | some oldPrice => scaleUpGasPrice oldPrice networkPrice
    | none => .ok networkPrice
  return min scaledPrice gas.limit

/-! ## The state -/

/-- The fields of `ETHSender` that change. -/
structure ETHSender where
  ongoingOps : List ETHOperation
  txQueue : TxQueue

/-- Where the sender stands between two of its awaits. -/
inductive SenderPhase where
  | idle
  /-- Starting what the queue yields. -/
  | starting
  /-- Looking at the ongoing operations. -/
  | sifting (newOngoingOps : List ETHOperation)

/-- An element of the queue that was put among the ongoing operations. -/
structure StartedTx where
  tx : TxData
  ethOpId : EthOpId
  nonce : Nat

/-- What happened so far. -/
structure SenderHistory where
  /-- What was put into the queue. -/
  added : List TxData := []
  started : List StartedTx := []
  /-- What was found to be committed. -/
  completed : List EthOpId := []
  /-- What was given to `send_tx`, and for which operation. -/
  sent : List (EthOpId × SignedCallResult) := []

/-- The sender with its database and the transactions that Ethereum was sent. -/
structure SenderState where
  sender : ETHSender
  db : EthDb
  phase : SenderPhase
  history : SenderHistory

namespace SenderState

variable (s : SenderState)

/-- The operation is in flight, and the history remembers what it was started for. -/
def pushOngoing (tx : TxData) (newOp : ETHOperation) : SenderState :=
  { s with
    sender := { s.sender with ongoingOps := s.sender.ongoingOps ++ [newOp] }
    history := { s.history with started := s.history.started ++ [⟨tx, newOp.id, newOp.nonce⟩] } }

/-- Ethereum has the transaction from now on, whatever becomes of the sender. -/
def sendTx (ethOpId : EthOpId) (signedTx : SignedCallResult) : SenderState :=
  { s with history := { s.history with sent := s.history.sent ++ [(ethOpId, signedTx)] } }

/-- A transaction of the database that is rolled back still takes its ids. -/
def skipIds (count : Nat) : SenderState :=
  { s with db := { s.db with ethOperationsIdSeq := s.db.ethOperationsIdSeq + count } }

end SenderState

namespace SenderEnv

variable (env : SenderEnv)

/-! ## Transactions -/

/-- The nonce and the gas price are signed along with the data. -/
def signPreparedTx (data : List UInt8) (options : TxOptions) : SignedCallResult where
  rawTx := env.signTransaction data options
  gasPrice := options.gasPrice
  nonce := options.nonce
  hash := env.sha3 (env.signTransaction data options)

/-- The block at which a transaction counts as stuck. -/
def getDeadlineBlock (currentBlock : UInt64) : Outcome UInt64 :=
  u64Add env.overflowChecks currentBlock env.options.expectedWaitTimeBlock

/-- The gas limit, by the kind of the operation and the size of its block. -/
def gasLimitForOp (op : ETHOperation) : Outcome Nat :=
  match op.opType with
  | .Commit => do return (← Outcome.expect op.op "No zkSync operation for Commit").block.commitGasLimit
  | .Verify => do return (← Outcome.expect op.op "No zkSync operation for Verify").block.verifyGasLimit
  | .Withdraw => .ok GasCounter.completeWithdrawalsGasLimit

/-- A transaction of a new operation has the gas price and the nonce that were stored for it. -/
def signNewTx (op : ETHOperation) (sign : Except String Unit) : Outcome SignedCallResult := do
  let gasLimit ← gasLimitForOp op
  Outcome.assert (0 < gasLimit) "Proposed gas limit for operation is 0"
  await sign
  return env.signPreparedTx op.encodedTxData ⟨op.nonce, op.lastUsedGasPrice, gasLimit⟩

/-- The transaction is sent again with its nonce and a higher price. -/
def txOptionsFromStuckTx (stuckTx : ETHOperation) (gas : GasReplies) : Outcome TxOptions := do
  let newGasPrice ← getGasPrice gas (some stuckTx.lastUsedGasPrice)
  let gasLimit ← gasLimitForOp stuckTx
  Outcome.assert (0 < gasLimit) "Proposed gas limit for (stuck) operation is 0"
  return ⟨stuckTx.nonce, newGasPrice, gasLimit⟩

/-- The signed transaction, and the stuck operation with the new transaction in it. -/
def createSupplementTx (deadlineBlock : UInt64) (stuckTx : ETHOperation) (r : SupplementReplies) :
    Outcome (SignedCallResult × ETHOperation) := do
  let txOptions ← txOptionsFromStuckTx stuckTx r.gas
  await r.sign
  let signedTx := env.signPreparedTx stuckTx.encodedTxData txOptions
  return (signedTx, { stuckTx with
    lastDeadlineBlock := deadlineBlock
    lastUsedGasPrice := signedTx.gasPrice
    usedTxHashes := stuckTx.usedTxHashes ++ [signedTx.hash] })

/-! ## Filling the queue -/

/-- The data of the call that an operation stands for. -/
def operationToRawTx (op : Operation) : Outcome (List UInt8) :=
  match op.action with
  | .Commit => do
    let publicData ← op.block.getEthPublicData
    let (ethWitness, ethWitnessSizes) := op.block.getEthWitnessData
    return env.encodeTxData (.commitBlock op.block.blockNumber.toNat op.block.feeAccount.toNat
      op.block.newRootHash publicData ethWitness ethWitnessSizes)
  | .Verify proof => do
    let withdrawalsData ← op.block.getWithdrawalsData
    return env.encodeTxData (.verifyBlock op.block.blockNumber.toNat proof.proof withdrawalsData)

/-- The element that was added comes first. -/
def addOperationToQueue (q : TxQueue) (op : Operation) : Outcome (Option TxData × TxQueue) := do
  let rawTx ← env.operationToRawTx op
  let blockNumber := op.block.blockNumber
  match op.action with
  | .Commit =>
    let tx := TxData.fromOperation .Commit op rawTx
    let found ← q.commitOperationExists blockNumber
    return if found then (none, q) else (some tx, q.addCommitOperation tx)
  | .Verify _ =>
    let tx := TxData.fromOperation .Verify op rawTx
    if q.verifyOperationExists blockNumber then return (none, q)
    else return (some tx, ← q.addVerifyOperation blockNumber.toNat tx)

/-- The operations that wait are queued again, in the order of their ids. -/
def addOperationsToQueue (q : TxQueue) : List Operation → Outcome (List TxData × TxQueue)
  | [] => .ok ([], q)
  | op :: ops => do
    let (added, q) ← env.addOperationToQueue q op
    let (rest, q) ← addOperationsToQueue q ops
    return (added.toList ++ rest, q)

/-- The call that pays out what waits in the queue of the contract. -/
def completeWithdrawalsTx : TxData :=
  .fromRaw .Withdraw (env.encodeTxData (.completeWithdrawals MAX_WITHDRAWALS_TO_COMPLETE_IN_A_CALL))

/-- A sender begins with what the database has of the one before it. -/
def newSender (db : EthDb) : Outcome (List TxData × ETHSender) := do
  let ongoingOps ← db.loadUnconfirmedOperations
  let stats := db.ethParameters
  let txQueue := TxQueueBuilder.build {
    maxPendingTxs := env.options.maxTxsInFlight
    sentPendingTxs := ongoingOps.length
    commitOperationsCount := stats.commitOps
    verifyOperationsCount := stats.verifyOps
    withdrawOperationsCount := stats.withdrawOps }
  let (added, txQueue) ← env.addOperationsToQueue txQueue db.loadUnprocessedOperations
  return (added, ⟨ongoingOps, txQueue⟩)

/-! ## Starting an operation -/

/-- `initialize_operation` up to the end of what it writes to the database: the new
operation, its signed transaction, and the database as the open transaction sees it. -/
def storeOperation (db : EthDb) (tx : TxData) (r : InitReplies) :
    Outcome (ETHOperation × SignedCallResult × EthDb) := do
  let currentBlock ← await r.blockNumber
  let deadlineBlock ← env.getDeadlineBlock currentBlock
  let gasPrice ← getGasPrice r.gas none
  await r.connection
  await r.startTransaction
  let opId ← tx.operation.mapM fun op =>
    Outcome.expect op.id "called `Option::unwrap()` on a `None` value"
  await r.save
  let (assignedData, transaction) :=
    db.saveNewEthTx tx.opType opId deadlineBlock.toInt64 gasPrice tx.raw
  let newOp : ETHOperation := {
    id := assignedData.id
    opType := tx.opType
    op := tx.operation
    nonce := assignedData.nonce
    lastDeadlineBlock := deadlineBlock
    lastUsedGasPrice := gasPrice
    usedTxHashes := []
    encodedTxData := tx.raw
    confirmed := false
    finalHash := none }
  let signedTx ← env.signNewTx newOp r.sign
  await r.addHash
  return ({ newOp with usedTxHashes := newOp.usedTxHashes ++ [signedTx.hash] }, signedTx,
    transaction.addHashEntry newOp.id signedTx.hash)

/-- An operation gets its id and its nonce, is stored, and then sent. -/
def initializeOperation (s : SenderState) (tx : TxData) (r : InitReplies) :
    Outcome Unit × SenderState :=
  match env.storeOperation s.db tx r with
  | .error e => (.error e, s.skipIds r.skippedIds)
  | .ok (newOp, signedTx, transaction) =>
    -- the operation is ongoing before it is sent, and it is sent before the commit
    let s := (s.pushOngoing tx newOp).sendTx newOp.id signedTx
    match r.commit with
    | .ok _ => (.ok (), { s with db := transaction })
    | .error message => (.error (.error message), s.skipIds 1)

/-! ## Looking at an ongoing operation -/

/-- A transaction is pending, confirmed, failed, or stuck beyond its deadline. -/
def checkTransactionState (mode : TxCheckMode) (op : ETHOperation)
    (status : Except String (Option ExecutedTxStatus)) (currentBlock : UInt64) :
    Outcome TxCheckOutcome := do
  match ← await status with
  | some status =>
    if status.success then
      return if env.options.waitConfirmations ≤ status.confirmations then .Committed else .Pending
    else
      Outcome.assert status.hasReceipt "Receipt should exist for a failed transaction"
      return .Failed
  | none =>
    if op.isStuck currentBlock then return .Stuck
    else return match mode with
      | .Latest => .Pending
      | .Old => .Stuck

/-- What the used transactions come to: one of them is pending, one is committed, or
all are stuck. -/
inductive CheckedTxs where
  | pending
  | committed (txHash : List UInt8)
  | stuck

/-- The loop over the used hashes, from the index on. A failed transaction is a panic. -/
def checkTransactions (op : ETHOperation) (r : SiftReplies) (currentBlock : UInt64) (idx : Nat) :
    List (List UInt8) → Outcome CheckedTxs
  | [] => .ok .stuck
  | txHash :: rest => do
    let mode := if idx = op.usedTxHashes.length - 1 then .Latest else .Old
    match ← env.checkTransactionState mode op (r.getTxStatus idx) currentBlock with
    | .Pending => return .pending
    | .Committed => return .committed txHash
    | .Stuck => checkTransactions op r currentBlock (idx + 1) rest
    | .Failed => .error (.panic "Cannot operate after unexpected TX failure")

/-- What the chain says of the operation, with the current block. -/
def checkOperation (op : ETHOperation) (r : SiftReplies) : Outcome (UInt64 × CheckedTxs) := do
  Outcome.assert (op.usedTxHashes ≠ []) "OperationETHState should have at least one transaction"
  let currentBlock ← await r.blockNumber
  let checked ← env.checkTransactions op r currentBlock 0 op.usedTxHashes
  return (currentBlock, checked)

/-- The hash that was confirmed is stored with the operation. -/
def confirmOperation (db : EthDb) (txHash : List UInt8) (r : SiftReplies) : Outcome EthDb := do
  await r.connection
  let db ← db.confirmEthTx txHash
  await r.confirm
  return db

/-- Write the supplement transaction of an operation to the database and send it. -/
def persistSupplementTx (s : SenderState) (op : ETHOperation) (newTx : SignedCallResult)
    (r : SupplementReplies) : Outcome Unit × SenderState :=
  match (do await r.connection; await r.startTransaction; await r.update; await r.addHash) with
  | .error e => (.error e, s)
  | .ok _ =>
    let transaction := s.db.updateEthTx op.id op.lastDeadlineBlock.toInt64 newTx.gasPrice
    let transaction := transaction.addHashEntry op.id newTx.hash
    let s := s.sendTx op.id newTx
    match (do await r.send; await r.commit) with
    | .error e => (.error e, s)
    | .ok _ => (.ok (), { s with db := transaction })

/-- With the operation as it is in memory afterwards, also after an error. -/
def performCommitmentStep (s : SenderState) (op : ETHOperation) (r : SiftReplies) :
    Outcome OperationCommitment × ETHOperation × SenderState :=
  match env.checkOperation op r with
  | .error e => (.error e, op, s)
  | .ok (_, .pending) => (.ok .Pending, op, s)
  | .ok (_, .committed txHash) =>
    match confirmOperation s.db txHash r with
    | .error e => (.error e, op, s)
    | .ok db => (.ok .Committed, op, { s with db })
  | .ok (currentBlock, .stuck) =>
    match (do env.createSupplementTx (← env.getDeadlineBlock currentBlock) op r.supplement) with
    | .error e => (.error e, op, s)
    | .ok (newTx, op) =>
      let (result, s) := persistSupplementTx s op newTx r.supplement
      (result.map fun _ => .Pending, op, s)

end SenderEnv

/-! ## The loop -/

/-- One await after another; the sender may stop at any of them. -/
inductive SenderEvent where
  /-- Another component stores an operation. -/
  | store (id : Int) (action : Action) (block : Block)
  | loadNewOperations (connection load : Except String Unit)
  /-- One round of the first loop of `proceed_next_operations`. -/
  | startNext (r : InitReplies)
  /-- The queue yields nothing more. -/
  | startSifting
  /-- One round of the second loop. -/
  | siftNext (r : SiftReplies)
  | finish
  | restart

namespace SenderEnv

variable (env : SenderEnv)

/-- New operations of the server join the queue. -/
def loadNewOperations (s : SenderState) (connection load : Except String Unit) :
    Outcome SenderState :=
  match (do await connection; await load) with
  | .error _ => .ok s
  | .ok _ => do
    let (added, txQueue) ← env.addOperationsToQueue s.sender.txQueue s.db.loadUnprocessedOperations
    return { s with
      sender := { s.sender with txQueue }
      history := { s.history with added := s.history.added ++ added } }

/-- Start the element that was popped; after an error it is returned. -/
def startNext (s : SenderState) (tx : TxData) (r : InitReplies) : Outcome SenderState :=
  match env.initializeOperation s tx r with
  | (.ok _, s) => .ok s
  | (.error (.error _), s) => do
    let txQueue ← s.sender.txQueue.returnPopped env.overflowChecks tx
    return { s with sender := { s.sender with txQueue } }
  | (.error (.panic message), _) => .error (.panic message)

/-- After the commitment of an operation: a slot is free, and a verified block with
withdrawals has them completed. -/
def reportCommitted (s : SenderState) (currentOp : ETHOperation) : Outcome SenderState := do
  let txQueue ← s.sender.txQueue.reportCommitment
  let s := { s with
    sender := { s.sender with txQueue }
    history := { s.history with completed := s.history.completed ++ [currentOp.id] } }
  if currentOp.isVerify then
    let syncOp ← Outcome.expect currentOp.op "Should be verify operation"
    let withdrawalsData ← syncOp.block.getWithdrawalsData
    if withdrawalsData = [] then return s
    else
      return { s with
        sender := { s.sender with
          txQueue := s.sender.txQueue.addWithdrawOperation env.completeWithdrawalsTx }
        history := { s.history with added := s.history.added ++ [env.completeWithdrawalsTx] } }
  else return s

/-- One ongoing operation was taken out of `s`. -/
def siftNext (s : SenderState) (newOngoingOps : List ETHOperation) (currentOp : ETHOperation)
    (r : SiftReplies) : Outcome SenderState :=
  match env.performCommitmentStep s currentOp r with
  | (.ok .Committed, currentOp, s) => env.reportCommitted s currentOp
  | (.ok .Pending, currentOp, s) | (.error (.error _), currentOp, s) =>
    .ok { s with phase := .sifting (newOngoingOps ++ [currentOp]) }
  | (.error (.panic message), _, _) => .error (.panic message)

/-- What the queue of the last process held is gathered again. -/
def restart (s : SenderState) : Outcome SenderState := do
  let (added, sender) ← env.newSender s.db
  return { s with
    sender
    phase := .idle
    history := { s.history with
      added := s.history.started.map StartedTx.tx ++ added
      completed := (s.db.ethOperations.filter fun row => row.confirmed).map StorageETHOperation.id } }

/-- No state if the event cannot happen, or ends the process. -/
def next (s : SenderState) : SenderEvent → Option SenderState
  | .store id action block =>
    if ∀ row ∈ s.db.operations, row.id < id then
      some { s with db := { s.db with operations := s.db.operations ++ [⟨id, action, block, false⟩] } }
    else none
  | .loadNewOperations connection load =>
    match s.phase with
    | .idle =>
      (env.loadNewOperations s connection load).toOption.map fun s =>
        { s with phase := if env.options.isEnabled then .starting else .idle }
    | _ => none
  | .startNext r =>
    match s.phase, s.sender.txQueue.popFront with
    | .starting, (some tx, txQueue) =>
      (env.startNext { s with sender := { s.sender with txQueue } } tx r).toOption
    | _, _ => none
  | .startSifting =>
    match s.phase, s.sender.txQueue.popFront with
    | .starting, (none, _) => some { s with phase := .sifting [] }
    | _, _ => none
  | .siftNext r =>
    match s.phase, s.sender.ongoingOps with
    | .sifting newOngoingOps, currentOp :: ongoingOps =>
      (env.siftNext { s with sender := { s.sender with ongoingOps } } newOngoingOps currentOp
        r).toOption
    | _, _ => none
  | .finish =>
    match s.phase, s.sender.ongoingOps with
    | .sifting newOngoingOps, [] =>
      some { s with sender := { s.sender with ongoingOps := newOngoingOps }, phase := .idle }
    | _, _ => none
  | .restart => (env.restart s).toOption

end SenderEnv

/-- The steps of the sender. -/
def SenderStep (env : SenderEnv) (s : SenderState) (e : SenderEvent) (s' : SenderState) : Prop :=
  env.next s e = some s'

namespace SenderState

/-- The operations that are in memory and not completed. -/
def inFlight (s : SenderState) : List ETHOperation :=
  match s.phase with
  | .sifting newOngoingOps => newOngoingOps ++ s.sender.ongoingOps
  | _ => s.sender.ongoingOps

/-- The first start of the sender, on an empty database. -/
def first (env : SenderEnv) (nonce : Nat) : SenderState where
  sender := ⟨[], TxQueueBuilder.build { maxPendingTxs := env.options.maxTxsInFlight }⟩
  db := { ethParameters := { nonce } }
  phase := .idle
  history := {}

end SenderState

end ZkSync
