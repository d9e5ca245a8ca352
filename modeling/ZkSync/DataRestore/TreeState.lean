import ZkSync.DataRestore.RollupOps
import ZkSync.Core.StateKeeper

/-!
# The restorer's tree

`data_restore::tree_state`: the operations of a block are executed again, in the
order of its public data. The public data does not carry a transaction as it was
signed, so `executeOperation` looks up the addresses and the nonce it needs, and
applies the operation without creating it: no signature is checked, and the ids are
those of the data. A priority operation is executed as the server executes it: the
ids in the data are ignored, and a new account takes the id that is free here.

What an operation changes is collected in an `OpsBlockUpdate`, and the block closes
with the fees, as the server's block does.
-/

namespace ZkSync

/-- A block as it is read from the contract. -/
structure RollupOpsBlock where
  blockNum : BlockNumber
  ops : List ZkSyncOp
  feeAccount : AccountId

structure TreeState where
  state : ZkSyncState
  currentUnprocessedPriorityOp : UInt64
  lastFeeAccountAddress : Address
  availableBlockChunkSizes : List Nat

/-- The local variables of `update_tree_states_from_ops_block`, and the tree it changes. -/
structure OpsBlockUpdate where
  tree : TreeState
  accountsUpdated : AccountUpdates := []
  fees : List CollectedFee := []
  ops : List ExecutedOperations := []
  currentOpBlockIndex : UInt32 := 0

/-- `Close::apply_op`. Only the server refuses to close accounts. -/
def Close.applyOp (s : ZkSyncState) (op : CloseOp) : Outcome Applied := do
  Outcome.ensure (op.accountId ≤ maxAccountId) "Close account id is bigger than max supported"
  let account ← Outcome.expect (s.getAccount op.accountId) "called Option::unwrap() on a None value"
  match (List.range (2 ^ balanceTreeDepth)).find? fun token =>
      account.getBalance (UInt16.ofNat token) ≠ 0 with
  | some token => Outcome.bail ("Account is not empty, token id: " ++ toString token)
  | none =>
    Outcome.ensure (op.tx.nonce = account.nonce) "Nonce mismatch"
    let updates := [(op.accountId, .Delete account.address account.nonce)]
    return ((some { token := 0, amount := 0 }, updates), s.removeAccount op.accountId)

namespace OpsBlockUpdate

variable (env : Env) (u : OpsBlockUpdate)

def withState (state : ZkSyncState) : OpsBlockUpdate := { u with tree := { u.tree with state } }

/-! ## One operation -/

/-- The place in the contract's queue is not known. -/
def updateFromPriorityOperation (priorityOp : ZkSyncPriorityOp) (opResult : OpSuccess) :
    Outcome OpsBlockUpdate := do
  let execResult : ExecutedPriorityOp :=
    { op := opResult.executedOp
      priorityOp := { serialId := 0, data := priorityOp, deadlineBlock := 0, ethHash := [], ethBlock := 0 }
      blockIndex := u.currentOpBlockIndex }
  let currentUnprocessedPriorityOp ←
    u64Increment env.overflowChecks u.tree.currentUnprocessedPriorityOp
  let currentOpBlockIndex ← u32Increment env.overflowChecks u.currentOpBlockIndex
  return {
    tree := { u.tree with currentUnprocessedPriorityOp }
    accountsUpdated := u.accountsUpdated ++ opResult.updates
    fees := u.fees ++ opResult.fee.toList
    ops := u.ops ++ [.PriorityOp execResult]
    currentOpBlockIndex }

/-- The batch of a transaction is not known. -/
def updateFromTx (tx : ZkSyncTx) (txResult : OpSuccess) : Outcome OpsBlockUpdate := do
  let execResult : ExecutedTx :=
    { signedTx := { tx, ethSignData := none }
      success := true
      op := some txResult.executedOp
      failReason := none
      blockIndex := some u.currentOpBlockIndex
      batchId := none }
  let currentOpBlockIndex ← u32Increment env.overflowChecks u.currentOpBlockIndex
  return { u with
    accountsUpdated := u.accountsUpdated ++ txResult.updates
    fees := u.fees ++ txResult.fee.toList
    ops := u.ops ++ [.Tx execResult]
    currentOpBlockIndex }

def executePriorityOp (priorityOp : ZkSyncPriorityOp) : Outcome OpsBlockUpdate := do
  let (opResult, state) ← u.tree.state.executePriorityOp priorityOp
  (u.withState state).updateFromPriorityOperation env priorityOp opResult

/-- The operation was applied; an error names the operation. -/
def updateFromApplied (text : String) (applied : Outcome Applied) (tx : ZkSyncTx)
    (executedOp : ZkSyncOp) : Outcome OpsBlockUpdate := do
  let ((fee, updates), state) ← Outcome.context text applied
  (u.withState state).updateFromTx env tx { fee, updates, executedOp }

/-- One round of the loop. A failed transfer is reported as a withdrawal. -/
def executeOperation : ZkSyncOp → Outcome OpsBlockUpdate
  | .Deposit op => u.executePriorityOp env (.Deposit op.priorityOp)
  | .TransferToNew op => do
    let source ← Outcome.okOrElse (u.tree.state.getAccount op.fromId)
      "TransferToNew fail: Nonexistent account"
    let op := { op with tx := { op.tx with fromAddress := source.address, nonce := source.nonce } }
    u.updateFromApplied env "TransferToNew fail: "
      (Transfer.applyOp env u.tree.state (.TransferToNew op)) (.Transfer op.tx) (.TransferToNew op)
  | .Transfer op => do
    let source ← Outcome.okOrElse (u.tree.state.getAccount op.fromId) "Nonexistent account"
    let target ← Outcome.okOrElse (u.tree.state.getAccount op.toId) "Nonexistent account"
    let op := { op with tx := { op.tx with
      fromAddress := source.address, toAddress := target.address, nonce := source.nonce } }
    u.updateFromApplied env "Withdraw fail: "
      (Transfer.applyOp env u.tree.state (.Transfer op)) (.Transfer op.tx) (.Transfer op)
  | .Withdraw op => do
    let account ← Outcome.okOrElse (u.tree.state.getAccount op.accountId)
      "Withdraw fail: Nonexistent account"
    let op := { op with tx := { op.tx with fromAddress := account.address, nonce := account.nonce } }
    u.updateFromApplied env "Withdraw fail: "
      (Withdraw.applyOp env u.tree.state op) (.Withdraw op.tx) (.Withdraw op)
  | .ForcedExit op => do
    let initiatorAccount ← Outcome.okOrElse (u.tree.state.getAccount op.tx.initiatorAccountId)
      "ForcedExit fail: Nonexistent initiator account"
    let op := { op with tx := { op.tx with nonce := initiatorAccount.nonce } }
    u.updateFromApplied env "ForcedExit fail: "
      (ForcedExit.applyOp env u.tree.state op) (.ForcedExit op.tx) (.ForcedExit op)
  | .Close op => do
    let account ← Outcome.okOrElse (u.tree.state.getAccount op.accountId)
      "Close fail: Nonexistent account"
    let op := { op with tx := { op.tx with account := account.address, nonce := account.nonce } }
    u.updateFromApplied env "Close fail: "
      (Close.applyOp u.tree.state op) (.Close op.tx) (.Close op)
  | .FullExit op => u.executePriorityOp env (.FullExit op.priorityOp)
  | .ChangePubKeyOffchain op => do
    let account ← Outcome.okOrElse (u.tree.state.getAccount op.accountId)
      "ChangePubKeyOffChain fail: Nonexistent account"
    let op := { op with tx := { op.tx with account := account.address, nonce := account.nonce } }
    u.updateFromApplied env "ChangePubKeyOffChain fail: "
      (ChangePubKey.applyOp env u.tree.state op) (.ChangePubKey op.tx) (.ChangePubKeyOffchain op)
  | .Noop => .ok u

def executeOperations (ops : List ZkSyncOp) : Outcome OpsBlockUpdate :=
  ops.foldlM (executeOperation env) u

end OpsBlockUpdate

/-! ## Blocks -/

namespace TreeState

variable (env : Env)

def load (currentBlock : BlockNumber) (accounts : AList fun _ : AccountId => Account)
    (currentUnprocessedPriorityOp : UInt64) (feeAccount : AccountId)
    (availableBlockChunkSizes : List Nat) : Outcome TreeState := do
  let state := ZkSyncState.fromAccMap env.hasher accounts currentBlock
  let account ← Outcome.expect (state.getAccount feeAccount) "Cant get fee account from tree state"
  return {
    state
    currentUnprocessedPriorityOp
    lastFeeAccountAddress := account.address
    availableBlockChunkSizes }

/-- The gas limits of a block that was executed already are not important. -/
def updateTreeStatesFromOpsBlock (t : TreeState) (opsBlock : RollupOpsBlock) :
    Outcome ((Block × AccountUpdates) × TreeState) := do
  let lastUnprocessedPriorOp := t.currentUnprocessedPriorityOp
  let u ← OpsBlockUpdate.executeOperations env { tree := t } opsBlock.ops
  let feeAccount ← Outcome.okOrElse (u.tree.state.getAccount opsBlock.feeAccount)
    "Nonexistent account"
  let (feeUpdates, state) ← u.tree.state.collectFee u.fees opsBlock.feeAccount
  let (rootHash, state) ← state.rootHash env.hasher
  let block ← Block.newFromAvailableBlockSizes opsBlock.blockNum rootHash opsBlock.feeAccount u.ops
    (lastUnprocessedPriorOp, u.tree.currentUnprocessedPriorityOp) u.tree.availableBlockChunkSizes 0 0
  let blockNumber ← u32Increment env.overflowChecks state.blockNumber
  return ((block, u.accountsUpdated ++ feeUpdates), { u.tree with
    state := { state with blockNumber }
    lastFeeAccountAddress := feeAccount.address })

/-- A sealed block is read from its public data, and executed again. -/
def restoreBlock (t : TreeState) (block : Block) :
    Outcome ((Block × AccountUpdates) × TreeState) := do
  let publicData ← block.getEthPublicData
  let ops ← getRollupOpsFromData publicData
  t.updateTreeStatesFromOpsBlock env
    { blockNum := block.blockNumber, ops, feeAccount := block.feeAccount }

def restoreBlocks (t : TreeState) (blocks : List Block) : Outcome TreeState :=
  blocks.foldlM (fun t block => do return (← t.restoreBlock env block).2) t

end TreeState

end ZkSync
