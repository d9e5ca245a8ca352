import ZkSync.State.Handler

/-!
# Executing transactions

The public functions of `ZkSyncState` that execute something: a transaction, a
priority operation, a batch, the collection of fees; and
`applyAccountUpdates`, the interpreter of account updates that asserts what
each update says about the account before it. The batch uses it to undo the
transactions that succeeded before the one that failed.
-/

namespace ZkSync

/-- The results of a batch: for each transaction its success or the text of the
error. -/
abbrev BatchResults := List (Except String OpSuccess)

namespace ZkSyncState

/-- `chunks_for_tx`: a transfer to an unknown address takes the chunks of a
`TransferToNew`. -/
def chunksForTx (s : ZkSyncState) (tx : ZkSyncTx) : Outcome Nat :=
  match tx with
  | .Transfer tx => do
    let found ← s.getAccountByAddress tx.toAddress
    return if found.isSome then TransferOp.CHUNKS else TransferToNewOp.CHUNKS
  | tx => return tx.minChunks

def chunksForBatch (s : ZkSyncState) : List SignedZkSyncTx → Outcome Nat
  | [] => return 0
  | tx :: txs => do
    let chunks ← s.chunksForTx tx.tx
    let rest ← s.chunksForBatch txs
    return chunks + rest

/-- Priority operations should not fail: an error is a panic. -/
def executePriorityOp (s : ZkSyncState) (op : ZkSyncPriorityOp) :
    Outcome (OpSuccess × ZkSyncState) :=
  let result := match op with
    | .Deposit op => Deposit.applyTx s op
    | .FullExit op => FullExit.applyTx s op
  match result with
  | .error (.error _) => .error (.panic "Priority operation execution failed")
  | result => result

def executeTx (env : Env) (s : ZkSyncState) (tx : ZkSyncTx) : Outcome (OpSuccess × ZkSyncState) :=
  match tx with
  | .Transfer tx => tx.applyTx env s
  | .Withdraw tx => tx.applyTx env s
  | .Close tx => Close.applyTx s tx
  | .ChangePubKey tx => tx.applyTx env s
  | .ForcedExit tx => tx.applyTx env s

/-! ## The interpreter of updates -/

/-- One round of the loop of `apply_account_updates`. -/
def applyAccountUpdate (s : ZkSyncState) (accountId : AccountId) (update : AccountUpdate) :
    Outcome ZkSyncState :=
  match update with
  | .Create address nonce => do
    let found ← s.getAccountByAddress address
    Outcome.assert (found = none)
      "assertion failed: self.get_account_by_address(&address).is_none()"
    return s.insertAccount accountId { Account.default with address := address, nonce := nonce }
  | .Delete address nonce => do
    let account ← Outcome.expect (s.getAccount accountId) "account to delete must exist"
    Outcome.assert (account.address = address) "assertion failed: (left == right)"
    Outcome.assert (account.nonce = nonce) "assertion failed: (left == right)"
    return s.removeAccount accountId
  | .UpdateBalance oldNonce newNonce (tokenId, oldBalance, newBalance) => do
    let account ← Outcome.expect (s.getAccount accountId) "account to update balance must exist"
    Outcome.assert (account.getBalance tokenId = oldBalance) "assertion failed: (left == right)"
    Outcome.assert (account.nonce = oldNonce) "assertion failed: (left == right)"
    return s.insertAccount accountId { account.setBalance tokenId newBalance with nonce := newNonce }
  | .ChangePubKeyHash oldPubKeyHash newPubKeyHash oldNonce newNonce => do
    let account ← Outcome.expect (s.getAccount accountId) "account to change pubkey must exist"
    Outcome.assert (account.pubKeyHash = oldPubKeyHash) "assertion failed: (left == right)"
    Outcome.assert (account.nonce = oldNonce) "assertion failed: (left == right)"
    return s.insertAccount accountId { account with pubKeyHash := newPubKeyHash, nonce := newNonce }

/-- Applies account updates; assumes that all updates are correct, panics
otherwise. -/
def applyAccountUpdates (s : ZkSyncState) : AccountUpdates → Outcome ZkSyncState
  | [] => .ok s
  | (accountId, update) :: updates => do
    let s ← s.applyAccountUpdate accountId update
    s.applyAccountUpdates updates

/-! ## Batches -/

/-- Undo the successes, given last first. -/
def undo (s : ZkSyncState) : List OpSuccess → Outcome ZkSyncState
  | [] => .ok s
  | success :: successes => do
    let s ← s.applyAccountUpdates (reverseUpdates success.updates)
    s.undo successes

/-- The loop of `execute_txs_batch`. `successes` are those of the transactions
before `id`, `count` is the length of the batch. -/
def executeTxsBatchFrom (env : Env) (count : Nat) :
    Nat → List OpSuccess → ZkSyncState → List SignedZkSyncTx → Outcome (BatchResults × ZkSyncState)
  | _, successes, s, [] => .ok (successes.map .ok, s)
  | id, successes, s, tx :: txs =>
    match s.executeTx env tx.tx with
    | .ok (success, s') => executeTxsBatchFrom env count (id + 1) (successes ++ [success]) s' txs
    | .error (.panic message) => .error (.panic message)
    | .error (.error error) => do
      -- restore the state that was observed before the batch
      let s ← s.undo successes.reverse
      let errorMsg :=
        "Batch execution failed, since tx #" ++ toString (id + 1) ++
          " of batch failed with a reason: " ++ error
      return (List.replicate count (.error errorMsg), s)

def executeTxsBatch (env : Env) (s : ZkSyncState) (txs : List SignedZkSyncTx) :
    Outcome (BatchResults × ZkSyncState) :=
  executeTxsBatchFrom env txs.length 0 [] s txs

/-! ## Fees -/

/-- The loop of `collect_fee`, over the copy of the fee account. -/
def collectFeeLoop (feeAccount : AccountId) :
    List CollectedFee → Account → AccountUpdates → Account × AccountUpdates
  | [], account, updates => (account, updates)
  | fee :: fees, account, updates =>
    if fee.amount = 0 then collectFeeLoop feeAccount fees account updates
    else
      let oldAmount := account.getBalance fee.token
      let nonce := account.nonce
      let account := account.addBalance fee.token fee.amount
      let newAmount := account.getBalance fee.token
      collectFeeLoop feeAccount fees account
        (updates ++ [(feeAccount, .UpdateBalance nonce nonce (fee.token, oldAmount, newAmount))])

def collectFee (s : ZkSyncState) (fees : List CollectedFee) (feeAccount : AccountId) :
    Outcome (AccountUpdates × ZkSyncState) := do
  let account ← Outcome.expect (s.getAccount feeAccount)
    "Fee account should be present in the account tree"
  let (account, updates) := collectFeeLoop feeAccount fees account []
  return (updates, s.insertAccount feeAccount account)

/-! ## Operations without execution -/

/-- `zksync_tx_to_zksync_op`: the operation a transaction would become. -/
def zksyncTxToZksyncOp (env : Env) (s : ZkSyncState) (tx : ZkSyncTx) : Outcome ZkSyncOp :=
  match tx with
  | .Transfer tx => do return (← tx.createOp env s).intoFranklinOp
  | .Withdraw tx => do return .Withdraw (← tx.createOp env s)
  | .ChangePubKey tx => do return .ChangePubKeyOffchain (← tx.createOp env s)
  | .Close _ => Outcome.bail "Close op is disabled"
  | .ForcedExit tx => do return .ForcedExit (← tx.createOp env s)

/-- `priority_op_to_zksync_op`; the source unwraps. -/
def priorityOpToZksyncOp (s : ZkSyncState) (op : ZkSyncPriorityOp) : Outcome ZkSyncOp :=
  let result : Outcome ZkSyncOp := match op with
    | .Deposit op => do return .Deposit (← Deposit.createOp s op)
    | .FullExit op => do return .FullExit (← FullExit.createOp s op)
  match result with
  | .error (.error _) => .error (.panic "called Result::unwrap() on an Err value")
  | result => result

end ZkSyncState

end ZkSync
