import ZkSync.State.State

/-!
# Transaction handlers

`zksync_state::handler`: for every transaction and priority operation,
`createOp` checks the request against the state and fills in account ids and
amounts, `applyOp` executes the filled-in operation, and `applyTx` is the one
after the other. The checks stand in the order of the source, with its error
texts; assertions and `unwrap`s are panics.

A handler returns the new state beside its result. No handler writes before
its last check, so a handler that fails leaves the caller's state as it was.
-/

namespace ZkSync

/-- The result of `apply_op`: the fee, the updates, and the state after. -/
abbrev Applied := (Option CollectedFee × AccountUpdates) × ZkSyncState

/-- `Transfer` and `TransferToNew` are two outcomes of one transaction. -/
inductive TransferOutcome where
  | Transfer (op : TransferOp)
  | TransferToNew (op : TransferToNewOp)
  deriving DecidableEq

/-- The operation that a transfer has become. -/
def TransferOutcome.intoFranklinOp : TransferOutcome → ZkSyncOp
  | .Transfer op => .Transfer op
  | .TransferToNew op => .TransferToNew op

/-! ## Deposit -/

namespace Deposit

def createOp (s : ZkSyncState) (priorityOp : Deposit) : Outcome DepositOp := do
  Outcome.assert (priorityOp.token ≤ maxTokenId)
    "Deposit token is out of range, this should be enforced by contract"
  let found ← s.getAccountByAddress priorityOp.toAddress
  let accountId := match found with
    | some (accountId, _) => accountId
    | none => s.getFreeAccountId
  return { priorityOp := priorityOp, accountId := accountId }

def applyOp (s : ZkSyncState) (op : DepositOp) : Outcome Applied := do
  let (account, created) := match s.getAccount op.accountId with
    | some account => (account, [])
    | none => Account.createAccount op.accountId op.priorityOp.toAddress
  let oldAmount := account.getBalance op.priorityOp.token
  let oldNonce := account.nonce
  let account := account.addBalance op.priorityOp.token op.priorityOp.amount
  let newAmount := account.getBalance op.priorityOp.token
  let updates := created ++ [(op.accountId,
    .UpdateBalance oldNonce oldNonce (op.priorityOp.token, oldAmount, newAmount))]
  return ((none, updates), s.insertAccount op.accountId account)

def applyTx (s : ZkSyncState) (priorityOp : Deposit) : Outcome (OpSuccess × ZkSyncState) := do
  let op ← createOp s priorityOp
  let ((fee, updates), s') ← applyOp s op
  return ({ fee := fee, updates := updates, executedOp := .Deposit op }, s')

end Deposit

/-! ## Full exit -/

namespace FullExit

/-- The authorisation of a full exit is verified on the contract. -/
def createOp (s : ZkSyncState) (priorityOp : FullExit) : Outcome FullExitOp := do
  Outcome.assert (priorityOp.token ≤ maxTokenId)
    "Full exit token is out of range, this should be enforced by contract"
  let accountBalance := ((s.getAccount priorityOp.accountId).filter
    fun account => account.address = priorityOp.ethAddress).map
    fun account => account.getBalance priorityOp.token
  return { priorityOp := priorityOp, withdrawAmount := accountBalance }

def applyOp (s : ZkSyncState) (op : FullExitOp) : Outcome Applied :=
  match op.withdrawAmount with
  | none => return ((none, []), s)
  | some amount => do
    let accountId := op.priorityOp.accountId
    let account ← Outcome.expect (s.getAccount accountId) "Full exit account not found"
    let oldBalance := account.getBalance op.priorityOp.token
    let oldNonce := account.nonce
    let account ← account.subBalance op.priorityOp.token amount
    let newBalance := account.getBalance op.priorityOp.token
    Outcome.assert (newBalance = 0) "Full exit amount is incorrect"
    let newNonce := account.nonce
    let updates := [(accountId,
      .UpdateBalance oldNonce newNonce (op.priorityOp.token, oldBalance, newBalance))]
    return ((none, updates), s.insertAccount accountId account)

def applyTx (s : ZkSyncState) (priorityOp : FullExit) : Outcome (OpSuccess × ZkSyncState) := do
  let op ← createOp s priorityOp
  let ((fee, updates), s') ← applyOp s op
  return ({ fee := fee, updates := updates, executedOp := .FullExit op }, s')

end FullExit

/-! ## Transfer -/

namespace Transfer

def createOp (env : Env) (s : ZkSyncState) (tx : Transfer) : Outcome TransferOutcome := do
  Outcome.ensure (tx.token ≤ maxTokenId) "Token id is not supported"
  Outcome.ensure (tx.toAddress ≠ 0) "Transfer to Account with address 0 is not allowed"
  let found ← s.getAccountByAddress tx.fromAddress
  let (fromId, fromAccount) ← Outcome.okOrElse found "From account does not exist"
  Outcome.ensure (fromAccount.pubKeyHash ≠ 0) "Account is locked"
  Outcome.ensure (env.verifySignature (.Transfer tx) = some fromAccount.pubKeyHash)
    "Transfer signature is incorrect"
  Outcome.ensure (fromId = tx.accountId) "Transfer account id is incorrect"
  let target ← s.getAccountByAddress tx.toAddress
  match target with
  | some (toId, _) => return .Transfer { tx := tx, fromId := fromId, toId := toId }
  | none =>
    return .TransferToNew { tx := tx, fromId := fromId, toId := s.getFreeAccountId }

/-- A transfer from an account to itself: only the fee leaves the account. -/
def applyTransferOpToSelf (env : Env) (s : ZkSyncState) (op : TransferOp) : Outcome Applied := do
  Outcome.ensure (op.fromId ≤ maxAccountId)
    "Transfer to self from account id is bigger than max supported"
  Outcome.ensure (op.fromId = op.toId) "Bug: transfer to self should not be called."
  let account ← Outcome.expect (s.getAccount op.fromId) "called Option::unwrap() on a None value"
  let oldBalance := account.getBalance op.tx.token
  let oldNonce := account.nonce
  Outcome.ensure (op.tx.nonce = oldNonce) "Nonce mismatch"
  Outcome.ensure (op.tx.amount + op.tx.fee ≤ oldBalance) "Not enough balance"
  let account ← account.subBalance op.tx.token op.tx.fee
  let nonce ← account.nonce.increment env.overflowChecks
  let account := { account with nonce := nonce }
  let newBalance := account.getBalance op.tx.token
  let newNonce := account.nonce
  let updates := [(op.fromId,
    .UpdateBalance oldNonce newNonce (op.tx.token, oldBalance, newBalance))]
  return ((some { token := op.tx.token, amount := op.tx.fee }, updates),
    s.insertAccount op.fromId account)

/-- A transfer debits the sender first, then credits the receiver. -/
def applyTransferOp (env : Env) (s : ZkSyncState) (op : TransferOp) : Outcome Applied := do
  Outcome.ensure (op.fromId ≤ maxAccountId)
    "Transfer from account id is bigger than max supported"
  Outcome.ensure (op.toId ≤ maxAccountId) "Transfer to account id is bigger than max supported"
  if op.fromId = op.toId then applyTransferOpToSelf env s op
  else
    let fromAccount ← Outcome.expect (s.getAccount op.fromId)
      "called Option::unwrap() on a None value"
    let toAccount ← Outcome.expect (s.getAccount op.toId)
      "called Option::unwrap() on a None value"
    let fromOldBalance := fromAccount.getBalance op.tx.token
    let fromOldNonce := fromAccount.nonce
    Outcome.ensure (op.tx.nonce = fromOldNonce) "Nonce mismatch"
    Outcome.ensure (op.tx.amount + op.tx.fee ≤ fromOldBalance) "Not enough balance"
    let fromAccount ← fromAccount.subBalance op.tx.token (op.tx.amount + op.tx.fee)
    let nonce ← fromAccount.nonce.increment env.overflowChecks
    let fromAccount := { fromAccount with nonce := nonce }
    let fromNewBalance := fromAccount.getBalance op.tx.token
    let fromNewNonce := fromAccount.nonce
    let toOldBalance := toAccount.getBalance op.tx.token
    let toAccountNonce := toAccount.nonce
    let toAccount := toAccount.addBalance op.tx.token op.tx.amount
    let toNewBalance := toAccount.getBalance op.tx.token
    let updates := [
      (op.fromId,
        .UpdateBalance fromOldNonce fromNewNonce (op.tx.token, fromOldBalance, fromNewBalance)),
      (op.toId,
        .UpdateBalance toAccountNonce toAccountNonce (op.tx.token, toOldBalance, toNewBalance))]
    return ((some { token := op.tx.token, amount := op.tx.fee }, updates),
      (s.insertAccount op.fromId fromAccount).insertAccount op.toId toAccount)

/-- The receiver is created with the amount. -/
def applyTransferToNewOp (env : Env) (s : ZkSyncState) (op : TransferToNewOp) :
    Outcome Applied := do
  Outcome.ensure (op.fromId ≤ maxAccountId)
    "TransferToNew from account id is bigger than max supported"
  Outcome.ensure (op.toId ≤ maxAccountId)
    "TransferToNew to account id is bigger than max supported"
  Outcome.assert (s.getAccount op.toId = none) "Transfer to new account exists"
  let (toAccount, created) := Account.createAccount op.toId op.tx.toAddress
  let fromAccount ← Outcome.expect (s.getAccount op.fromId)
    "called Option::unwrap() on a None value"
  let fromOldBalance := fromAccount.getBalance op.tx.token
  let fromOldNonce := fromAccount.nonce
  Outcome.ensure (op.tx.nonce = fromOldNonce) "Nonce mismatch"
  Outcome.ensure (op.tx.amount + op.tx.fee ≤ fromOldBalance) "Not enough balance"
  let fromAccount ← fromAccount.subBalance op.tx.token (op.tx.amount + op.tx.fee)
  let nonce ← fromAccount.nonce.increment env.overflowChecks
  let fromAccount := { fromAccount with nonce := nonce }
  let fromNewBalance := fromAccount.getBalance op.tx.token
  let fromNewNonce := fromAccount.nonce
  let toOldBalance := toAccount.getBalance op.tx.token
  let toAccountNonce := toAccount.nonce
  let toAccount := toAccount.addBalance op.tx.token op.tx.amount
  let toNewBalance := toAccount.getBalance op.tx.token
  let updates := created ++ [
    (op.fromId,
      .UpdateBalance fromOldNonce fromNewNonce (op.tx.token, fromOldBalance, fromNewBalance)),
    (op.toId,
      .UpdateBalance toAccountNonce toAccountNonce (op.tx.token, toOldBalance, toNewBalance))]
  return ((some { token := op.tx.token, amount := op.tx.fee }, updates),
    (s.insertAccount op.fromId fromAccount).insertAccount op.toId toAccount)

def applyOp (env : Env) (s : ZkSyncState) : TransferOutcome → Outcome Applied
  | .Transfer op => applyTransferOp env s op
  | .TransferToNew op => applyTransferToNewOp env s op

def applyTx (env : Env) (s : ZkSyncState) (tx : Transfer) : Outcome (OpSuccess × ZkSyncState) := do
  let op ← createOp env s tx
  let ((fee, updates), s') ← applyOp env s op
  return ({ fee := fee, updates := updates, executedOp := op.intoFranklinOp }, s')

end Transfer

/-! ## Withdraw -/

namespace Withdraw

def createOp (env : Env) (s : ZkSyncState) (tx : Withdraw) : Outcome WithdrawOp := do
  Outcome.ensure (tx.token ≤ maxTokenId) "Token id is not supported"
  let found ← s.getAccountByAddress tx.fromAddress
  let (accountId, account) ← Outcome.okOrElse found "Account does not exist"
  Outcome.ensure (account.pubKeyHash ≠ 0) "Account is locked"
  Outcome.ensure (env.verifySignature (.Withdraw tx) = some account.pubKeyHash)
    "withdraw signature is incorrect"
  Outcome.ensure (accountId = tx.accountId) "Withdraw account id is incorrect"
  return { tx := tx, accountId := accountId }

def applyOp (env : Env) (s : ZkSyncState) (op : WithdrawOp) : Outcome Applied := do
  Outcome.ensure (op.accountId ≤ maxAccountId) "Withdraw account id is bigger than max supported"
  let fromAccount ← Outcome.expect (s.getAccount op.accountId)
    "called Option::unwrap() on a None value"
  let fromOldBalance := fromAccount.getBalance op.tx.token
  let fromOldNonce := fromAccount.nonce
  Outcome.ensure (op.tx.nonce = fromOldNonce) "Nonce mismatch"
  Outcome.ensure (op.tx.amount + op.tx.fee ≤ fromOldBalance) "Not enough balance"
  let fromAccount ← fromAccount.subBalance op.tx.token (op.tx.amount + op.tx.fee)
  let nonce ← fromAccount.nonce.increment env.overflowChecks
  let fromAccount := { fromAccount with nonce := nonce }
  let fromNewBalance := fromAccount.getBalance op.tx.token
  let fromNewNonce := fromAccount.nonce
  let updates := [(op.accountId,
    .UpdateBalance fromOldNonce fromNewNonce (op.tx.token, fromOldBalance, fromNewBalance))]
  return ((some { token := op.tx.token, amount := op.tx.fee }, updates),
    s.insertAccount op.accountId fromAccount)

def applyTx (env : Env) (s : ZkSyncState) (tx : Withdraw) : Outcome (OpSuccess × ZkSyncState) := do
  let op ← createOp env s tx
  let ((fee, updates), s') ← applyOp env s op
  return ({ fee := fee, updates := updates, executedOp := .Withdraw op }, s')

end Withdraw

/-! ## Change of the public key -/

namespace ChangePubKey

def createOp (env : Env) (s : ZkSyncState) (tx : ChangePubKey) : Outcome ChangePubKeyOp := do
  let found ← s.getAccountByAddress tx.account
  let (accountId, account) ← Outcome.okOrElse found "Account does not exist"
  Outcome.ensure (tx.ethSignature = none ∨ env.verifyEthSignature tx = some account.address)
    "ChangePubKey Ethereum signature is incorrect"
  Outcome.ensure (env.verifySignature (.ChangePubKey tx) = some tx.newPkHash)
    "ChangePubKey zkSync signature is incorrect"
  Outcome.ensure (accountId = tx.accountId) "ChangePubKey account id is incorrect"
  Outcome.ensure (accountId ≤ maxAccountId)
    "ChangePubKey account id is bigger than max supported"
  return { tx := tx, accountId := accountId }

def applyOp (env : Env) (s : ZkSyncState) (op : ChangePubKeyOp) : Outcome Applied := do
  let account ← Outcome.expect (s.getAccount op.accountId)
    "called Option::unwrap() on a None value"
  let oldBalance := account.getBalance op.tx.feeToken
  let oldPubKeyHash := account.pubKeyHash
  let oldNonce := account.nonce
  Outcome.ensure (op.tx.nonce = account.nonce) "Nonce mismatch"
  let nonce ← account.nonce.increment env.overflowChecks
  let account := { account with nonce := nonce, pubKeyHash := op.tx.newPkHash }
  Outcome.ensure (op.tx.fee ≤ oldBalance) "Not enough balance"
  let account ← account.subBalance op.tx.feeToken op.tx.fee
  let newPubKeyHash := account.pubKeyHash
  let newNonce := account.nonce
  let newBalance := account.getBalance op.tx.feeToken
  let updates := [
    (op.accountId, .ChangePubKeyHash oldPubKeyHash newPubKeyHash oldNonce newNonce),
    (op.accountId, .UpdateBalance newNonce newNonce (op.tx.feeToken, oldBalance, newBalance))]
  return ((some { token := op.tx.feeToken, amount := op.tx.fee }, updates),
    s.insertAccount op.accountId account)

def applyTx (env : Env) (s : ZkSyncState) (tx : ChangePubKey) :
    Outcome (OpSuccess × ZkSyncState) := do
  let op ← createOp env s tx
  let ((fee, updates), s') ← applyOp env s op
  return ({ fee := fee, updates := updates, executedOp := .ChangePubKeyOffchain op }, s')

end ChangePubKey

/-! ## Forced exit -/

namespace ForcedExit

/-- Unlike the other transactions this one does not ask whether the signing
account is locked. -/
def createOp (env : Env) (s : ZkSyncState) (tx : ForcedExit) : Outcome ForcedExitOp := do
  let initiatorAccount ← Outcome.okOrElse (s.getAccount tx.initiatorAccountId)
    "Initiator account does not exist"
  Outcome.ensure (env.verifySignature (.ForcedExit tx) = some initiatorAccount.pubKeyHash)
    "ForcedExit signature is incorrect"
  Outcome.ensure (tx.token ≤ maxTokenId) "Token id is not supported"
  let found ← s.getAccountByAddress tx.target
  let (targetAccountId, account) ← Outcome.okOrElse found "Target account does not exist"
  Outcome.ensure (account.pubKeyHash = 0)
    "Target account is not locked; forced exit is forbidden"
  let accountBalance := ((s.getAccount targetAccountId).filter
    fun account => account.address = tx.target).map fun account => account.getBalance tx.token
  return { tx := tx, targetAccountId := targetAccountId, withdrawAmount := accountBalance }

/-- Both accounts are read before either is written; the target is written
last. -/
def applyOp (env : Env) (s : ZkSyncState) (op : ForcedExitOp) : Outcome Applied := do
  Outcome.ensure (op.tx.initiatorAccountId ≤ maxAccountId) "Incorrect initiator account ID"
  let initiatorAccountId := op.tx.initiatorAccountId
  let targetAccountId := op.targetAccountId
  let initiatorAccount ← Outcome.expect (s.getAccount initiatorAccountId)
    "called Option::unwrap() on a None value"
  let targetAccount ← Outcome.expect (s.getAccount targetAccountId)
    "called Option::unwrap() on a None value"
  let amount := op.withdrawAmount.getD 0
  let initiatorOldBalance := initiatorAccount.getBalance op.tx.token
  let initiatorOldNonce := initiatorAccount.nonce
  Outcome.ensure (op.tx.nonce = initiatorOldNonce) "Nonce mismatch"
  Outcome.ensure (op.tx.fee ≤ initiatorOldBalance)
    "Initiator account: Not enough balance to cover fees"
  let targetOldBalance := targetAccount.getBalance op.tx.token
  Outcome.ensure (targetOldBalance = amount)
    "Target account: Target account balance is not equal to the withdrawal amount"
  let initiatorAccount ← initiatorAccount.subBalance op.tx.token op.tx.fee
  let nonce ← initiatorAccount.nonce.increment env.overflowChecks
  let initiatorAccount := { initiatorAccount with nonce := nonce }
  let targetAccount ← targetAccount.subBalance op.tx.token amount
  let initiatorNewBalance := initiatorAccount.getBalance op.tx.token
  let initiatorNewNonce := initiatorAccount.nonce
  let targetNewBalance := targetAccount.getBalance op.tx.token
  let targetNonce := targetAccount.nonce
  let updates := [
    (initiatorAccountId, .UpdateBalance initiatorOldNonce initiatorNewNonce
      (op.tx.token, initiatorOldBalance, initiatorNewBalance)),
    (targetAccountId, .UpdateBalance targetNonce targetNonce
      (op.tx.token, targetOldBalance, targetNewBalance))]
  return ((some { token := op.tx.token, amount := op.tx.fee }, updates),
    (s.insertAccount initiatorAccountId initiatorAccount).insertAccount targetAccountId
      targetAccount)

def applyTx (env : Env) (s : ZkSyncState) (tx : ForcedExit) :
    Outcome (OpSuccess × ZkSyncState) := do
  let op ← createOp env s tx
  let ((fee, updates), s') ← applyOp env s op
  return ({ fee := fee, updates := updates, executedOp := .ForcedExit op }, s')

end ForcedExit

/-! ## Close -/

namespace Close

/-- Closing accounts is disabled. -/
def applyTx (_ : ZkSyncState) (_ : Close) : Outcome (OpSuccess × ZkSyncState) :=
  Outcome.bail "Account closing is disabled"

end Close

end ZkSync
