import ZkSync.Types.Account

/-!
# Transactions, priority operations and rollup operations

`zksync_types::{tx, priority_ops, operations}`: what users sign, what the
contract's priority queue carries, and what the server executes — the same
requests with the account ids and amounts the state machine filled in. The
texts users sign and the public data are not part of this file; the state
machine reads neither.

`from` and `to` are words of Lean: the fields are `fromAddress` and `toAddress`
in a request, `fromId` and `toId` in an operation.

Signatures are opaque bytes here. What a signature verifies to is a parameter
of the state machine (`ZkSync.State`).
-/

namespace ZkSync

/-! ## Parameters -/

/-- `params::max_account_id`: the last id of the left subtree of depth 24. -/
def maxAccountId : AccountId := 16777215

/-- `params::max_token_id`: the last of the 128 processable tokens. -/
def maxTokenId : TokenId := 127

/-! ## Transactions -/

/-- A packed public key and a packed signature. -/
structure TxSignature where
  pubKey : BitVec 256
  signature : BitVec 512
  deriving DecidableEq

/-- A 65-byte Ethereum signature. -/
abbrev PackedEthSignature := BitVec 520

/-- A transfer, signed by its sender. -/
structure Transfer where
  accountId : AccountId
  fromAddress : Address
  toAddress : Address
  token : TokenId
  amount : Nat
  fee : Nat
  nonce : Nonce
  signature : TxSignature
  deriving DecidableEq

/-- A withdrawal to Ethereum. -/
structure Withdraw where
  accountId : AccountId
  fromAddress : Address
  toAddress : Address
  token : TokenId
  amount : Nat
  fee : Nat
  nonce : Nonce
  signature : TxSignature
  fast : Bool
  deriving DecidableEq

/-- The end of an account, which no handler accepts any more. -/
structure Close where
  account : Address
  nonce : Nonce
  signature : TxSignature
  deriving DecidableEq

/-- Sets the key of an account, with the consent of its owner. -/
structure ChangePubKey where
  accountId : AccountId
  account : Address
  newPkHash : PubKeyHash
  feeToken : TokenId
  fee : Nat
  nonce : Nonce
  signature : TxSignature
  ethSignature : Option PackedEthSignature
  deriving DecidableEq

/-- Empties an account that has no key, at the cost of the initiator. -/
structure ForcedExit where
  initiatorAccountId : AccountId
  target : Address
  token : TokenId
  fee : Nat
  nonce : Nonce
  signature : TxSignature
  deriving DecidableEq

/-- What users send to the server. -/
inductive ZkSyncTx where
  | Transfer (tx : Transfer)
  | Withdraw (tx : Withdraw)
  | Close (tx : Close)
  | ChangePubKey (tx : ChangePubKey)
  | ForcedExit (tx : ForcedExit)
  deriving DecidableEq

/-- `ZkSyncTx::nonce`. -/
def ZkSyncTx.nonce : ZkSyncTx → Nonce
  | .Transfer tx => tx.nonce
  | .Withdraw tx => tx.nonce
  | .Close tx => tx.nonce
  | .ChangePubKey tx => tx.nonce
  | .ForcedExit tx => tx.nonce

/-- The account id a transaction declares as the one that signs it. For a forced
exit this is the initiator. -/
def ZkSyncTx.senderId : ZkSyncTx → Option AccountId
  | .Transfer tx => some tx.accountId
  | .Withdraw tx => some tx.accountId
  | .Close _ => none
  | .ChangePubKey tx => some tx.accountId
  | .ForcedExit tx => some tx.initiatorAccountId

/-- A transaction as the mempool keeps it, with the Ethereum signature and the
message it signs. -/
structure SignedZkSyncTx where
  tx : ZkSyncTx
  ethSignData : Option (List UInt8 × String)
  deriving DecidableEq

/-! ## Priority operations -/

/-- A deposit, as the contract reports it. -/
structure Deposit where
  fromAddress : Address
  token : TokenId
  amount : Nat
  toAddress : Address
  deriving DecidableEq

/-- A full exit, as the contract reports it. -/
structure FullExit where
  accountId : AccountId
  ethAddress : Address
  token : TokenId
  deriving DecidableEq

/-- What users ask the contract for. -/
inductive ZkSyncPriorityOp where
  | Deposit (op : Deposit)
  | FullExit (op : FullExit)
  deriving DecidableEq

/-! ## Rollup operations -/

/-- A deposit that was executed, with the account it went to. -/
structure DepositOp where
  priorityOp : Deposit
  accountId : AccountId
  deriving DecidableEq

/-- A full exit that was executed, without an amount if it was refused. -/
structure FullExitOp where
  priorityOp : FullExit
  withdrawAmount : Option Nat
  deriving DecidableEq

/-- A transfer between two accounts. -/
structure TransferOp where
  tx : Transfer
  fromId : AccountId
  toId : AccountId
  deriving DecidableEq

/-- A transfer that created its receiver. -/
structure TransferToNewOp where
  tx : Transfer
  fromId : AccountId
  toId : AccountId
  deriving DecidableEq

/-- A withdrawal that was executed. -/
structure WithdrawOp where
  tx : Withdraw
  accountId : AccountId
  deriving DecidableEq

/-- An account that was closed. -/
structure CloseOp where
  tx : Close
  accountId : AccountId
  deriving DecidableEq

/-- A key that was changed. -/
structure ChangePubKeyOp where
  tx : ChangePubKey
  accountId : AccountId
  deriving DecidableEq

/-- A forced exit that was executed, with what was taken. -/
structure ForcedExitOp where
  tx : ForcedExit
  targetAccountId : AccountId
  withdrawAmount : Option Nat
  deriving DecidableEq

/-- What a block is made of. -/
inductive ZkSyncOp where
  | Deposit (op : DepositOp)
  | Transfer (op : TransferOp)
  | TransferToNew (op : TransferToNewOp)
  | Withdraw (op : WithdrawOp)
  | Close (op : CloseOp)
  | FullExit (op : FullExitOp)
  | ChangePubKeyOffchain (op : ChangePubKeyOp)
  | ForcedExit (op : ForcedExitOp)
  | Noop
  deriving DecidableEq

/-- `try_get_tx`. -/
def ZkSyncOp.tryGetTx : ZkSyncOp → Option ZkSyncTx
  | .Transfer op => some (.Transfer op.tx)
  | .TransferToNew op => some (.Transfer op.tx)
  | .Withdraw op => some (.Withdraw op.tx)
  | .Close op => some (.Close op.tx)
  | .ChangePubKeyOffchain op => some (.ChangePubKey op.tx)
  | .ForcedExit op => some (.ForcedExit op.tx)
  | _ => none

/-- `try_get_priority_op`. -/
def ZkSyncOp.tryGetPriorityOp : ZkSyncOp → Option ZkSyncPriorityOp
  | .Deposit op => some (.Deposit op.priorityOp)
  | .FullExit op => some (.FullExit op.priorityOp)
  | _ => none

/-! ### Sizes in chunks -/

def DepositOp.CHUNKS : Nat := 6
def TransferOp.CHUNKS : Nat := 2
def TransferToNewOp.CHUNKS : Nat := 6
def WithdrawOp.CHUNKS : Nat := 6
def CloseOp.CHUNKS : Nat := 1
def FullExitOp.CHUNKS : Nat := 6
def ChangePubKeyOp.CHUNKS : Nat := 6
def ForcedExitOp.CHUNKS : Nat := 6
def NoopOp.CHUNKS : Nat := 1

/-- `ZkSyncOp::chunks`: the chunks an executed operation takes in a block. -/
def ZkSyncOp.chunks : ZkSyncOp → Nat
  | .Noop => NoopOp.CHUNKS
  | .Deposit _ => DepositOp.CHUNKS
  | .TransferToNew _ => TransferToNewOp.CHUNKS
  | .Withdraw _ => WithdrawOp.CHUNKS
  | .Close _ => CloseOp.CHUNKS
  | .Transfer _ => TransferOp.CHUNKS
  | .FullExit _ => FullExitOp.CHUNKS
  | .ChangePubKeyOffchain _ => ChangePubKeyOp.CHUNKS
  | .ForcedExit _ => ForcedExitOp.CHUNKS

/-- `ZkSyncTx::min_chunks`: the least a transaction can take. A transfer may
turn out to need more. -/
def ZkSyncTx.minChunks : ZkSyncTx → Nat
  | .Transfer _ => TransferOp.CHUNKS
  | .Withdraw _ => WithdrawOp.CHUNKS
  | .Close _ => CloseOp.CHUNKS
  | .ChangePubKey _ => ChangePubKeyOp.CHUNKS
  | .ForcedExit _ => ForcedExitOp.CHUNKS

/-- Every operation takes room in its block. -/
theorem ZkSyncOp.chunks_pos (op : ZkSyncOp) : 0 < op.chunks := by
  cases op <;> exact Nat.succ_pos _

/-- `ZkSyncPriorityOp::chunks`. -/
def ZkSyncPriorityOp.chunks : ZkSyncPriorityOp → Nat
  | .Deposit _ => DepositOp.CHUNKS
  | .FullExit _ => FullExitOp.CHUNKS

end ZkSync
