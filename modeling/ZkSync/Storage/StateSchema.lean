import ZkSync.Core.StateKeeper
import ZkSync.Lib.NumberedLog
import ZkSync.Lib.Table

/-!
# The state schema

`zksync_storage::chain`: how account updates are stored and read back.

Saving state is done in two steps. When a block is committed, its updates go
into three tables, one for each kind of update (`commitStateUpdate`). Once the
block is verified, these are applied to the snapshot in the tables of accounts
and balances (`applyStateUpdate`). The committed state is the snapshot plus the
stored updates behind it (`loadCommittedState`); which block this is the state
of is read off the updates (`loadStateDiff`).

A query that violates a primary or a foreign key fails, which is `none` here;
every caller of such a query panics. The columns are wide enough for what is
written to them, so they have the types of the values; block numbers are
natural numbers, as `i64` holds every `u32`. An order id is the place of an
update in its block: it is stored as `i32`, which no block comes near. The rows
of a table are listed in the order of insertion, which nothing depends on.
Left out are the tables and columns that nothing here reads: the executed
operations, the header of the pending block, proofs, tokens, withdrawals.
-/

namespace ZkSync

/-! ## Rows -/

structure StorageAccount where
  id : AccountId
  lastBlock : Nat
  nonce : Nonce
  address : Address
  pubkeyHash : PubKeyHash
  deriving DecidableEq

structure StorageAccountCreation where
  accountId : AccountId
  isCreate : Bool
  blockNumber : Nat
  address : Address
  nonce : Nonce
  updateOrderId : Nat
  deriving DecidableEq

structure StorageAccountUpdate where
  accountId : AccountId
  blockNumber : Nat
  coinId : TokenId
  oldBalance : Nat
  newBalance : Nat
  oldNonce : Nonce
  newNonce : Nonce
  updateOrderId : Nat
  deriving DecidableEq

structure StorageAccountPubkeyUpdate where
  updateOrderId : Nat
  accountId : AccountId
  blockNumber : Nat
  oldPubkeyHash : PubKeyHash
  newPubkeyHash : PubKeyHash
  oldNonce : Nonce
  newNonce : Nonce
  deriving DecidableEq

structure StorageBalance where
  accountId : AccountId
  coinId : TokenId
  balance : Nat
  deriving DecidableEq

structure StorageBlock where
  number : Nat
  rootHash : Fr
  deriving DecidableEq

inductive ActionType where
  | COMMIT
  | VERIFY
  deriving DecidableEq

structure StoredOperation where
  blockNumber : Nat
  actionType : ActionType
  deriving DecidableEq

/-! ## Differences of accounts -/

/-- `StorageAccountDiff` combines all the possible changes that can be applied
to account. -/
inductive StorageAccountDiff where
  | BalanceUpdate (update : StorageAccountUpdate)
  | Create (create : StorageAccountCreation)
  | Delete (create : StorageAccountCreation)
  | ChangePubKey (update : StorageAccountPubkeyUpdate)
  deriving DecidableEq

namespace StorageAccountDiff

def fromCreation (create : StorageAccountCreation) : StorageAccountDiff :=
  if create.isCreate then .Create create else .Delete create

def into : StorageAccountDiff → AccountId × AccountUpdate
  | .BalanceUpdate upd =>
    (upd.accountId, .UpdateBalance upd.oldNonce upd.newNonce
      (upd.coinId, upd.oldBalance, upd.newBalance))
  | .Create upd => (upd.accountId, .Create upd.address upd.nonce)
  | .Delete upd => (upd.accountId, .Delete upd.address upd.nonce)
  | .ChangePubKey upd =>
    (upd.accountId, .ChangePubKeyHash upd.oldPubkeyHash upd.newPubkeyHash upd.oldNonce upd.newNonce)

def updateOrderId : StorageAccountDiff → Nat
  | .BalanceUpdate upd => upd.updateOrderId
  | .Create upd => upd.updateOrderId
  | .Delete upd => upd.updateOrderId
  | .ChangePubKey upd => upd.updateOrderId

def blockNumber : StorageAccountDiff → Nat
  | .BalanceUpdate upd => upd.blockNumber
  | .Create upd => upd.blockNumber
  | .Delete upd => upd.blockNumber
  | .ChangePubKey upd => upd.blockNumber

/-- Compares updates by block number, then by the number within the block. -/
def cmpOrder (self other : StorageAccountDiff) : Ordering :=
  (compare self.blockNumber other.blockNumber).then
    (compare self.updateOrderId other.updateOrderId)

end StorageAccountDiff

/-! ## The database -/

/-- The tables. Of a cached account tree only the block is kept: the inner nodes
in it are hashes of the accounts of that block. -/
structure Db where
  accountBalanceUpdates : List StorageAccountUpdate
  accountCreates : Table StorageAccountCreation fun row => (row.accountId, row.blockNumber)
  accountPubkeyUpdates : List StorageAccountPubkeyUpdate
  accounts : Table StorageAccount fun row => row.id
  balances : Table StorageBalance fun row => (row.accountId, row.coinId)
  blocks : Table StorageBlock fun row => row.number
  operations : List StoredOperation
  accountTreeCache : Table Nat fun row => row

namespace Db

def empty : Db where
  accountBalanceUpdates := []
  accountCreates := ∅
  accountPubkeyUpdates := []
  accounts := ∅
  balances := ∅
  blocks := ∅
  operations := []
  accountTreeCache := ∅

/-- The rows of the three tables of updates that belong to the given blocks, in
the order in which they are collected. -/
def accountDiff (db : Db) (p : Nat → Bool) : List StorageAccountDiff :=
  (db.accountBalanceUpdates.filter fun row => p row.blockNumber).map .BalanceUpdate ++
  (db.accountCreates.rows.filter fun row => p row.blockNumber).map .fromCreation ++
  (db.accountPubkeyUpdates.filter fun row => p row.blockNumber).map .ChangePubKey

/-- `sort_by(StorageAccountDiff::cmp_order)`. -/
def sortByOrder (accountDiff : List StorageAccountDiff) : List StorageAccountDiff :=
  accountDiff.mergeSort fun diff diff' => (diff.cmpOrder diff').isLE

/-! ### Committing updates -/

/-- One update of `commit_state_update`. -/
def insertUpdate (db : Db) (blockNumber : BlockNumber) (updateOrderId : Nat) :
    AccountId × AccountUpdate → Option Db
  | (id, .Create address nonce) => do
    let accountCreates ← db.accountCreates.insert
      { accountId := id, isCreate := true, blockNumber := blockNumber.toNat, address := address,
        nonce := nonce, updateOrderId := updateOrderId }
    return { db with accountCreates := accountCreates }
  | (id, .Delete address nonce) => do
    let accountCreates ← db.accountCreates.insert
      { accountId := id, isCreate := false, blockNumber := blockNumber.toNat, address := address,
        nonce := nonce, updateOrderId := updateOrderId }
    return { db with accountCreates := accountCreates }
  | (id, .UpdateBalance oldNonce newNonce (token, oldBalance, newBalance)) =>
    some { db with
      accountBalanceUpdates := db.accountBalanceUpdates ++
        [{ accountId := id, blockNumber := blockNumber.toNat, coinId := token,
           oldBalance := oldBalance, newBalance := newBalance, oldNonce := oldNonce,
           newNonce := newNonce, updateOrderId := updateOrderId }] }
  | (id, .ChangePubKeyHash oldPubKeyHash newPubKeyHash oldNonce newNonce) =>
    some { db with
      accountPubkeyUpdates := db.accountPubkeyUpdates ++
        [{ updateOrderId := updateOrderId, accountId := id, blockNumber := blockNumber.toNat,
           oldPubkeyHash := oldPubKeyHash, newPubkeyHash := newPubKeyHash,
           oldNonce := oldNonce, newNonce := newNonce }] }

/-- Stores the list of updates to the account map in the database. At this step,
the changes are not verified yet, and thus are not applied. -/
def commitStateUpdate (db : Db) (blockNumber : BlockNumber) (accountsUpdated : AccountUpdates)
    (firstUpdateOrderId : Nat) : Option Db :=
  (accountsUpdated.zipIdx firstUpdateOrderId).foldlM
    (fun db update => db.insertUpdate blockNumber update.2 update.1) db

/-! ### Applying updates -/

/-- One update of `apply_state_update`. A balance belongs to an account, and goes with it. -/
def applyDiff (db : Db) : StorageAccountDiff → Option Db
  | .BalanceUpdate upd =>
    if (db.accounts.find upd.accountId).isNone then none
    else some { db with
      balances := db.balances.upsert
        { accountId := upd.accountId, coinId := upd.coinId, balance := upd.newBalance }
      accounts := db.accounts.modify upd.accountId fun row =>
        { row with lastBlock := upd.blockNumber, nonce := upd.newNonce } }
  | .Create upd => do
    let accounts ← db.accounts.insert
      { id := upd.accountId, lastBlock := upd.blockNumber, nonce := upd.nonce,
        address := upd.address, pubkeyHash := 0 }
    return { db with accounts := accounts }
  | .Delete upd =>
    some { db with
      accounts := db.accounts.retain fun row => row.id ≠ upd.accountId
      balances := db.balances.retain fun row => row.accountId ≠ upd.accountId }
  | .ChangePubKey upd =>
    some { db with
      accounts := db.accounts.modify upd.accountId fun row =>
        { row with lastBlock := upd.blockNumber, nonce := upd.newNonce,
                   pubkeyHash := upd.newPubkeyHash } }

/-- Applies the previously stored list of account changes to the stored state. -/
def applyStateUpdate (db : Db) (blockNumber : BlockNumber) : Option Db :=
  (sortByOrder (db.accountDiff fun number => number = blockNumber.toNat)).foldlM applyDiff db

/-! ### Loading -/

/-- `restore_account`. -/
def restoreAccount (storedAccount : StorageAccount) (storedBalances : List StorageBalance) :
    AccountId × Account :=
  let account := storedBalances.foldl (fun account b => account.setBalance b.coinId b.balance)
    Account.default
  (storedAccount.id,
    { account with
      nonce := storedAccount.nonce
      address := storedAccount.address
      pubKeyHash := storedAccount.pubkeyHash })

/-- `OperationsSchema::get_last_block_by_action`. -/
def getLastBlockByAction (db : Db) (actionType : ActionType) : BlockNumber :=
  UInt32.ofNat (((db.operations.filter fun op => op.actionType = actionType).map
    StoredOperation.blockNumber).max?.getD 0)

def getLastVerifiedBlock (db : Db) : BlockNumber := db.getLastBlockByAction .VERIFY

/-- The accounts of the snapshot, each with its balances. The source asks for
the balances of 2^15 accounts at a time and groups them by account. -/
def storedAccounts (db : Db) : AccountMap :=
  Table.collect
    (fun row => (restoreAccount row (db.balances.rows.filter fun b => b.accountId = row.id)).1)
    (fun row => (restoreAccount row (db.balances.rows.filter fun b => b.accountId = row.id)).2)
    db.accounts.rows

/-- Loads the verified account map state along with a block number to which
this state applies. -/
def loadVerifiedState (db : Db) : BlockNumber × AccountMap :=
  (db.getLastVerifiedBlock, db.storedAccounts)

/-- Returns the list of updates, and the block number such that if we apply
these updates to the state of the block `fromBlock`, we will obtain state of the
block with the returned number. -/
def loadStateDiff (db : Db) (fromBlock : BlockNumber) (toBlock : Option BlockNumber) :
    Option (BlockNumber × AccountUpdates) :=
  let toBlockResolved := match toBlock with
    | some toBlock => toBlock
    | none => (((db.blocks.rows.map StorageBlock.number).max?).map UInt32.ofNat).getD 0
  let timeForward := decide (fromBlock ≤ toBlockResolved)
  let startBlock := min fromBlock toBlockResolved
  let endBlock := max fromBlock toBlockResolved
  let accountDiff := db.accountDiff fun number =>
    decide (startBlock.toNat < number ∧ number ≤ endBlock.toNat)
  let lastBlock := ((accountDiff.map StorageAccountDiff.blockNumber).max?).getD 0
  let accountUpdates := (sortByOrder accountDiff).map StorageAccountDiff.into
  let accountUpdates := if timeForward then accountUpdates else reverseUpdates accountUpdates
  let blockAfterUpdates := if timeForward then UInt32.ofNat lastBlock else startBlock
  if accountUpdates ≠ [] then some (blockAfterUpdates, accountUpdates) else none

/-- Loads the committed (not necessarily verified) account map state along with
a block number to which this state applies. -/
def loadCommittedState (db : Db) (block : Option BlockNumber) : BlockNumber × AccountMap :=
  let (verifBlock, accounts) := db.loadVerifiedState
  match db.loadStateDiff verifBlock block with
  | some (block, stateDiff) => (block, applyUpdates accounts stateDiff)
  | none => (verifBlock, accounts)

/-- Without a difference, the committed state is the verified one. -/
theorem loadCommittedState_of_none {db : Db} {block : Option BlockNumber} {verifBlock : BlockNumber}
    {accounts : AccountMap} (hverified : db.loadVerifiedState = (verifBlock, accounts))
    (hdiff : db.loadStateDiff verifBlock block = none) :
    db.loadCommittedState block = (verifBlock, accounts) := by
  unfold loadCommittedState
  rw [hverified]
  dsimp only
  rw [hdiff]

/-! ### The committer -/

/-- `save_block`. -/
def saveBlock (db : Db) (block : Block) : Option Db := do
  let blocks ← db.blocks.insert
    { number := block.blockNumber.toNat, rootHash := block.newRootHash }
  return { db with blocks := blocks }

def storeOperation (db : Db) (blockNumber : BlockNumber) (actionType : ActionType) : Db :=
  { db with operations := db.operations ++ [⟨blockNumber.toNat, actionType⟩] }

/-- `execute_operation` of a commit. -/
def executeCommit (db : Db) (block : Block) : Option Db := do
  let db ← db.saveBlock block
  return db.storeOperation block.blockNumber .COMMIT

/-- `execute_operation` of a verify. -/
def executeVerify (db : Db) (blockNumber : BlockNumber) : Option Db := do
  let db ← db.applyStateUpdate blockNumber
  return db.storeOperation blockNumber .VERIFY

/-- `commit_block` of the committer. -/
def commitBlock (db : Db) (request : BlockCommitRequest) (appliedUpdates : AppliedUpdatesRequest) :
    Option Db := do
  let db ← db.commitStateUpdate request.block.blockNumber appliedUpdates.accountUpdates
    appliedUpdates.firstUpdateOrderId
  db.executeCommit request.block

/-- `save_pending_block` of the committer. -/
def savePendingBlock (db : Db) (pendingBlock : SendablePendingBlock)
    (appliedUpdates : AppliedUpdatesRequest) : Option Db :=
  db.commitStateUpdate pendingBlock.number appliedUpdates.accountUpdates
    appliedUpdates.firstUpdateOrderId

/-- `load_committed_block`: the block of a stored commit. -/
def loadCommittedBlock (db : Db) (blockNumber : BlockNumber) : Option StorageBlock :=
  if db.operations.any fun op => op = ⟨blockNumber.toNat, .COMMIT⟩ then
    db.blocks.find blockNumber.toNat
  else none

/-- One round of `poll_for_new_proofs_task` that finds a proof. -/
def verifyNextBlock (db : Db) : Option Db := do
  let blockNumber := db.getLastVerifiedBlock + 1
  let _ ← db.loadCommittedBlock blockNumber
  db.executeVerify blockNumber

/-- `create_genesis_block`. -/
def createGenesisBlock (db : Db) (feeAccountAddress : Address) : Option Db := do
  let (lastCommitted, accounts) := db.loadCommittedState none
  guard (lastCommitted = 0 ∧ accounts = ∅)
  let feeAccount := { Account.default with address := feeAccountAddress }
  let db ← db.commitStateUpdate 0 [(0, .Create feeAccountAddress feeAccount.nonce)] 0
  db.applyStateUpdate 0

end Db

end ZkSync
