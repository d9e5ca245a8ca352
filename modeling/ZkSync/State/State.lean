import Mathlib.Data.FinEnum
import ZkSync.Types.AccountLeaf
import ZkSync.Types.Tx

/-!
# The state of the rollup

`zksync_state::state`: the accounts in their Merkle tree, the index from
addresses to account ids, and the block number; with the functions of
`ZkSyncState` that read and write accounts.

`AccountTree` is a tree of the account depth that carries its
well-formedness: `insert` and `remove` on it are total, because every `u32` is
an index of the tree (`SparseMerkleTree.insert_ok`). `remove_account` is the
source's: it takes the address out of the index, and the tree writes a
*default leaf*, so the id stays occupied in the item table.

`Env` is what the state machine takes from outside: the hasher, the two
signature checks, and whether the build checks arithmetic.
-/

namespace ZkSync

/-- What the state machine takes from outside. -/
structure Env where
  hasher : Hasher Fr
  /-- Debug builds panic where `u32` arithmetic overflows, release builds wrap. -/
  overflowChecks : Bool
  /-- The hash of the key that signed the transaction, if the signature is valid. -/
  verifySignature : ZkSyncTx → Option PubKeyHash
  /-- The Ethereum address that signed the key change, if the signature is valid. -/
  verifyEthSignature : ChangePubKey → Option Address

/-! ## The account tree -/

/-- The tree of the server, whose depth never changes. -/
structure AccountTree where
  tree : SparseMerkleTree Account Fr
  ok : tree.TreeOk
  depth : tree.treeDepth = accountTreeDepth

namespace AccountTree

/-- Every id has its leaf. -/
theorem id_lt_capacity (t : AccountTree) (id : AccountId) : id.toNat < t.tree.capacity := by
  rw [t.ok.capacity_eq, t.depth]
  exact id.toNat_lt

/-- So inserting never panics. -/
theorem insert_exists (t : AccountTree) (id : AccountId) (account : Account) :
    ∃ t', t.tree.insert id.toNat account = .ok t' := by
  obtain ⟨t', h, -⟩ := SparseMerkleTree.insert_ok t.ok (t.id_lt_capacity id) account
  exact ⟨t', h⟩

def new (H : Hasher Fr) : AccountTree where
  tree := SparseMerkleTree.new (accountParams H) accountTreeDepth (by decide)
  ok := SparseMerkleTree.treeOk_new _ _ _ (by decide)
  depth := rfl

def get (t : AccountTree) (id : AccountId) : Option Account := t.tree.get id.toNat

/-- `SparseMerkleTree::insert`; no id is out of range. -/
def insert (t : AccountTree) (id : AccountId) (account : Account) : AccountTree :=
  match h : t.tree.insert id.toNat account with
  | .ok tree =>
    ⟨tree, (SparseMerkleTree.insert_eq_ok t.ok h).1,
      by rw [(SparseMerkleTree.insert_eq_ok t.ok h).2.2, t.depth]⟩
  | .error _ =>
    absurd (insert_exists t id account) (by
      rintro ⟨t', h'⟩
      rw [h] at h'
      cases h')

theorem insert_tree (t : AccountTree) (id : AccountId) (account : Account) :
    t.tree.insert id.toNat account = .ok (t.insert id account).tree := by
  unfold insert
  split
  next tree h => exact h
  next e h =>
    obtain ⟨t', h'⟩ := insert_exists t id account
    rw [h] at h'
    cases h'

/-- `SparseMerkleTree::remove`: the default account takes the place of the
removed one. -/
def remove (t : AccountTree) (id : AccountId) : AccountTree := t.insert id Account.default

@[simp] theorem items_insert (t : AccountTree) (id : AccountId) (account : Account) :
    (t.insert id account).tree.items = t.tree.items.insert id.toNat account :=
  (SparseMerkleTree.insert_eq_ok t.ok (t.insert_tree id account)).2.1

theorem get_insert (t : AccountTree) (id : AccountId) (account : Account) :
    (t.insert id account).get = Function.update t.get id (some account) := by
  funext id'
  unfold get SparseMerkleTree.get
  rw [items_insert, Finmap.lookup_insert_if, Function.update_apply]
  simp only [UInt32.toNat_inj]

/-- `SparseMerkleTree::root_hash`, with the tree as its cache leaves it. -/
def rootHash (H : Hasher Fr) (t : AccountTree) : Outcome (Fr × AccountTree) :=
  match h : SparseMerkleTree.rootHash (accountParams H) t.tree with
  | .ok (hash, tree) =>
    .ok (hash, ⟨tree, SparseMerkleTree.rootHash_treeOk t.ok h,
      by rw [SparseMerkleTree.rootHash_frame h]; exact t.depth⟩)
  | .error e => .error e

end AccountTree

/-! ## The state -/

/-- The state: accounts in their tree, and the index from addresses to ids. -/
structure ZkSyncState where
  balanceTree : AccountTree
  accountIdByAddress : Finmap fun _ : Address => AccountId
  blockNumber : BlockNumber

/-- A fee, which the block will pay out at its end. -/
structure CollectedFee where
  token : TokenId
  amount : Nat
  deriving DecidableEq

/-- What a successful operation reports. -/
structure OpSuccess where
  fee : Option CollectedFee
  updates : AccountUpdates
  executedOp : ZkSyncOp
  deriving DecidableEq

namespace ZkSyncState

def empty (H : Hasher Fr) : ZkSyncState where
  balanceTree := AccountTree.new H
  accountIdByAddress := ∅
  blockNumber := 0

def getAccount (s : ZkSyncState) (accountId : AccountId) : Option Account :=
  s.balanceTree.get accountId

/-- The entries of the item table, in no order. -/
def getAccounts (s : ZkSyncState) : Multiset (AccountId × Account) :=
  s.balanceTree.tree.items.entries.map fun item => (UInt32.ofNat item.1, item.2)

/-- The root hash. Hashing fills the cache of the tree, so the state comes back
with it. -/
def rootHash (H : Hasher Fr) (s : ZkSyncState) : Outcome (Fr × ZkSyncState) := do
  let (hash, balanceTree) ← s.balanceTree.rootHash H
  return (hash, { s with balanceTree := balanceTree })

/-- The account behind an address; an address in the index without an account
is a panic. -/
def getAccountByAddress (s : ZkSyncState) (address : Address) :
    Outcome (Option (AccountId × Account)) :=
  match s.accountIdByAddress.lookup address with
  | none => .ok none
  | some accountId => do
    let account ← Outcome.expect (s.getAccount accountId) "Failed to get account by cached pubkey"
    return some (accountId, account)

/-- The number of items, as `u32`. -/
def getFreeAccountId (s : ZkSyncState) : AccountId :=
  UInt32.ofNat s.balanceTree.tree.items.size

/-- `insert_account`: the tree and the index change together. -/
def insertAccount (s : ZkSyncState) (id : AccountId) (account : Account) : ZkSyncState :=
  { s with
    accountIdByAddress := s.accountIdByAddress.insert account.address id
    balanceTree := s.balanceTree.insert id account }

/-- `remove_account`: the leaf gets the empty account, which is not the same as no account. -/
def removeAccount (s : ZkSyncState) (id : AccountId) : ZkSyncState :=
  match s.getAccount id with
  | some account =>
    { s with
      accountIdByAddress := s.accountIdByAddress.erase account.address
      balanceTree := s.balanceTree.remove id }
  | none => s

/-- The accounts are inserted in the iteration order of their table, which is
any order: the table is a list of its entries here. -/
def fromAccMap (H : Hasher Fr) (accounts : AList fun _ : AccountId => Account)
    (currentBlock : BlockNumber) : ZkSyncState :=
  accounts.entries.foldl (fun s entry => s.insertAccount entry.1 entry.2)
    { empty H with blockNumber := currentBlock }

/-! ### Reading after writing -/

section Lookup

variable (s : ZkSyncState) (id : AccountId) (account : Account)

/-- Only the account at the id changes. -/
@[simp] theorem getAccount_insertAccount :
    (s.insertAccount id account).getAccount = Function.update s.getAccount id (some account) :=
  s.balanceTree.get_insert id account

theorem getAccount_insertAccount_self : (s.insertAccount id account).getAccount id = some account := by
  rw [getAccount_insertAccount, Function.update_self]

theorem getAccount_insertAccount_of_ne {id' : AccountId} (h : id' ≠ id) :
    (s.insertAccount id account).getAccount id' = s.getAccount id' := by
  rw [getAccount_insertAccount, Function.update_of_ne h]

/-- The index after a write. -/
theorem lookup_insertAccount (address : Address) :
    (s.insertAccount id account).accountIdByAddress.lookup address =
      if address = account.address then some id else s.accountIdByAddress.lookup address :=
  Finmap.lookup_insert_if _ _ _ _

/-- A write over an existing item keeps the number of items. -/
theorem size_insertAccount_of_some {old : Account} (h : s.getAccount id = some old) :
    (s.insertAccount id account).balanceTree.tree.items.size = s.balanceTree.tree.items.size := by
  show (s.balanceTree.insert id account).tree.items.size = _
  rw [AccountTree.items_insert]
  exact Finmap.size_insert_of_mem (Finmap.mem_of_lookup_eq_some h) account

/-- A write at a free id adds an item. -/
theorem size_insertAccount_of_none (h : s.getAccount id = none) :
    (s.insertAccount id account).balanceTree.tree.items.size =
      s.balanceTree.tree.items.size + 1 := by
  show (s.balanceTree.insert id account).tree.items.size = _
  rw [AccountTree.items_insert]
  exact Finmap.size_insert_of_notMem (Finmap.lookup_eq_none.mp h) account

@[simp] theorem blockNumber_insertAccount :
    (s.insertAccount id account).blockNumber = s.blockNumber := rfl

/-- An account is found through the index. -/
theorem getAccountByAddress_eq_some {address : Address} {r : AccountId × Account}
    (h : s.getAccountByAddress address = .ok (some r)) :
    s.accountIdByAddress.lookup address = some r.1 ∧ s.getAccount r.1 = some r.2 := by
  unfold getAccountByAddress at h
  split at h
  next => cases h
  next accountId hl =>
    rw [Outcome.bind_eq_ok] at h
    obtain ⟨account, ha, h⟩ := h
    obtain rfl : (accountId, account) = r := Option.some.inj (Except.ok.inj h)
    exact ⟨hl, Outcome.expect_eq_ok.mp ha⟩

/-- An address that is not in the index has no account. -/
theorem getAccountByAddress_eq_none {address : Address}
    (h : s.getAccountByAddress address = .ok none) :
    s.accountIdByAddress.lookup address = none := by
  unfold getAccountByAddress at h
  split at h
  next hl => exact hl
  next accountId hl =>
    rw [Outcome.bind_eq_ok] at h
    obtain ⟨account, -, h⟩ := h
    cases h

end Lookup

end ZkSyncState

end ZkSync
