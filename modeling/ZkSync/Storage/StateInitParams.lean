import ZkSync.Core.Hashable
import ZkSync.State.Mirror
import ZkSync.Storage.StateSchema

/-!
# Restoring the state keeper

`ZkSyncStateInitParams` of `zksync_core::state_keeper`: the accounts with which a
state keeper starts, loaded from the database by `loadAccountTree`. It loads the
accounts of the block whose tree is cached — or the verified ones, and caches
their tree —, brings the accounts up to date that were updated since, and
compares the root hash with that of the stored block.

Hash tables are iterated in no fixed order: `HashIteration` is any choice of one.
Setting the cached inner nodes of a tree (`set_internals`) is left out; they are
hashes of the same accounts.
-/

namespace ZkSync

/-- An order in which hash tables of accounts are iterated. -/
structure HashIteration where
  entries : AccountMap → AList fun _ : AccountId => Account
  toFinmap : ∀ accounts, (entries accounts).toFinmap = accounts

/-- There is an order, whatever it is. -/
theorem HashIteration.exists : Nonempty HashIteration := by
  have h : ∀ accounts : AccountMap, ∃ entries : AList fun _ : AccountId => Account,
      entries.toFinmap = accounts := fun accounts => by
    induction accounts using Finmap.induction_on with
    | H entries => exact ⟨entries, rfl⟩
  exact ⟨⟨fun accounts => (h accounts).choose, fun accounts => (h accounts).choose_spec⟩⟩

namespace Db

/-- `get_account_tree_cache`: the last block whose tree is cached. -/
def getAccountTreeCache (db : Db) : Option BlockNumber :=
  db.accountTreeCache.rows.max?.map UInt32.ofNat

/-- `get_account_tree_cache_block`. -/
def hasAccountTreeCacheBlock (db : Db) (block : BlockNumber) : Bool :=
  (db.accountTreeCache.find block.toNat).isSome

/-- `store_account_tree_cache`. -/
def storeAccountTreeCache (db : Db) (block : BlockNumber) : Outcome Db :=
  if block = 0 then .ok db
  else do
    let accountTreeCache ← Outcome.okOrElse (db.accountTreeCache.insert block.toNat)
      "duplicate key value violates unique constraint"
    return { db with accountTreeCache := accountTreeCache }

end Db

namespace ZkSyncStateInitParams

def new (H : Hasher Fr) : ZkSyncStateInitParams where
  tree := AccountTree.new H
  accIdByAddr := ∅
  lastBlockNumber := 0
  unprocessedPriorityOp := 0

def insertAccount (p : ZkSyncStateInitParams) (id : AccountId) (acc : Account) :
    ZkSyncStateInitParams :=
  { p with
    accIdByAddr := p.accIdByAddr.insert acc.address id
    tree := p.tree.insert id acc }

/-- The tree removes the account in any case, which leaves a default leaf. -/
def removeAccount (p : ZkSyncStateInitParams) (id : AccountId) : ZkSyncStateInitParams :=
  match p.tree.get id with
  | some acc =>
    { p with tree := p.tree.remove id, accIdByAddr := p.accIdByAddr.erase acc.address }
  | none => { p with tree := p.tree.remove id }

/-- The accounts that are loaded first, with their block. -/
def loadCachedState (db : Db) : BlockNumber × AccountMap :=
  match db.getAccountTreeCache with
  | some block => db.loadCommittedState (some block)
  | none => db.loadVerifiedState

/-- Insert all accounts. -/
def insertAccounts (it : HashIteration) (accounts : AccountMap) (p : ZkSyncStateInitParams) :
    ZkSyncStateInitParams :=
  (it.entries accounts).entries.foldl (fun p entry => p.insertAccount entry.1 entry.2) p

/-- Compute and store the tree cache, unless there is one for the block. -/
def ensureTreeCache (H : Hasher Fr) (db : Db) (block : BlockNumber) (p : ZkSyncStateInitParams) :
    Outcome (Db × ZkSyncStateInitParams) :=
  if db.hasAccountTreeCacheBlock block then .ok (db, p)
  else do
    let (_, tree) ← p.tree.rootHash H
    let db ← db.storeAccountTreeCache block
    return (db, { p with tree := tree })

/-- Bring the updated accounts up to date. -/
def updateAccounts (accounts : AccountMap) (accountUpdates : AccountUpdates)
    (p : ZkSyncStateInitParams) : ZkSyncStateInitParams :=
  let updatedAccounts :=
    ((accountUpdates.map Prod.fst).mergeSort fun id id' => decide (id ≤ id')).dedup
  updatedAccounts.foldl (fun p idx =>
    match accounts.lookup idx with
    | some acc => p.insertAccount idx acc
    | none => p.removeAccount idx) p

/-- Compare the root hash with that of the stored block. -/
def checkRootHash (H : Hasher Fr) (db : Db) (blockNumber : BlockNumber)
    (p : ZkSyncStateInitParams) : Outcome ZkSyncStateInitParams :=
  if blockNumber ≠ 0 then do
    let storageBlock ← Outcome.expect (db.blocks.find blockNumber.toNat)
      "restored block must exist"
    let (rootHash, tree) ← p.tree.rootHash H
    Outcome.assert (storageBlock.rootHash = rootHash) "restored root_hash is different"
    return { p with tree := tree }
  else .ok p

/-- Bring the accounts from the cached block to the committed one. -/
def catchUp (db : Db) (lastCachedBlockNumber blockNumber : BlockNumber) (accounts : AccountMap)
    (p : ZkSyncStateInitParams) : ZkSyncStateInitParams :=
  if blockNumber ≠ lastCachedBlockNumber then
    match db.loadStateDiff lastCachedBlockNumber (some blockNumber) with
    | some (_, accountUpdates) => p.updateAccounts accounts accountUpdates
    | none => p
  else p

def loadAccountTree (H : Hasher Fr) (it : HashIteration) (db : Db) (p : ZkSyncStateInitParams) :
    Outcome (BlockNumber × Db × ZkSyncStateInitParams) := do
  let (lastCachedBlockNumber, accounts) := loadCachedState db
  let p := p.insertAccounts it accounts
  let (db, p) ← ensureTreeCache H db lastCachedBlockNumber p
  let (blockNumber, accounts) := db.loadCommittedState none
  let p := catchUp db lastCachedBlockNumber blockNumber accounts p
  let p ← checkRootHash H db blockNumber p
  return (blockNumber, db, p)

/-! ## The accounts in the tree -/

/-- The accounts of the tree, where a default leaf is no account. -/
def leaf (p : ZkSyncStateInitParams) (id : AccountId) : Account :=
  (p.tree.get id).getD Account.default

/-- The hashes that the tree has cached are right. -/
def HashOk (H : Hasher Fr) (p : ZkSyncStateInitParams) : Prop :=
  p.tree.tree.HashOk (accountParams H)

section Leaves

variable {H : Hasher Fr} {p p' : ZkSyncStateInitParams}

/-- The state that the keeper makes of the parameters. -/
def state (p : ZkSyncStateInitParams) : ZkSyncState where
  balanceTree := p.tree
  accountIdByAddress := p.accIdByAddr
  blockNumber := p.lastBlockNumber

theorem leaf_insertAccount (id : AccountId) (acc : Account) (id' : AccountId) :
    (p.insertAccount id acc).leaf id' = if id' = id then acc else p.leaf id' := by
  show ((p.tree.insert id acc).get id').getD _ = _
  rw [AccountTree.get_insert, Function.update_apply]
  split <;> rfl

theorem leaf_removeAccount (id id' : AccountId) :
    (p.removeAccount id).leaf id' = if id' = id then Account.default else p.leaf id' := by
  have htree : (p.removeAccount id).tree = p.tree.insert id Account.default := by
    unfold removeAccount
    split <;> rfl
  unfold leaf
  rw [htree, AccountTree.get_insert, Function.update_apply]
  split <;> rfl

theorem HashOk.insertAccount (h : p.HashOk H) (id : AccountId) (acc : Account) :
    (p.insertAccount id acc).HashOk H :=
  hashed_insert (s := p.state) h id acc

theorem HashOk.removeAccount (h : p.HashOk H) (id : AccountId) : (p.removeAccount id).HashOk H := by
  have hinsert : (p.tree.insert id Account.default).tree.HashOk (accountParams H) :=
    hashed_insert (s := p.state) h id Account.default
  unfold ZkSyncStateInitParams.removeAccount
  split <;> exact hinsert

theorem hashOk_new (H : Hasher Fr) : (new H).HashOk H :=
  hashed_fromAccMap H ∅ 0

/-- The root hash of a tree is that of its accounts. -/
theorem root_eq (h : p.HashOk H) {m : Ledger} (hm : ∀ id, p.leaf id = (m id).getD Account.default) :
    Prod.fst <$> p.tree.rootHash H = m.root H := by
  have hroot : Prod.fst <$> p.tree.rootHash H = Prod.fst <$> p.state.rootHash H := by
    unfold ZkSyncState.rootHash state
    cases p.tree.rootHash H <;> rfl
  unfold Ledger.root
  rw [hroot, rootHash_eq_fullRoot (s := p.state) h,
    SparseMerkleTree.fullRoot_eq_treeHash fun i => rfl]
  refine treeHash_bits accountTreeDepth 0 fun i hi => ?_
  have hlt : i < 2 ^ 32 := by
    unfold accountTreeDepth at hi
    omega
  rw [AccountTree.lookup_items, if_pos hlt]
  exact congrArg _ (hm (UInt32.ofNat i))

/-- Asking for the root hash changes no account. -/
theorem exists_rootHash (h : p.HashOk H) {m : Ledger}
    (hm : ∀ id, p.leaf id = (m id).getD Account.default) {hash : Fr} (hroot : m.root H = .ok hash) :
    ∃ tree, p.tree.rootHash H = .ok (hash, tree) ∧
      ({ p with tree := tree } : ZkSyncStateInitParams).HashOk H ∧
      ({ p with tree := tree } : ZkSyncStateInitParams).leaf = p.leaf := by
  rw [← root_eq h hm] at hroot
  obtain ⟨⟨hash', tree⟩, hok, rfl⟩ := Outcome.map_eq_ok.mp hroot
  have hstate : p.state.rootHash H = .ok (hash', { p.state with balanceTree := tree }) := by
    unfold ZkSyncState.rootHash state
    rw [hok]
    rfl
  refine ⟨tree, hok, (Write.hash hstate).hashed h, funext fun id => ?_⟩
  have hget := congrFun (getAccount_of_rootHash hstate) id
  show (tree.get id).getD _ = (p.tree.get id).getD _
  exact congrArg (Option.getD · Account.default) hget

/-- Inserting all accounts into an empty tree. -/
theorem insertAccounts_new (H : Hasher Fr) (it : HashIteration) (accounts : AccountMap) :
    ((new H).insertAccounts it accounts).HashOk H ∧
      ∀ id, ((new H).insertAccounts it accounts).leaf id =
        (accounts.lookup id).getD Account.default := by
  have hfold : ∀ (entries : List (Sigma fun _ : AccountId => Account))
      (p : ZkSyncStateInitParams), p.HashOk H → entries.NodupKeys →
      (entries.foldl (fun p entry => p.insertAccount entry.1 entry.2) p).HashOk H ∧
      ∀ id, (entries.foldl (fun p entry => p.insertAccount entry.1 entry.2) p).leaf id =
        (entries.dlookup id).getD (p.leaf id) := by
    intro entries
    induction entries with
    | nil => exact fun p h _ => ⟨h, fun id => rfl⟩
    | cons entry entries ih =>
      intro p h hnodup
      obtain ⟨hnot, hnodup⟩ := List.nodupKeys_cons.mp hnodup
      obtain ⟨hok, hleaf⟩ := ih (p.insertAccount entry.1 entry.2) (h.insertAccount _ _) hnodup
      refine ⟨hok, fun id => (hleaf id).trans ?_⟩
      rw [leaf_insertAccount]
      by_cases hid : id = entry.1
      · subst hid
        rw [List.dlookup_eq_none.mpr hnot, List.dlookup_cons_eq, if_pos rfl]
        rfl
      · rw [List.dlookup_cons_ne _ _ hid, if_neg hid]
  obtain ⟨hok, hleaf⟩ := hfold (it.entries accounts).entries (new H) (hashOk_new H)
    (it.entries accounts).nodupKeys
  refine ⟨hok, fun id => (hleaf id).trans ?_⟩
  have hlookup : (it.entries accounts).entries.dlookup id = accounts.lookup id :=
    (Finmap.lookup_toFinmap id (it.entries accounts)).symm.trans
      (congrArg (Finmap.lookup id) (it.toFinmap accounts))
  rw [hlookup]
  rfl

/-- Accounts that are brought up to date have the new value, the others keep theirs. -/
theorem updateAccounts_spec (h : p.HashOk H) (accounts : AccountMap) (us : AccountUpdates) :
    (p.updateAccounts accounts us).HashOk H ∧
      ∀ id, (p.updateAccounts accounts us).leaf id =
        if id ∈ us.map Prod.fst then (accounts.lookup id).getD Account.default else p.leaf id := by
  have hfold : ∀ (ids : List AccountId) (p : ZkSyncStateInitParams), p.HashOk H →
      (ids.foldl (fun p idx =>
        match accounts.lookup idx with
        | some acc => p.insertAccount idx acc
        | none => p.removeAccount idx) p).HashOk H ∧
      ∀ id, (ids.foldl (fun p idx =>
        match accounts.lookup idx with
        | some acc => p.insertAccount idx acc
        | none => p.removeAccount idx) p).leaf id =
        if id ∈ ids then (accounts.lookup id).getD Account.default else p.leaf id := by
    intro ids
    induction ids with
    | nil => exact fun p h => ⟨h, fun id => rfl⟩
    | cons idx ids ih =>
      intro p h
      -- the account of this step
      obtain ⟨q, hq, hqok, hqleaf⟩ : ∃ q : ZkSyncStateInitParams,
          (match accounts.lookup idx with
            | some acc => p.insertAccount idx acc
            | none => p.removeAccount idx) = q ∧ q.HashOk H ∧
          ∀ id, q.leaf id =
            if id = idx then (accounts.lookup idx).getD Account.default else p.leaf id := by
        cases accounts.lookup idx with
        | some acc => exact ⟨_, rfl, h.insertAccount _ _, leaf_insertAccount _ _⟩
        | none => exact ⟨_, rfl, h.removeAccount _, leaf_removeAccount _⟩
      rw [List.foldl_cons, hq]
      refine ⟨(ih q hqok).1, fun id => ((ih q hqok).2 id).trans ?_⟩
      rw [hqleaf]
      by_cases hid : id = idx
      · subst hid
        simp
      · simp [hid]
  obtain ⟨hok, hleaf⟩ := hfold _ p h
  refine ⟨hok, fun id => (hleaf id).trans ?_⟩
  have hmem : id ∈ ((us.map Prod.fst).mergeSort fun id id' => decide (id ≤ id')).dedup ↔
      id ∈ us.map Prod.fst := by
    rw [List.mem_dedup, (List.mergeSort_perm _ _).mem_iff]
  simp only [hmem]

end Leaves

end ZkSyncStateInitParams

end ZkSync
