import ZkSync.Crypto.SmtBits
import ZkSync.Storage.StateDiffs
import ZkSync.Storage.StateInitParams
import ZkSync.Witness.CircuitTree

/-!
# The account tree of a witness generator

`load_account_tree` of `zksync_witness_generator`: the tree of the accounts after a block.
The accounts are loaded from the database and inserted; the inner nodes and their hashes
come from the newest row of `account_tree_cache`, which is of any block, and the accounts
that changed between the two blocks are inserted once more. What comes out is stored as
the cache of the block.

The table of caches has one writer more, the state keeper when it starts. Whoever wrote a
row, `CacheOf` is all that is known of it, and enough: the tree acts as the accounts of its
block (`restoreAccountTree_spec`), wherever the snapshot of the database and the cached
block stand. Where the row of the block is there already and is not the newest one, the
insert fails, and so does the call.
-/

namespace ZkSync

open NumberedLog Smt SparseMerkleTree

/-! ## The table of caches -/

/-- A row of `account_tree_cache`. -/
structure AccountTreeCache where
  block : Nat
  treeCache : SparseMerkleTreeSerializableCacheBN256

/-- The table `account_tree_cache`. -/
abbrev TreeCaches := Table AccountTreeCache AccountTreeCache.block

/-- An order in which the cached hashes of a tree are iterated. -/
structure CacheIteration where
  entries : (Finmap fun _ : Nat => Fr) → AList fun _ : Nat => Fr
  toFinmap : ∀ cache, (entries cache).toFinmap = cache

/-- Some order does it. -/
theorem CacheIteration.exists : Nonempty CacheIteration := by
  have h : ∀ cache : Finmap fun _ : Nat => Fr,
      ∃ entries : AList fun _ : Nat => Fr, entries.toFinmap = cache := fun cache => by
    induction cache using Finmap.induction_on with
    | H entries => exact ⟨entries, rfl⟩
  exact ⟨⟨fun cache => (h cache).choose, fun cache => (h cache).choose_spec⟩⟩

namespace TreeCaches

/-- `ORDER BY block DESC LIMIT 1`. -/
def newest (caches : TreeCaches) : Option AccountTreeCache := do
  let block ← (caches.rows.map AccountTreeCache.block).max?
  caches.find block

/-- The cache of the greatest block. -/
def getAccountTreeCache (caches : TreeCaches) :
    Option (BlockNumber × SparseMerkleTreeSerializableCacheBN256) :=
  caches.newest.map fun row => (UInt32.ofNat row.block, row.treeCache)

/-- A cache that is there is not replaced. -/
def storeAccountTreeCache (caches : TreeCaches) (block : BlockNumber)
    (treeCache : SparseMerkleTreeSerializableCacheBN256) : Outcome TreeCaches :=
  if block = 0 then .ok caches
  else Outcome.okOrElse (caches.insert ⟨block.toNat, treeCache⟩)
    "duplicate key value violates unique constraint"

end TreeCaches

/-! ## Loading a tree -/

namespace WitnessGenerator

/-- The accounts to insert once more. -/
def updatedAccounts (db : Db) (block cachedBlock : BlockNumber) : List AccountId :=
  match db.loadStateDiff block (some cachedBlock) with
  | some (_, accountUpdates) =>
    ((accountUpdates.map Prod.fst).mergeSort fun id id' => decide (id ≤ id')).dedup
  | none => []

/-- The accounts that are inserted once more; one that does not exist is an empty leaf. -/
def updatedItems (accounts : AccountMap) (updated : List AccountId) : List (Σ _ : AccountId, Account) :=
  updated.map fun idx => ⟨idx, (accounts.lookup idx).getD Account.default⟩

/-- Compute the root hash, and store the cache of the block. -/
def storeTree (H : Hasher Fr) (order : CacheIteration) (caches : TreeCaches) (block : BlockNumber)
    (tree : CircuitAccountTree) : Outcome (CircuitAccountTree × TreeCaches) := do
  let (_, tree) ← tree.rootHash (circuitParams H)
  let caches ← caches.storeAccountTreeCache block (tree.getInternals (order.entries tree.cache))
  return (tree, caches)

/-- `load_account_tree` up to the comparison of the root hashes. -/
def restoreAccountTree (H : Hasher Fr) (it : HashIteration) (order : CacheIteration) (db : Db)
    (caches : TreeCaches) (block : BlockNumber) : Outcome (CircuitAccountTree × TreeCaches) := do
  let (_, accounts) := db.loadCommittedState (some block)
  let tree ← ZkSync.loadAccountTree H (it.entries accounts)
  match caches.getAccountTreeCache with
  | some (cachedBlock, treeCache) =>
    let tree ← tree.setInternals treeCache
    if block ≠ cachedBlock then
      let tree ← insertAccounts H tree
        (updatedItems accounts (updatedAccounts db block cachedBlock))
      storeTree H order caches block tree
    else return (tree, caches)
  | none => storeTree H order caches block tree

/-- The end of `load_account_tree`. -/
def checkRootHash (H : Hasher Fr) (db : Db) (block : BlockNumber) (tree : CircuitAccountTree) :
    Outcome CircuitAccountTree :=
  if block ≠ 0 then do
    let storageBlock ← Outcome.expect (db.blocks.find block.toNat)
      "Block for witness generator must exist"
    let (rootHash, tree) ← tree.rootHash (circuitParams H)
    Outcome.assert (storageBlock.rootHash = rootHash) "account tree root hash restored incorrectly"
    return tree
  else .ok tree

/-- `load_account_tree`: the tree of a block, which has to have the root that was stored. -/
def loadAccountTree (H : Hasher Fr) (it : HashIteration) (order : CacheIteration) (db : Db)
    (caches : TreeCaches) (block : BlockNumber) : Outcome (CircuitAccountTree × TreeCaches) := do
  let (tree, caches) ← restoreAccountTree H it order db caches block
  let tree ← checkRootHash H db block tree
  return (tree, caches)

end WitnessGenerator

/-! ## The bits of accounts -/

/-- The bits at an index of the account tree. -/
def accountBits (H : Hasher Fr) (accounts : AccountMap) (i : Nat) : Outcome (List Bool) :=
  if i < UInt32.size then ((accounts.lookup (UInt32.ofNat i)).getD Account.default).getBitsLe H
  else .ok (defaultAccountBits H)

/-- The tree acts as the accounts. -/
abbrev ActsAsAccounts (H : Hasher Fr) (accounts : AccountMap) (tree : CircuitAccountTree) : Prop :=
  ActsAs (circuitParams H) accountTreeDepth (accountBits H accounts) tree

/-- The tree is that of the accounts. Its hashes are theirs, also where they come from a cache;
and it holds them: what the builder reads at an id is the account. Neither follows from the
other, as a restored tree may have nodes without items. -/
structure TreeOf (H : Hasher Fr) (accounts : AccountMap) (tree : CircuitAccountTree) : Prop where
  acts : ActsAsAccounts H accounts tree
  holds : ∀ id, (accountAt H tree id).Shows 0 ((accounts.lookup id).getD Account.default)

section Bits

variable {H : Hasher Fr} {accounts accounts' : AccountMap} {tree : CircuitAccountTree}
  {leaf : Nat → Outcome (List Bool)}

/-- The bits of an account are those of the account at its id, or of the empty one. -/
theorem accountBits_id (H : Hasher Fr) (accounts : AccountMap) (id : AccountId) :
    accountBits H accounts id.toNat =
      ((accounts.lookup id).getD Account.default).getBitsLe H := by
  unfold accountBits
  rw [if_pos id.toNat_lt_size, UInt32.ofNat_toNat]

/-- Accounts that are the same up to explicit zeros have the same bits. -/
theorem accountBits_congr {id : AccountId}
    (hfits : ∀ a, accounts.lookup id = some a → a.Fits)
    (hfits' : ∀ a, accounts'.lookup id = some a → a.Fits)
    (hsame : Option.Rel Account.Equiv (accounts.lookup id) (accounts'.lookup id)) :
    accountBits H accounts id.toNat = accountBits H accounts' id.toNat := by
  rw [accountBits_id, accountBits_id]
  cases ha' : accounts'.lookup id with
  | none =>
    rw [rel_none hsame ha']
  | some a' =>
    obtain ⟨a, ha, hequiv⟩ := rel_some hsame ha'
    rw [ha]
    exact Account.getBitsLe_congr H hequiv ⟨fun _ => hfits' a' ha', fun _ => hfits a ha⟩

/-- Only the accounts count, not the table. -/
theorem accountBits_eq (h : ∀ id : AccountId, accountBits H accounts id.toNat =
    accountBits H accounts' id.toNat) (i : Nat) : accountBits H accounts i = accountBits H accounts' i := by
  by_cases hi : i < UInt32.size
  · have hid : (UInt32.ofNat i).toNat = i := UInt32.toNat_ofNat_of_lt' hi
    rw [← hid]
    exact h _
  · unfold accountBits
    rw [if_neg hi, if_neg hi]

/-- The bits after accounts were written. -/
def writtenBits (H : Hasher Fr) (leaf : Nat → Outcome (List Bool))
    (written : List (Σ _ : AccountId, Account)) : Nat → Outcome (List Bool) :=
  written.foldl (fun leaf e => Function.update leaf e.1.toNat (e.2.getBitsLe H)) leaf

/-- What was written last is what is read. -/
theorem writtenBits_eq (leaf : Nat → Outcome (List Bool)) (written : List (Σ _ : AccountId, Account))
    (i : Nat) : writtenBits H leaf written i =
      ((lastItem written i none).map (Account.getBitsLe H)).getD (leaf i) := by
  induction written using List.reverseRecOn with
  | nil => rfl
  | append_singleton written e ih =>
    unfold writtenBits lastItem
    rw [List.foldl_append, List.foldl_append]
    show Function.update (writtenBits H leaf written) e.1.toNat _ i =
      ((if e.1.toNat = i then some e.2 else lastItem written i none).map _).getD _
    by_cases hi : e.1.toNat = i
    · rw [if_pos hi, ← hi, Function.update_self, Option.map_some, Option.getD_some]
    · rw [if_neg hi, Function.update_of_ne (Ne.symm hi), ih]

/-- Accounts that fit are inserted with their bits. -/
theorem insertAccounts_acts (h : ActsAs (circuitParams H) accountTreeDepth leaf tree)
    {written : List (Σ _ : AccountId, Account)} (hfits : ∀ e ∈ written, e.2.Fits) :
    ∃ tree', insertAccounts H tree written = .ok tree' ∧
      ActsAs (circuitParams H) accountTreeDepth (writtenBits H leaf written) tree' := by
  induction written generalizing tree leaf with
  | nil => exact ⟨tree, rfl, h⟩
  | cons e written ih =>
    obtain ⟨id, account⟩ := e
    obtain ⟨c, hc, -, -⟩ := shows_toCircuitAccount (H := H) (hfits _ List.mem_cons_self)
    have hbits : account.getBitsLe H = (circuitParams H).getBitsLe c := by
      unfold Account.getBitsLe
      rw [hc]
      rfl
    obtain ⟨tree₁, hinsert, h₁⟩ := h.insert (i := id) id.toNat_lt c
    rw [← hbits] at h₁
    obtain ⟨tree', hrest, h'⟩ := ih h₁ fun e he => hfits e (List.mem_cons_of_mem _ he)
    refine ⟨tree', ?_, h'⟩
    rw [insertAccounts, hc, Outcome.ok_bind, hinsert]
    exact hrest

/-- Written into an empty tree, in any order, the accounts of a map are there. -/
theorem writtenBits_entries (H : Hasher Fr) (entries : AList fun _ : AccountId => Account) (i : Nat) :
    writtenBits H (fun _ => .ok (defaultAccountBits H)) entries.entries i =
      accountBits H entries.toFinmap i := by
  rw [writtenBits_eq]
  unfold accountBits
  by_cases hi : i < UInt32.size
  · have hid : (UInt32.ofNat i).toNat = i := UInt32.toNat_ofNat_of_lt' hi
    have hlast := lastItem_entries entries (UInt32.ofNat i)
    rw [hid] at hlast
    rw [if_pos hi, hlast, Finmap.lookup_toFinmap]
    cases entries.lookup (UInt32.ofNat i) with
    | none => exact (accountParams H).getBitsLe_default.symm
    | some a => rw [Option.map_some, Option.getD_some, Option.getD_some]
  · rw [if_neg hi, lastItem_of_notMem fun e _ he => hi (by
      rw [← he]
      exact e.1.toNat_lt_size)]
    rfl

/-- The tree of loaded accounts acts as them. -/
theorem loadAccountTree_acts {entries : AList fun _ : AccountId => Account}
    (hfits : ∀ id a, entries.lookup id = some a → a.Fits) :
    ∃ tree, loadAccountTree H entries = .ok tree ∧ ActsAsAccounts H entries.toFinmap tree := by
  have hnew := actsAs_new (circuitParams H) one_lt_accountTreeDepth (by decide)
  obtain ⟨tree, hload, htree⟩ := insertAccounts_acts hnew fun e he =>
    hfits e.1 e.2 (AList.mem_lookup_iff.mpr he)
  exact ⟨tree, hload, htree.congr (writtenBits_entries H entries)⟩

/-- What is read at an id depends on the items only. -/
theorem accountAt_of_items {tree' : CircuitAccountTree} (h : tree'.items = tree.items)
    (id : AccountId) : accountAt H tree' id = accountAt H tree id := by
  unfold accountAt SparseMerkleTree.get
  rw [h]

/-- Accounts that are written over themselves are there afterwards. -/
theorem insertAccounts_holds {m : AccountId → Account} {tree' : CircuitAccountTree}
    {written : List (Σ _ : AccountId, Account)} (hfits : ∀ e ∈ written, e.2.Fits)
    (hwritten : ∀ e ∈ written, e.2 = m e.1) (h : ∀ id, (accountAt H tree id).Shows 0 (m id))
    (hinsert : insertAccounts H tree written = .ok tree') :
    ∀ id, (accountAt H tree' id).Shows 0 (m id) := by
  induction written generalizing tree with
  | nil =>
    cases hinsert
    exact h
  | cons e written ih =>
    obtain ⟨id, account⟩ := e
    obtain rfl : account = m id := hwritten _ List.mem_cons_self
    obtain ⟨c, hc, -, hshows⟩ := shows_toCircuitAccount (H := H) (hfits _ List.mem_cons_self)
    rw [insertAccounts, hc, Outcome.ok_bind] at hinsert
    obtain ⟨tree₁, hput, hrest⟩ := Outcome.bind_eq_ok.mp hinsert
    refine ih (fun e he => hfits e (List.mem_cons_of_mem _ he))
      (fun e he => hwritten e (List.mem_cons_of_mem _ he)) (fun j => ?_) hrest
    have hitems := SparseMerkleTree.items_of_insert hput
    by_cases hj : j = id
    · have hat : accountAt H tree₁ j = c := by
        unfold accountAt SparseMerkleTree.get
        rw [hitems, hj, Finmap.lookup_insert]
        rfl
      rw [hat, hj]
      exact hshows
    · have hat : accountAt H tree₁ j = accountAt H tree j := by
        unfold accountAt SparseMerkleTree.get
        rw [hitems, Finmap.lookup_insert_of_ne _ fun he => hj (UInt32.toNat_inj.mp he)]
      rw [hat]
      exact h j

/-- Explicit zeros do not matter to the tree of the accounts. -/
theorem holds_congr (hsame : ∀ id, Option.Rel Account.Equiv (accounts.lookup id)
      (accounts'.lookup id))
    (h : ∀ id, (accountAt H tree id).Shows 0 ((accounts.lookup id).getD Account.default)) :
    ∀ id, (accountAt H tree id).Shows 0 ((accounts'.lookup id).getD Account.default) := by
  intro id
  have hshows := h id
  have hrel := hsame id
  generalize accounts.lookup id = o at hrel hshows
  generalize accounts'.lookup id = o' at hrel
  cases hrel with
  | some he => exact hshows.equiv he
  | none => exact hshows

end Bits

/-! ## Accounts that have leaves -/

/-- The token of a balance update has a leaf. -/
def AccountUpdate.HasLeaf : AccountUpdate → Prop
  | .UpdateBalance _ _ (token, _, _) => token.toNat < 2 ^ balanceTreeDepth
  | _ => True

/-- No update of a token without a leaf was stored. -/
def History.UpdatesFit (h : History) : Prop := ∀ u ∈ h.segments.flatten, u.2.HasLeaf

section Fits

variable {m : Ledger} {us : AccountUpdates} {h : History}

/-- Reversing an update leaves its token. -/
theorem AccountUpdate.HasLeaf.reversed {update : AccountUpdate} (hleaf : update.HasLeaf) :
    update.reversedUpdate.HasLeaf := by
  cases update with
  | UpdateBalance oldNonce newNonce balance => exact hleaf
  | Create address nonce => exact trivial
  | Delete address nonce => exact trivial
  | ChangePubKeyHash old new oldNonce newNonce => exact trivial

/-- An update of a token with a leaf keeps the account fitting. -/
theorem fits_applyUpdate {o : Option Account} {update : AccountUpdate} {a : Account}
    (ho : ∀ a, o = some a → a.Fits) (hleaf : update.HasLeaf)
    (ha : Account.applyUpdate o update = some a) : a.Fits := by
  cases o with
  | none =>
    cases update with
    | Create address nonce =>
      cases ha
      exact fits_default
    | Delete address nonce => cases ha
    | UpdateBalance oldNonce newNonce balance => cases ha
    | ChangePubKeyHash old new oldNonce newNonce => cases ha
  | some old =>
    have hold := ho old rfl
    cases update with
    | Create address nonce =>
      cases ha
      exact hold
    | Delete address nonce => cases ha
    | UpdateBalance oldNonce newNonce balance =>
      obtain ⟨token, before, amount⟩ := balance
      cases ha
      intro token' hmem
      rcases Finmap.mem_insert.mp hmem with rfl | hmem
      · exact hleaf
      · exact hold token' hmem
    | ChangePubKeyHash old new oldNonce newNonce =>
      cases ha
      exact hold

/-- So do any updates. -/
theorem fits_apply (hm : ∀ id a, m id = some a → a.Fits) (hus : ∀ u ∈ us, u.2.HasLeaf) :
    ∀ id a, m.apply us id = some a → a.Fits := by
  induction us generalizing m with
  | nil => exact hm
  | cons u us ih =>
    refine ih (m := m.apply [u]) (fun id a ha => ?_) fun u' hu' => hus u' (List.mem_cons_of_mem _ hu')
    change Function.update m u.1 (Account.applyUpdate (m u.1) u.2) id = some a at ha
    by_cases hid : id = u.1
    · rw [hid, Function.update_self] at ha
      exact fits_applyUpdate (hm u.1) (hus u List.mem_cons_self) ha
    · rw [Function.update_of_ne hid] at ha
      exact hm id a ha

/-- The same over stored accounts. -/
theorem fits_applyUpdates {accounts : AccountMap}
    (haccounts : ∀ id a, accounts.lookup id = some a → a.Fits) (hus : ∀ u ∈ us, u.2.HasLeaf) :
    ∀ id a, (applyUpdates accounts us).lookup id = some a → a.Fits := by
  intro id a ha
  have hlookup := congrFun (Ledger.lookup_applyUpdates accounts us) id
  exact fits_apply haccounts hus id a (hlookup.symm.trans ha)

/-- What fits for all blocks fits for the first ones. -/
theorem History.UpdatesFit.take (hfit : h.UpdatesFit) (n : Nat) :
    ∀ u ∈ (h.segments.take n).flatten, u.2.HasLeaf := by
  intro u hu
  obtain ⟨segment, hsegment, hu⟩ := List.mem_flatten.mp hu
  exact hfit u (List.mem_flatten.mpr ⟨segment, List.mem_of_mem_take hsegment, hu⟩)

/-- And for those in between. -/
theorem History.UpdatesFit.between (hfit : h.UpdatesFit) (a b : Nat) :
    ∀ u ∈ h.between a b, u.2.HasLeaf := by
  intro u hu
  obtain ⟨segment, hsegment, hu⟩ := List.mem_flatten.mp hu
  exact hfit.take (b + 1) u (List.mem_flatten.mpr ⟨segment, List.mem_of_mem_drop hsegment, hu⟩)

/-- So the accounts after every block can be hashed. -/
theorem History.UpdatesFit.accountsAt (hfit : h.UpdatesFit) {n : Nat} (hn : n ≤ h.lastBlock) :
    ∀ id a, (h.accountsAt n).lookup id = some a → a.Fits := by
  rw [History.accountsAt_eq n hn]
  exact fits_applyUpdates (fun id a ha => by cases ha) (hfit.take (n + 1))

end Fits

/-! ## What is loaded -/

section Loaded

variable {σ : KeptDb} {a b : BlockNumber}

/-- So can what lies between two blocks, forwards or backwards. -/
theorem Tabled.diffUpdates_fit (ht : Tabled σ.db σ.history) (hfit : σ.history.UpdatesFit)
    (a b : BlockNumber) : ∀ u ∈ σ.db.diffUpdates a b, u.2.HasLeaf := by
  by_cases hab : a ≤ b
  · rw [ht.diffUpdates_forward hab]
    exact hfit.between a.toNat b.toNat
  · have hba : b < a := UInt32.not_le.mp hab
    rw [Db.diffUpdates_backward hba, ht.diffUpdates_forward (UInt32.le_of_lt hba)]
    intro u hu
    obtain ⟨u', hu', rfl⟩ := List.mem_map.mp hu
    exact (hfit.between b.toNat a.toNat u' (List.mem_reverse.mp hu')).reversed

/-- The accounts that are loaded for a block fit, as do those of the block itself. -/
theorem Tabled.loaded_fit (ht : Tabled σ.db σ.history) (hfit : σ.history.UpdatesFit)
    (b : BlockNumber) :
    ∀ id a, (σ.db.loadCommittedState (some b)).2.lookup id = some a → a.Fits := by
  rw [ht.loadCommittedState]
  exact fits_applyUpdates (hfit.accountsAt ht.verified) (ht.diffUpdates_fit hfit _ b)

/-- They are the accounts after the block, up to explicit zeros. -/
theorem KeptOk.loaded_same (hσ : KeptOk σ) (hb : b.toNat ≤ σ.history.lastBlock) (id : AccountId) :
    Option.Rel Account.Equiv ((σ.db.loadCommittedState (some b)).2.lookup id)
      ((σ.history.accountsAt b.toNat).lookup id) := by
  have hverified := hσ.tabled.toNat_verified
  have hdiff := (hσ.diffReaches (a := UInt32.ofNat σ.history.verified)
    (by rw [hverified]; exact hσ.tabled.verified) hb).same id
  rw [hverified] at hdiff
  rw [hσ.tabled.loadCommittedState]
  exact hdiff

/-- The accounts that are written again are those between the cache and the block. -/
theorem WitnessGenerator.mem_updatedAccounts {db : Db} {id : AccountId} :
    id ∈ updatedAccounts db a b ↔ id ∈ (db.diffUpdates a b).map Prod.fst := by
  unfold updatedAccounts Db.diffUpdates
  cases db.loadStateDiff a (some b) with
  | none => exact Iff.rfl
  | some diff => exact List.mem_dedup.trans (List.mergeSort_perm _ _).mem_iff

/-- An account that is not among the updated ones is the same after both blocks. -/
theorem KeptOk.same_of_notMem (hσ : KeptOk σ) (ha : a.toNat ≤ σ.history.lastBlock)
    (hb : b.toNat ≤ σ.history.lastBlock) {id : AccountId}
    (hid : id ∉ WitnessGenerator.updatedAccounts σ.db a b) :
    Option.Rel Account.Equiv ((σ.history.accountsAt a.toNat).lookup id)
      ((σ.history.accountsAt b.toNat).lookup id) := by
  have hdiff := (hσ.diffReaches ha hb).same id
  rw [WitnessGenerator.mem_updatedAccounts] at hid
  dsimp only at hdiff
  rw [lookup_applyUpdates_of_notMem hid] at hdiff
  exact hdiff

end Loaded

/-! ## Restoring -/

namespace TreeCaches

/-- No stored cache is of a later block than the newest one. -/
theorem mem_of_newest {caches : TreeCaches} {row : AccountTreeCache}
    (h : caches.newest = some row) :
    row ∈ caches.rows ∧ ∀ row' ∈ caches.rows, row'.block ≤ row.block := by
  obtain ⟨block, hmax, hfind⟩ := Option.bind_eq_some_iff.mp h
  obtain ⟨hmem, hkey⟩ := Table.find_eq_some.mp hfind
  refine ⟨hmem, fun row' hrow' => ?_⟩
  rw [hkey]
  exact (List.max?_eq_some_iff.mp hmax).2 _ (List.mem_map_of_mem hrow')

/-- The row of the block can be used or written. -/
def Storable (caches : TreeCaches) (block : BlockNumber) : Prop :=
  block = 0 ∨ (∃ row, caches.newest = some row ∧ row.block = block.toNat) ∨
    caches.find block.toNat = none

/-- Every row is a cache of the accounts after its block. -/
def CachesOf (H : Hasher Fr) (h : History) (caches : TreeCaches) : Prop :=
  ∀ row ∈ caches.rows, 0 < row.block ∧ row.block ≤ h.lastBlock ∧
    CacheOf (circuitParams H) accountTreeDepth (accountBits H (h.accountsAt row.block)) row.treeCache

end TreeCaches

section Restore

variable {H : Hasher Fr} {it : HashIteration} {order : CacheIteration} {σ : KeptDb}
  {caches caches' : TreeCaches} {block : BlockNumber} {accounts : AccountMap}
  {tree tree' : CircuitAccountTree}

/-- An account that fits has its bits. -/
theorem exists_accountBits (hfits : ∀ id a, accounts.lookup id = some a → a.Fits) (i : Nat) :
    ∃ bits, accountBits H accounts i = .ok bits := by
  unfold accountBits
  by_cases hi : i < UInt32.size
  · rw [if_pos hi]
    cases ha : accounts.lookup (UInt32.ofNat i) with
    | none => exact getBitsLe_default H
    | some a =>
      obtain ⟨hash, hhash⟩ := leafHash_of_fits H (hfits _ a ha)
      obtain ⟨bits, hbits, -⟩ := Outcome.bind_eq_ok.mp hhash
      exact ⟨bits, hbits⟩
  · rw [if_neg hi]
    exact ⟨_, rfl⟩

/-- A tree that acts as fitting accounts has a root hash, and its internals afterwards are
a cache of the accounts. -/
theorem ActsAs.hashed (order : CacheIteration) (h : ActsAsAccounts H accounts tree)
    (hfits : ∀ id a, accounts.lookup id = some a → a.Fits) :
    ∃ hash tree', tree.rootHash (circuitParams H) = .ok (hash, tree') ∧
      ActsAsAccounts H accounts tree' ∧
      CacheOf (circuitParams H) accountTreeDepth (accountBits H accounts)
        (tree'.getInternals (order.entries tree'.cache)) := by
  obtain ⟨hash, hhash⟩ := treeHash_returns (circuitParams H) (exists_accountBits hfits)
    accountTreeDepth 0
  rw [← h.rootHash_eq] at hhash
  obtain ⟨⟨hash, tree'⟩, hroot, -⟩ := Outcome.map_eq_ok.mp hhash
  obtain ⟨h', hcache⟩ := h.rootHash hroot
  exact ⟨hash, tree', hroot, h', hcache _ (order.toFinmap _)⟩

/-- Each of them is written as it is at the block. -/
theorem WitnessGenerator.mem_updatedItems {updated : List AccountId} {e : Σ _ : AccountId, Account} :
    e ∈ updatedItems accounts updated ↔
      e.1 ∈ updated ∧ e.2 = (accounts.lookup e.1).getD Account.default := by
  unfold updatedItems
  rw [List.mem_map]
  constructor
  · rintro ⟨idx, hidx, rfl⟩
    exact ⟨hidx, rfl⟩
  · obtain ⟨idx, account⟩ := e
    intro he
    obtain ⟨hidx, haccount⟩ := he
    exact ⟨idx, hidx, Sigma.ext rfl (heq_of_eq haccount.symm)⟩

/-- An empty leaf fits as well. -/
theorem fits_getD {o : Option Account} (h : ∀ a, o = some a → a.Fits) :
    (o.getD Account.default).Fits := by
  cases o with
  | none => exact fits_default
  | some a => exact h a rfl

/-- The accounts that changed since the cached block are written once more; the tree acts
as the accounts of the block then. -/
theorem KeptOk.updated (hσ : KeptOk σ) (hfit : σ.history.UpdatesFit) {cachedBlock : BlockNumber}
    (hblock : block.toNat ≤ σ.history.lastBlock) (hcached : cachedBlock.toNat ≤ σ.history.lastBlock)
    (haccounts : (σ.db.loadCommittedState (some block)).2 = accounts)
    (h : ActsAsAccounts H (σ.history.accountsAt cachedBlock.toNat) tree) :
    ∃ tree', insertAccounts H tree (WitnessGenerator.updatedItems accounts
        (WitnessGenerator.updatedAccounts σ.db block cachedBlock)) = .ok tree' ∧
      ActsAsAccounts H (σ.history.accountsAt block.toNat) tree' := by
  have hloaded := hσ.tabled.loaded_fit hfit block
  have hsame := fun id => hσ.loaded_same hblock id
  rw [haccounts] at hloaded
  rw [haccounts] at hsame
  generalize hupdated : WitnessGenerator.updatedAccounts σ.db block cachedBlock = updated
  have hitems := @WitnessGenerator.mem_updatedItems accounts updated
  generalize WitnessGenerator.updatedItems accounts updated = written at hitems
  obtain ⟨tree', hinsert, h'⟩ := insertAccounts_acts h fun e he => by
    rw [(hitems.mp he).2]
    exact fits_getD (hloaded e.1)
  -- leaf by leaf: written again, or the same at the cache and at the block
  refine ⟨tree', hinsert, h'.congr fun i => ?_⟩
  rw [writtenBits_eq]
  by_cases hi : i < UInt32.size
  · have hid : (UInt32.ofNat i).toNat = i := UInt32.toNat_ofNat_of_lt' hi
    generalize UInt32.ofNat i = id at hid
    subst hid
    rw [← accountBits_congr (hloaded id) (hfit.accountsAt hblock id) (hsame id)]
    by_cases hmem : id ∈ updated
    · -- the account is written as it was loaded
      have hlast : lastItem written id.toNat none =
          some ((accounts.lookup id).getD Account.default) := by
        have hwritten : (⟨id, (accounts.lookup id).getD Account.default⟩ : Σ _ : AccountId, Account) ∈
            written := hitems.mpr ⟨hmem, rfl⟩
        refine lastItem_of_mem ⟨_, hwritten, rfl⟩ (fun e he heq => ?_) none
        rw [(hitems.mp he).2, UInt32.toNat_inj.mp heq]
      rw [hlast, Option.map_some, Option.getD_some]
      exact (accountBits_id H accounts id).symm
    · have hlast : lastItem written id.toNat none = none :=
        lastItem_of_notMem (fun e he heq => hmem (by
          rw [← UInt32.toNat_inj.mp heq]
          exact (hitems.mp he).1)) none
      rw [hlast, accountBits_congr (hloaded id) (hfit.accountsAt hblock id) (hsame id)]
      rw [← hupdated] at hmem
      have hrel := hσ.same_of_notMem hblock hcached hmem
      exact (accountBits_congr (hfit.accountsAt hblock id) (hfit.accountsAt hcached id) hrel).symm
  · have hlast : lastItem written i none = none :=
      lastItem_of_notMem (fun e _ heq => hi (by
        rw [← heq]
        exact e.1.toNat_lt_size)) none
    rw [hlast]
    unfold accountBits
    rw [if_neg hi, if_neg hi]
    rfl

/-- Of a committed block, the tree is restored in any case. It is the newest cached one, or
its cache is stored; the table says whether that succeeds. -/
theorem restoreAccountTree_eq (it : HashIteration) (order : CacheIteration) (hσ : KeptOk σ)
    (hfit : σ.history.UpdatesFit) (hcaches : caches.CachesOf H σ.history)
    (hblock : block.toNat ≤ σ.history.lastBlock) :
    ∃ tree internals, TreeOf H (σ.history.accountsAt block.toNat) tree ∧
      CacheOf (circuitParams H) accountTreeDepth
        (accountBits H (σ.history.accountsAt block.toNat)) internals ∧
      WitnessGenerator.restoreAccountTree H it order σ.db caches block =
        if caches.newest.map AccountTreeCache.block = some block.toNat then .ok (tree, caches)
        else (do
          let caches ← caches.storeAccountTreeCache block internals
          return (tree, caches)) := by
  have hloaded := hσ.tabled.loaded_fit hfit block
  have hat := hfit.accountsAt hblock
  have hsame := fun id => hσ.loaded_same hblock id
  unfold WitnessGenerator.restoreAccountTree
  generalize haccounts : σ.db.loadCommittedState (some block) = loaded
  obtain ⟨number, accounts⟩ := loaded
  rw [haccounts] at hloaded
  rw [haccounts] at hsame
  dsimp only at hloaded hsame ⊢
  have hentries : ∀ id, (it.entries accounts).lookup id = accounts.lookup id := by
    intro id
    rw [← Finmap.lookup_toFinmap, it.toFinmap]
  obtain ⟨tree, hload, htree⟩ := loadAccountTree_acts (H := H) fun id a ha =>
    hloaded id a ((hentries id).symm.trans ha)
  rw [it.toFinmap] at htree
  have htree : ActsAsAccounts H (σ.history.accountsAt block.toNat) tree :=
    htree.congr (accountBits_eq fun id => accountBits_congr (hloaded id) (hat id) (hsame id))
  -- the items are those of the loaded accounts, whatever hashes are put beside them
  have hholds : ∀ id, (accountAt H tree id).Shows 0 ((accounts.lookup id).getD Account.default) := by
    obtain ⟨tree', hload', hshows, -⟩ := loadAccountTree_shows (H := H) fun id a ha =>
      hloaded id a ((hentries id).symm.trans ha)
    obtain rfl := Except.ok.inj (hload'.symm.trans hload)
    intro id
    rw [← hentries id]
    exact hshows.accounts id
  rw [hload, Outcome.ok_bind]
  -- what is stored in the end
  have hstore : ∀ tree, ActsAsAccounts H (σ.history.accountsAt block.toNat) tree →
      (∀ id, (accountAt H tree id).Shows 0 ((accounts.lookup id).getD Account.default)) →
      ∃ tree' internals, TreeOf H (σ.history.accountsAt block.toNat) tree' ∧
        CacheOf (circuitParams H) accountTreeDepth
          (accountBits H (σ.history.accountsAt block.toNat)) internals ∧
        WitnessGenerator.storeTree H order caches block tree = (do
          let caches ← caches.storeAccountTreeCache block internals
          return (tree', caches)) := by
    intro tree htree hholds
    obtain ⟨hash, tree', hroot, htree', hcache⟩ := ActsAs.hashed order htree hat
    have hholds' : ∀ id, (accountAt H tree' id).Shows 0
        ((accounts.lookup id).getD Account.default) := by
      intro id
      rw [accountAt_of_items (SparseMerkleTree.items_of_rootHash hroot)]
      exact hholds id
    refine ⟨tree', _, ⟨htree', holds_congr hsame hholds'⟩, hcache, ?_⟩
    unfold WitnessGenerator.storeTree
    rw [hroot]
    rfl
  unfold TreeCaches.getAccountTreeCache
  cases hnewest : caches.newest with
  | none =>
    obtain ⟨tree', internals, htree', hcache, hstored⟩ := hstore tree htree hholds
    exact ⟨tree', internals, htree', hcache, hstored⟩
  | some row =>
    obtain ⟨hpos, hle, hcache⟩ := hcaches row (TreeCaches.mem_of_newest hnewest).1
    have hnumber : (UInt32.ofNat row.block).toNat = row.block :=
      UInt32.toNat_ofNat_of_lt' (Nat.lt_of_le_of_lt hle hσ.tabled.lt)
    obtain ⟨restored, hset, hrestored⟩ := htree.setInternals hcache
    have hkept : ∀ id, (accountAt H restored id).Shows 0
        ((accounts.lookup id).getD Account.default) := by
      intro id
      rw [accountAt_of_items (SparseMerkleTree.items_of_setInternals hset)]
      exact hholds id
    simp only [Option.map_some, hset, Outcome.ok_bind]
    by_cases heq : row.block = block.toNat
    · have hnumbers : block = UInt32.ofNat row.block := by rw [heq, UInt32.ofNat_toNat]
      rw [heq] at hrestored hcache
      refine ⟨restored, row.treeCache, ⟨hrestored, holds_congr hsame hkept⟩, hcache, ?_⟩
      rw [if_neg (not_not.mpr hnumbers), if_pos (congrArg some heq)]
      rfl
    · have hne : block ≠ UInt32.ofNat row.block := by
        intro hsame
        rw [hsame, hnumber] at heq
        exact heq rfl
      rw [← hnumber] at hle hrestored
      obtain ⟨updated, hupdated, hacts⟩ := hσ.updated hfit hblock hle
        (congrArg Prod.snd haccounts) hrestored
      have hwritten : ∀ e ∈ WitnessGenerator.updatedItems accounts
          (WitnessGenerator.updatedAccounts σ.db block (UInt32.ofNat row.block)),
          e.2 = (accounts.lookup e.1).getD Account.default := fun e he =>
        (WitnessGenerator.mem_updatedItems.mp he).2
      have hfits : ∀ e ∈ WitnessGenerator.updatedItems accounts
          (WitnessGenerator.updatedAccounts σ.db block (UInt32.ofNat row.block)), e.2.Fits := by
        intro e he
        rw [hwritten e he]
        exact fits_getD (hloaded e.1)
      obtain ⟨tree', internals, htree', hcache', hstored⟩ := hstore updated hacts
        (insertAccounts_holds (m := fun id => (accounts.lookup id).getD Account.default) hfits
          hwritten hkept hupdated)
      refine ⟨tree', internals, htree', hcache', ?_⟩
      rw [if_pos hne, if_neg fun h => heq (Option.some.inj h), hupdated, Outcome.ok_bind, hstored]

/-! ### The root hash -/

/-- A tree of bits has the hashes of the tree of items. -/
theorem treeHash_bitsParams {T Hash : Type} (P : TreeParams T Hash) (leaf : Nat → T)
    (height index : Nat) : treeHash (bitsParams P) (fun i => P.getBitsLe (leaf i)) height index =
      treeHash P leaf height index := by
  induction height generalizing index with
  | zero => rfl
  | succ height ih =>
    rw [treeHash, treeHash, ih, ih]
    rfl

/-- The root hash of a tree that acts as the accounts is that of the accounts. -/
theorem ActsAs.root_eq (h : ActsAsAccounts H accounts tree) :
    Prod.fst <$> tree.rootHash (circuitParams H) =
      Ledger.root H (fun id => accounts.lookup id) := by
  have hparams : bitsParams (circuitParams H) = bitsParams (accountParams H) := rfl
  rw [h.rootHash_eq, hparams]
  unfold Ledger.root
  rw [← treeHash_bitsParams (accountParams H)]
  refine treeHash_bits accountTreeDepth 0 fun i hi => ?_
  have hlt : i < UInt32.size := by
    unfold accountTreeDepth at hi
    exact (Nat.div_eq_zero_iff_lt (by decide)).mp hi
  show accountBits H accounts i = _
  unfold accountBits
  rw [if_pos hlt]
  rfl

/-- The stored root hash of the block is that of the accounts after it; the genesis block
has none. -/
def RootStored (H : Hasher Fr) (σ : KeptDb) (block : BlockNumber) : Prop :=
  block = 0 ∨ ∃ row, σ.db.blocks.find block.toNat = some row ∧
    Ledger.root H (fun id => (σ.history.accountsAt block.toNat).lookup id) = .ok row.rootHash

/-- What `checkRootHash` lets through. -/
theorem checkRootHash_eq_ok
    (h : TreeOf H (σ.history.accountsAt block.toNat) tree) :
    ((∃ tree', WitnessGenerator.checkRootHash H σ.db block tree = .ok tree') ↔
      RootStored H σ block) ∧
    ∀ tree', WitnessGenerator.checkRootHash H σ.db block tree = .ok tree' →
      TreeOf H (σ.history.accountsAt block.toNat) tree' := by
  have hroot := ActsAs.root_eq h.acts
  unfold WitnessGenerator.checkRootHash RootStored
  by_cases hzero : block = 0
  · rw [if_neg (not_not.mpr hzero)]
    refine ⟨⟨fun _ => Or.inl hzero, fun _ => ⟨tree, rfl⟩⟩, fun tree' htree' => ?_⟩
    cases htree'
    exact h
  rw [if_pos hzero]
  simp only [Outcome.bind_eq_ok, Outcome.expect_eq_ok, Outcome.assert_eq_ok]
  refine ⟨⟨?_, ?_⟩, ?_⟩
  · rintro ⟨tree', row, hrow, ⟨hash, tree₁⟩, hhash, _, heq, -⟩
    rw [hhash] at hroot
    exact Or.inr ⟨row, hrow, hroot.symm.trans (congrArg Except.ok heq.symm)⟩
  · intro hstored
    obtain ⟨row, hrow, hledger⟩ := hstored.resolve_left hzero
    obtain ⟨⟨hash, tree₁⟩, hhash, heq⟩ := Outcome.map_eq_ok.mp (hroot.trans hledger)
    exact ⟨tree₁, row, hrow, (hash, tree₁), hhash, (), heq.symm, rfl⟩
  · rintro tree' ⟨row, -, ⟨hash, tree₁⟩, hhash, _, -, htree'⟩
    cases htree'
    refine ⟨(h.acts.rootHash hhash).1, fun id => ?_⟩
    rw [accountAt_of_items (SparseMerkleTree.items_of_rootHash hhash)]
    exact h.holds id

end Restore

/-! ## The state keeper's cache -/

section Keeper

/-- The rows of a numbered log behind the last one that is used are empty. -/
theorem flatten_drop_of_max {α : Type} {n m : Nat} (segments : List (List α))
    (h : ((numbered n segments).map Entry.segment).max? = some m) :
    n ≤ m ∧ m < n + segments.length ∧ (segments.drop (m - n + 1)).flatten = [] := by
  induction segments using List.reverseRecOn with
  | nil => cases h
  | append_singleton segments items ih =>
    rw [List.length_append, List.length_singleton]
    by_cases hitems : items = []
    · rw [hitems, numbered_append_nil] at h
      obtain ⟨hn, hm, hrest⟩ := ih h
      refine ⟨hn, by omega, ?_⟩
      rw [hitems, List.drop_append_of_le_length (by omega), List.flatten_append, hrest]
      rfl
    · rw [max?_numbered hitems] at h
      obtain rfl := Option.some.inj h
      refine ⟨Nat.le_add_right _ _, by omega, ?_⟩
      rw [List.drop_eq_nil_of_le (by rw [List.length_append, List.length_singleton]; omega)]
      rfl

variable {H : Hasher Fr} {σ : KeptDb} {b number : BlockNumber} {accounts : AccountMap}

/-- The block that a committed state is said to be of may be an earlier one than was asked
for; no account was updated since. -/
theorem KeptOk.loadCommittedState_block (hσ : KeptOk σ) (hb : b.toNat ≤ σ.history.lastBlock)
    (hload : σ.db.loadCommittedState (some b) = (number, accounts)) :
    number.toNat ≤ σ.history.lastBlock ∧ ∀ id, Option.Rel Account.Equiv (accounts.lookup id)
      ((σ.history.accountsAt number.toNat).lookup id) := by
  have hsame := fun id => hσ.loaded_same hb id
  rw [hload] at hsame
  have hverified := hσ.tabled.toNat_verified
  have hstored : σ.db.loadVerifiedState =
      (UInt32.ofNat σ.history.verified, σ.history.accountsAt σ.history.verified) := by
    unfold Db.loadVerifiedState
    rw [hσ.tabled.getLastVerifiedBlock, hσ.tabled.accounts]
  cases hdiff : σ.db.loadStateDiff (UInt32.ofNat σ.history.verified) (some b) with
  | none =>
    rw [Db.loadCommittedState_of_none hstored hdiff] at hload
    cases hload
    rw [hverified]
    refine ⟨hσ.tabled.verified, fun id => ?_⟩
    exact Ledger.sameAs_refl (fun id => (σ.history.accountsAt σ.history.verified).lookup id) id
  | some diff =>
    obtain ⟨reached, us⟩ := diff
    have hnumber : reached = number := by
      unfold Db.loadCommittedState at hload
      rw [hstored] at hload
      dsimp only at hload
      rw [hdiff] at hload
      exact congrArg Prod.fst hload
    subst hnumber
    by_cases hvb : UInt32.ofNat σ.history.verified ≤ b
    · rw [Db.loadStateDiff_forward hσ.tabled.updates hvb] at hdiff
      obtain ⟨hne, hdiff⟩ := Option.ite_none_right_eq_some.mp hdiff
      have hreached := (Prod.mk.inj (Option.some.inj hdiff)).1
      generalize hsegments : (σ.history.segments.take (b.toNat + 1)).drop
        ((UInt32.ofNat σ.history.verified).toNat + 1) = segments at hne hreached
      cases hmax : ((numbered ((UInt32.ofNat σ.history.verified).toNat + 1) segments).map
          Entry.segment).max? with
      | none =>
        rw [List.max?_eq_none_iff, List.map_eq_nil_iff] at hmax
        have hnil := congrArg (List.map Entry.item) hmax
        rw [map_item_numbered] at hnil
        exact absurd hnil hne
      | some m =>
        obtain ⟨hlow, hup, hrest⟩ := flatten_drop_of_max segments hmax
        rw [hmax, Option.getD_some] at hreached
        rw [← hsegments, List.length_drop, List.length_take] at hup
        have hmb : m ≤ b.toNat := by omega
        have hm : (UInt32.ofNat m).toNat = m :=
          UInt32.toNat_ofNat_of_lt' (Nat.lt_of_le_of_lt (hmb.trans hb) hσ.tabled.lt)
        rw [← hreached, hm]
        refine ⟨hmb.trans hb, fun id => ?_⟩
        have hnone : σ.history.between m b.toNat = [] := by
          unfold History.between
          rw [← hsegments, List.drop_drop] at hrest
          convert hrest using 3
          omega
        have hid : id ∉ (σ.history.between m b.toNat).map Prod.fst := by
          rw [hnone]
          exact List.not_mem_nil
        rw [← History.lookup_accountsAt hmb hb hid]
        exact hsame id
    · rw [loadStateDiff_backward hvb hdiff]
      exact ⟨hb, hsame⟩

end Keeper

end ZkSync
