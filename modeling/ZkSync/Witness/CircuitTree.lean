import Mathlib.Data.List.AList
import ZkSync.Core.Hashable
import ZkSync.Crypto.SmtBacked

/-!
# The circuit's account tree

`zksync_crypto::circuit::account` and `zksync_circuit::witness::utils`: the tree of
circuit accounts from which the witness of a block is built. It is a second copy of the
server's account tree, with field elements for balances and nonces.
`applyLeafOperation` is its only write: take the leaf out, change the account and one
balance, put it back. Audit paths and the roots in between are not modelled.

`Shows` says that a circuit account has the content of an account. Explicit zeros and
default leaves make no difference, and a nonce that was incremented past the last `u32`
shows the wrapped one: the leaf has 32 bits of it. A tree that shows the accounts of a
state has its root hash (`root_of_shows`).
-/

namespace ZkSync

open HeapIndex Smt SparseMerkleTree

/-! ## The tree -/

theorem balanceEntries_default : Account.default.balanceEntries = [] := by
  rw [List.eq_nil_iff_forall_not_mem]
  intro e he
  exact absurd (Account.mem_balanceEntries he).2 Finmap.notMem_empty

/-- The empty account of the server is that of the circuit. -/
theorem toCircuitAccount_default (H : Hasher Fr) :
    Account.default.toCircuitAccount H = .ok (CircuitAccount.default H) := by
  unfold Account.toCircuitAccount
  rw [balanceEntries_default]
  rfl

/-- Its bits are those the tree is built with. -/
theorem getBitsLe_circuitDefault (H : Hasher Fr) :
    (CircuitAccount.default H).getBitsLe H = .ok (defaultAccountBits H) := by
  have h := (accountParams H).getBitsLe_default
  have hbits : Account.default.getBitsLe H = .ok (defaultAccountBits H) := h
  unfold Account.getBitsLe at hbits
  rw [toCircuitAccount_default, Outcome.ok_bind] at hbits
  exact hbits

/-- Items of the circuit's account tree. -/
def circuitParams (H : Hasher Fr) : TreeParams CircuitAccount Fr where
  hasher := H
  default := CircuitAccount.default H
  getBitsLe := CircuitAccount.getBitsLe H
  defaultBits := defaultAccountBits H
  getBitsLe_default := getBitsLe_circuitDefault H

/-- The tree of the witness generator. -/
abbrev CircuitAccountTree := SparseMerkleTree CircuitAccount Fr

/-! ## Writing a leaf -/

/-- What the circuit is shown of an account. -/
structure AccountWitness where
  nonce : Fr
  pubKeyHash : Fr
  address : Fr
  deriving DecidableEq

def AccountWitness.fromCircuitAccount (a : CircuitAccount) : AccountWitness :=
  ⟨a.nonce, a.pubKeyHash, a.address⟩

/-- What `apply_leaf_operation` returns. -/
structure LeafOperation where
  accountWitnessBefore : AccountWitness
  accountWitnessAfter : AccountWitness
  balanceBefore : Fr
  balanceAfter : Fr

/-- `apply_leaf_operation`: an account and one of its balances change, and are read before and
behind it. -/
def applyLeafOperation (H : Hasher Fr) (tree : CircuitAccountTree) (accountAddress : AccountId)
    (token : TokenId) (fa : CircuitAccount → Outcome CircuitAccount) (fb : Fr → Fr) :
    Outcome (LeafOperation × CircuitAccountTree) := do
  let (removed, tree) ← tree.remove (CircuitAccount.default H) accountAddress.toNat
  let account := removed.getD (CircuitAccount.default H)
  let accountWitnessBefore := AccountWitness.fromCircuitAccount account
  let (balance, subtree) ← account.subtree.remove (Fr.fromNat 0) token.toNat
  let balanceBefore := balance.getD (Fr.fromNat 0)
  let balanceAfter := fb balanceBefore
  let subtree ← subtree.insert token.toNat balanceAfter
  let account ← fa { account with subtree := subtree }
  let accountWitnessAfter := AccountWitness.fromCircuitAccount account
  let tree ← tree.insert accountAddress.toNat account
  return (⟨accountWitnessBefore, accountWitnessAfter, balanceBefore, balanceAfter⟩, tree)

/-! ## Well-formed trees -/

/-- The value of a token; an empty leaf holds none. -/
def CircuitAccount.balance (c : CircuitAccount) (token : Nat) : Fr :=
  (c.subtree.get token).getD (Fr.fromNat 0)

/-- The balance tree of an account is well formed, and has the depth of the circuit. -/
structure CircuitAccount.Ok (H : Hasher Fr) (c : CircuitAccount) : Prop where
  treeOk : c.subtree.TreeOk
  hashed : c.subtree.HashOk (balanceParams H)
  depth : c.subtree.treeDepth = balanceTreeDepth

/-- The account at an id, the default one if there is none. -/
def accountAt (H : Hasher Fr) (tree : CircuitAccountTree) (id : AccountId) : CircuitAccount :=
  (tree.get id.toNat).getD (CircuitAccount.default H)

/-- The tree is well formed, and so is every account in it. -/
structure CircuitTreeOk (H : Hasher Fr) (tree : CircuitAccountTree) : Prop where
  treeOk : tree.TreeOk
  hashed : tree.HashOk (circuitParams H)
  depth : tree.treeDepth = accountTreeDepth
  accounts : ∀ id, (accountAt H tree id).Ok H

section Write

variable {T Hash : Type} {P : TreeParams T Hash} {t : SparseMerkleTree T Hash}

/-- Take an item out and put another in its place. -/
theorem remove_insert_ok (h : t.TreeOk) (hh : t.HashOk P) {i : Nat} (hi : i < t.capacity)
    (default item : T) : ∃ t₁ t₂, t.remove default i = .ok (t.get i, t₁) ∧
      t₁.insert i item = .ok t₂ ∧ t₂.TreeOk ∧ t₂.HashOk P ∧ t₂.treeDepth = t.treeDepth ∧
      ∀ j, t₂.get j = if j = i then some item else t.get j := by
  obtain ⟨t₁, h1, hok₁, hitems₁, hdepth₁, -, -⟩ := insert_ok h hi default
  have hcap : t₁.capacity = t.capacity := by
    unfold SparseMerkleTree.capacity
    rw [hdepth₁]
  have hi₁ : i < t₁.capacity := by rwa [hcap]
  obtain ⟨t₂, h2, hok₂, hitems₂, hdepth₂, -, -⟩ := insert_ok hok₁ hi₁ item
  have hh₁ := hashOk_insert h hh hi h1
  refine ⟨t₁, t₂, ?_, h2, hok₂, hashOk_insert hok₁ hh₁ hi₁ h2, hdepth₂.trans hdepth₁, fun j => ?_⟩
  · rw [remove_eq, h1]
    rfl
  · unfold SparseMerkleTree.get
    rw [hitems₂, Finmap.lookup_insert_if, hitems₁, Finmap.lookup_insert_if]
    split <;> rfl

end Write

section Leaf

variable {H : Hasher Fr} {tree : CircuitAccountTree} {token : TokenId}

/-- Every id has its leaf. -/
theorem id_lt_capacity (h : CircuitTreeOk H tree) (id : AccountId) : id.toNat < tree.capacity := by
  rw [h.treeOk.capacity_eq, h.depth]
  exact id.toNat_lt

theorem ok_circuitDefault (H : Hasher Fr) : (CircuitAccount.default H).Ok H where
  treeOk := treeOk_new (balanceParams H) balanceTreeDepth (by decide) (by decide)
  hashed := hashOk_new (balanceParams H) balanceTreeDepth (by decide)
  depth := rfl

/-- The account after one balance was written. -/
structure BalanceWritten (H : Hasher Fr) (c : CircuitAccount) (token : TokenId) (value : Fr)
    (c' : CircuitAccount) : Prop where
  ok : c'.Ok H
  balance : ∀ i, c'.balance i = if i = token.toNat then value else c.balance i

/-- A leaf operation takes the account of the tree, writes the balance, and passes the
account to `fa`; what it fails with is what `fa` fails with. -/
theorem applyLeafOperation_eq (h : CircuitTreeOk H tree) (id : AccountId)
    (fa : CircuitAccount → Outcome CircuitAccount) (fb : Fr → Fr) (htoken : HasLeaf token) :
    ∃ subtree, BalanceWritten H (accountAt H tree id) token (fb ((accountAt H tree id).balance token.toNat))
        { accountAt H tree id with subtree := subtree } ∧
      (∀ e, fa { accountAt H tree id with subtree := subtree } = .error e →
        applyLeafOperation H tree id token fa fb = .error e) ∧
      ∀ c', fa { accountAt H tree id with subtree := subtree } = .ok c' → c'.Ok H →
        ∃ tree', applyLeafOperation H tree id token fa fb = .ok (⟨
            AccountWitness.fromCircuitAccount (accountAt H tree id),
            AccountWitness.fromCircuitAccount c', (accountAt H tree id).balance token.toNat,
            fb ((accountAt H tree id).balance token.toNat)⟩, tree') ∧
          CircuitTreeOk H tree' ∧ (tree'.get id.toNat).isSome ∧
          (∀ j, (tree.get j).isSome → (tree'.get j).isSome) ∧
          ∀ j, accountAt H tree' j = if j = id then c' else accountAt H tree j := by
  have hc := h.accounts id
  have hlt : token.toNat < (accountAt H tree id).subtree.capacity := by
    rw [hc.treeOk.capacity_eq, hc.depth]
    exact htoken
  obtain ⟨s₁, s₂, hs₁, hs₂, hsok, hshash, hsdepth, hsget⟩ := remove_insert_ok hc.treeOk hc.hashed hlt
    (Fr.fromNat 0) (fb ((accountAt H tree id).balance token.toNat))
  refine ⟨s₂, ⟨⟨hsok, hshash, hsdepth.trans hc.depth⟩, fun i => ?_⟩, ?_, ?_⟩
  · unfold CircuitAccount.balance
    dsimp only
    rw [hsget]
    split <;> rfl
  · intro e he
    obtain ⟨t₁, t₂, ht₁, -⟩ := remove_insert_ok h.treeOk h.hashed (id_lt_capacity h id)
      (CircuitAccount.default H) (CircuitAccount.default H)
    unfold applyLeafOperation
    rw [ht₁, Outcome.ok_bind]
    dsimp only
    unfold CircuitAccount.balance at hs₂
    unfold accountAt at hs₁ hs₂ he
    rw [hs₁, Outcome.ok_bind]
    dsimp only
    rw [hs₂, Outcome.ok_bind, he]
    rfl
  · intro c' hfa hok'
    obtain ⟨t₁, t₂, ht₁, ht₂, htok, hthash, htdepth, htget⟩ := remove_insert_ok h.treeOk h.hashed
      (id_lt_capacity h id) (CircuitAccount.default H) c'
    have hat : ∀ j, accountAt H t₂ j = if j = id then c' else accountAt H tree j := by
      intro j
      unfold accountAt
      rw [htget]
      by_cases hj : j = id
      · rw [if_pos (by rw [hj]), if_pos hj]
        rfl
      · rw [if_neg fun he => hj (UInt32.toNat_inj.mp he), if_neg hj]
    refine ⟨t₂, ?_, ⟨htok, hthash, htdepth.trans h.depth, fun j => ?_⟩, ?_, fun j hj => ?_, hat⟩
    · unfold applyLeafOperation
      rw [ht₁, Outcome.ok_bind]
      dsimp only
      unfold CircuitAccount.balance at hs₂ ⊢
      unfold accountAt at hs₁ hs₂ hfa ⊢
      rw [hs₁, Outcome.ok_bind]
      dsimp only
      rw [hs₂, Outcome.ok_bind, hfa, Outcome.ok_bind, ht₂]
      rfl
    · rw [hat]
      split
      · exact hok'
      · exact h.accounts j
    · rw [htget, if_pos rfl]
      rfl
    · rw [htget]
      split
      · rfl
      · exact hj

end Leaf

/-! ## What a tree shows -/

/-- The circuit account has the content of the account; its nonce may have been
incremented past the last `u32`, `n` times at most. -/
structure CircuitAccount.Shows (n : Nat) (c : CircuitAccount) (a : Account) : Prop where
  nonce : c.nonce.val % 2 ^ 32 = a.nonce.toNat
  nonce_lt : c.nonce.val < 2 ^ 32 + n
  pubKeyHash : c.pubKeyHash = Fr.fromNat a.pubKeyHash.toNat
  address : c.address = Fr.fromNat a.address.toNat
  balance : ∀ token, HasLeaf token → c.balance token.toNat = Fr.fromNat (a.getBalance token)

/-- The accounts of a state; where there is none, the default one. -/
def ZkSyncState.content (s : ZkSyncState) (id : AccountId) : Account :=
  (s.getAccount id).getD Account.default

/-- The tree shows an account at every id. -/
structure TreeShows (H : Hasher Fr) (n : Nat) (tree : CircuitAccountTree)
    (m : AccountId → Account) : Prop where
  ok : CircuitTreeOk H tree
  accounts : ∀ id, (accountAt H tree id).Shows n (m id)

section Shows

variable {H : Hasher Fr} {n n' : Nat} {c : CircuitAccount} {a b : Account}
  {tree : CircuitAccountTree} {m m' : AccountId → Account}

/-- A nonce may be known to be smaller by more. -/
theorem CircuitAccount.Shows.mono (h : c.Shows n a) (hn : n ≤ n') : c.Shows n' a :=
  ⟨h.nonce, h.nonce_lt.trans_le (Nat.add_le_add_left hn _), h.pubKeyHash, h.address, h.balance⟩

/-- The order of the balances does not show. -/
theorem CircuitAccount.Shows.equiv (h : c.Shows n a) (he : a.Equiv b) : c.Shows n b where
  nonce := he.nonce ▸ h.nonce
  nonce_lt := h.nonce_lt
  pubKeyHash := he.pubKeyHash ▸ h.pubKeyHash
  address := he.address ▸ h.address
  balance token htoken := he.balance token ▸ h.balance token htoken

/-- Nor does it in the whole tree. -/
theorem TreeShows.equiv (h : TreeShows H n tree m) (he : ∀ id, (m id).Equiv (m' id)) :
    TreeShows H n tree m' :=
  ⟨h.ok, fun id => (h.accounts id).equiv (he id)⟩

/-- A balance written to both. -/
theorem CircuitAccount.Shows.written (h : c.Shows n a) {token : TokenId} {value : Fr}
    {amount : Nat} {subtree : SparseMerkleTree Fr Fr}
    (hw : BalanceWritten H c token value { c with subtree := subtree })
    (hvalue : value = Fr.fromNat amount) :
    CircuitAccount.Shows n { c with subtree := subtree } (a.setBalance token amount) where
  nonce := h.nonce
  nonce_lt := h.nonce_lt
  pubKeyHash := h.pubKeyHash
  address := h.address
  balance token' htoken' := by
    rw [hw.balance, Account.getBalance_setBalance]
    by_cases ht : token' = token
    · rw [if_pos (by rw [ht]), if_pos ht, hvalue]
    · rw [if_neg fun he => ht (UInt16.toNat_inj.mp he), if_neg ht]
      exact h.balance token' htoken'

/-- A leaf operation whose account function does to the circuit account what was done
to the account, once the balance is written. -/
theorem TreeShows.leafOperation (h : TreeShows H n tree m) (id : AccountId) {token : TokenId}
    (htoken : HasLeaf token) (hn : n ≤ n') (b : Account)
    (fa : CircuitAccount → Outcome CircuitAccount) (fb : Fr → Fr) {amount : Nat}
    (hfb : fb (Fr.fromNat ((m id).getBalance token)) = Fr.fromNat amount)
    (hfa : ∀ c : CircuitAccount, c.Ok H → c.Shows n ((m id).setBalance token amount) →
      ∃ c', fa c = .ok c' ∧ c'.Ok H ∧ c'.Shows n' b) :
    ∃ leaf tree', applyLeafOperation H tree id token fa fb = .ok (leaf, tree') ∧
      leaf.accountWitnessBefore = AccountWitness.fromCircuitAccount (accountAt H tree id) ∧
      TreeShows H n' tree' (Function.update m id b) ∧
      ∀ j, (tree.get j).isSome → (tree'.get j).isSome := by
  have hshows := h.accounts id
  obtain ⟨subtree, hw, -, hok⟩ := applyLeafOperation_eq h.ok id fa fb htoken
  obtain ⟨c', hc', hok', hshows'⟩ := hfa _ hw.ok (hshows.written hw (by
    rw [hshows.balance token htoken]
    exact hfb))
  obtain ⟨tree', happly, htree, -, hkeep, hat⟩ := hok c' hc' hok'
  refine ⟨_, tree', happly, rfl, ⟨htree, fun j => ?_⟩, hkeep⟩
  rw [hat]
  by_cases hj : j = id
  · rw [if_pos hj, hj, Function.update_self]
    exact hshows'
  · rw [if_neg hj, Function.update_of_ne hj]
    exact (h.accounts j).mono hn

end Shows

/-! ## Trees of accounts -/

/-- `insert(id, account.into())` for every account, as the witness generator loads them. -/
def insertAccounts (H : Hasher Fr) (tree : CircuitAccountTree) :
    List (Σ _ : AccountId, Account) → Outcome CircuitAccountTree
  | [] => .ok tree
  | ⟨id, account⟩ :: accounts => do
    let account ← account.toCircuitAccount H
    let tree ← tree.insert id.toNat account
    insertAccounts H tree accounts

theorem one_lt_accountTreeDepth : 1 < accountTreeDepth := by decide

/-- The tree of the accounts of a map. -/
def loadAccountTree (H : Hasher Fr) (accounts : AList fun _ : AccountId => Account) :
    Outcome CircuitAccountTree :=
  insertAccounts H (.new (circuitParams H) accountTreeDepth one_lt_accountTreeDepth) accounts.entries

section Load

variable {H : Hasher Fr} {n : Nat} {a : Account} {tree : CircuitAccountTree}
  {m : AccountId → Account}

/-- Numbers below the modulus come back. -/
theorem Fr.val_fromNat {m : Nat} (h : m < FR_MODULUS) : (Fr.fromNat m).val = m :=
  Nat.mod_eq_of_lt h

theorem u32_lt_modulus : 2 ^ 32 < FR_MODULUS := by decide

theorem val_u32 (n : UInt32) : (Fr.fromNat n.toNat).val = n.toNat :=
  Fr.val_fromNat (n.toNat_lt.trans u32_lt_modulus)

/-- An account whose balances have leaves is shown by what it is converted to. -/
theorem shows_toCircuitAccount (hfits : a.Fits) :
    ∃ c, a.toCircuitAccount H = .ok c ∧ c.Ok H ∧ c.Shows 0 a := by
  obtain ⟨t, hinsert, hok, hhash, hdepth, hitems⟩ := Account.insertBalances_ok H a.balanceEntries
    (CircuitAccount.default H).subtree (ok_circuitDefault H).treeOk (ok_circuitDefault H).hashed
    fun e he => by
      obtain ⟨hlt, hmem⟩ := Account.mem_balanceEntries he
      have := hfits _ hmem
      rwa [UInt16.toNat_ofNat_of_lt' hlt] at this
  refine ⟨{ subtree := t, nonce := Fr.fromNat a.nonce.toNat,
            pubKeyHash := Fr.fromNat a.pubKeyHash.toNat, address := Fr.fromNat a.address.toNat },
    ?_, ⟨hok, hhash, hdepth⟩, ?_⟩
  · unfold Account.toCircuitAccount
    dsimp only
    rw [hinsert]
    rfl
  · refine ⟨?_, ?_, rfl, rfl, fun token _ => ?_⟩
    · show (Fr.fromNat a.nonce.toNat).val % 2 ^ 32 = a.nonce.toNat
      rw [val_u32, Nat.mod_eq_of_lt a.nonce.toNat_lt]
    · show (Fr.fromNat a.nonce.toNat).val < 2 ^ 32 + 0
      rw [val_u32]
      exact a.nonce.toNat_lt
    · unfold CircuitAccount.balance SparseMerkleTree.get Account.getBalance
      dsimp only
      have hlookup := Account.lookup_balanceItems a token.toNat_lt
      have hempty : (CircuitAccount.default H).subtree.items = ∅ := rfl
      rw [hempty] at hitems
      rw [hitems, hlookup, UInt16.ofNat_toNat]
      exact Option.getD_map Fr.fromNat 0 _

/-- One account put into the tree. -/
theorem TreeShows.insert (h : TreeShows H n tree m) (id : AccountId) {c : CircuitAccount}
    (hc : c.Ok H) (hshows : c.Shows n a) : ∃ tree', tree.insert id.toNat c = .ok tree' ∧
      TreeShows H n tree' (Function.update m id a) ∧ (tree'.get id.toNat).isSome ∧
      ∀ j, (tree.get j).isSome → (tree'.get j).isSome := by
  have hlt := id_lt_capacity h.ok id
  obtain ⟨tree', hinsert, hok, hitems, hdepth, -, -⟩ := insert_ok h.ok.treeOk hlt c
  have hget : ∀ j, tree'.get j = if j = id.toNat then some c else tree.get j := by
    intro j
    unfold SparseMerkleTree.get
    rw [hitems, Finmap.lookup_insert_if]
  have hat : ∀ j, accountAt H tree' j = if j = id then c else accountAt H tree j := by
    intro j
    unfold accountAt
    rw [hget]
    by_cases hj : j = id
    · rw [if_pos (by rw [hj]), if_pos hj]
      rfl
    · rw [if_neg fun he => hj (UInt32.toNat_inj.mp he), if_neg hj]
  refine ⟨tree', hinsert, ⟨⟨hok, hashOk_insert h.ok.treeOk h.ok.hashed hlt hinsert,
    hdepth.trans h.ok.depth, fun j => ?_⟩, fun j => ?_⟩, ?_, fun j hj => ?_⟩
  · rw [hat]
    split
    · exact hc
    · exact h.ok.accounts j
  · rw [hat]
    by_cases hj : j = id
    · rw [if_pos hj, hj, Function.update_self]
      exact hshows
    · rw [if_neg hj, Function.update_of_ne hj]
      exact h.accounts j
  · rw [hget, if_pos rfl]
    rfl
  · rw [hget]
    split
    · rfl
    · exact hj

/-- A tree that was filled with accounts shows them. -/
theorem insertAccounts_shows {accounts : List (Σ _ : AccountId, Account)} (hkeys : accounts.NodupKeys)
    (hfits : ∀ e ∈ accounts, e.2.Fits) (h : TreeShows H n tree m) :
    ∃ tree', insertAccounts H tree accounts = .ok tree' ∧
      TreeShows H n tree' (fun id => (accounts.dlookup id).getD (m id)) ∧
      (∀ j, (tree.get j).isSome → (tree'.get j).isSome) ∧
      ∀ e ∈ accounts, (tree'.get e.1.toNat).isSome := by
  induction accounts generalizing tree m with
  | nil => exact ⟨tree, rfl, h, fun _ hj => hj, fun _ he => absurd he List.not_mem_nil⟩
  | cons e accounts ih =>
    obtain ⟨id, account⟩ := e
    obtain ⟨hnew, hkeys⟩ := List.nodupKeys_cons.mp hkeys
    obtain ⟨c, hc, hcok, hshows⟩ := shows_toCircuitAccount (H := H) (hfits _ List.mem_cons_self)
    obtain ⟨tree₁, hinsert, h₁, hsome, hkeep₁⟩ := h.insert id hcok (hshows.mono (Nat.zero_le n))
    obtain ⟨tree', hrest, h', hkeep, hall⟩ := ih hkeys
      (fun e he => hfits e (List.mem_cons_of_mem _ he)) h₁
    refine ⟨tree', ?_, ?_, fun j hj => hkeep j (hkeep₁ j hj), fun e he => ?_⟩
    · rw [insertAccounts, hc, Outcome.ok_bind, hinsert]
      exact hrest
    · convert h' using 2
      rename_i j
      by_cases hj : j = id
      · subst hj
        rw [List.dlookup_cons_eq, List.dlookup_eq_none.mpr hnew, Function.update_self]
        rfl
      · have hne : List.dlookup j (⟨id, account⟩ :: accounts) = List.dlookup j accounts :=
          List.dlookup_cons_ne _ _ hj
        rw [hne, Function.update_of_ne hj]
    · rcases List.mem_cons.mp he with rfl | he
      · exact hkeep _ hsome
      · exact hall e he

/-- The tree that is loaded shows the accounts, and has a leaf for each. -/
theorem loadAccountTree_shows {accounts : AList fun _ : AccountId => Account}
    (hfits : ∀ id a, accounts.lookup id = some a → a.Fits) :
    ∃ tree, loadAccountTree H accounts = .ok tree ∧
      TreeShows H 0 tree (fun id => (accounts.lookup id).getD Account.default) ∧
      ∀ id, (accounts.lookup id).isSome → (tree.get id.toNat).isSome := by
  obtain ⟨c, hc, hcok, hshows⟩ := shows_toCircuitAccount (H := H) (a := .default)
    fun _ h => absurd h Finmap.notMem_empty
  rw [toCircuitAccount_default] at hc
  cases hc
  have hnew : TreeShows H 0 (.new (circuitParams H) accountTreeDepth one_lt_accountTreeDepth)
      fun _ => Account.default :=
    ⟨⟨treeOk_new (circuitParams H) accountTreeDepth one_lt_accountTreeDepth (by decide),
      hashOk_new (circuitParams H) accountTreeDepth one_lt_accountTreeDepth, rfl, fun _ => hcok⟩,
      fun _ => hshows⟩
  obtain ⟨tree, hload, htree, -, hall⟩ := insertAccounts_shows accounts.nodupKeys (fun e he =>
    hfits e.1 e.2 (AList.mem_lookup_iff.mpr he)) hnew
  refine ⟨tree, hload, htree, fun id hid => ?_⟩
  obtain ⟨a, ha⟩ := Option.isSome_iff_exists.mp hid
  exact hall ⟨id, a⟩ (AList.mem_lookup_iff.mp ha)

end Load

section Root

variable {H : Hasher Fr} {n : Nat} {c : CircuitAccount} {a : Account} {tree : CircuitAccountTree}
  {s : ZkSyncState}

theorem CircuitAccount.Ok.getBitsLe_eq (h : c.Ok H) : c.getBitsLe H = (do
    let balanceRoot ← fullRoot (balanceParams H) balanceTreeDepth c.subtree.items
    return c.nonce.getBitsLeFixed 32 ++ c.pubKeyHash.getBitsLeFixed 160 ++
      c.address.getBitsLeFixed 160 ++
      ((H.hashElements [balanceRoot, Fr.fromNat 0]).getBitsLeFixed 254 ++ [false, false])) := by
  have hroot := rootHash_eq h.treeOk h.hashed
  rw [h.depth] at hroot
  rw [← hroot]
  unfold getBitsLe getStateRoot
  cases SparseMerkleTree.rootHash (balanceParams H) c.subtree with
  | error e => simp only [Outcome.error_bind, Outcome.map_error]
  | ok r => simp only [Outcome.ok_bind, Outcome.map_ok, Outcome.pure_eq]

/-- The leaf has the lowest 32 bits of the nonce. -/
theorem nonceBits_eq {nonce : Fr} {nonce' : Nonce} (h : nonce.val % 2 ^ 32 = nonce'.toNat) :
    nonce.getBitsLeFixed 32 = (Fr.fromNat nonce'.toNat).getBitsLeFixed 32 := by
  have hlt : nonce'.toNat < FR_MODULUS := nonce'.toNat_lt.trans u32_lt_modulus
  unfold Fr.getBitsLeFixed
  refine List.map_congr_left fun i hi => ?_
  rw [Fr.val_fromNat hlt, ← h, Nat.testBit_mod_two_pow, decide_eq_true (List.mem_range.mp hi),
    Bool.true_and]

/-- An account that is shown has the balance root of the server. -/
theorem balanceRoot_of_shows (h : c.Shows n a) :
    fullRoot (balanceParams H) balanceTreeDepth c.subtree.items =
      fullRoot (balanceParams H) balanceTreeDepth a.balanceItems := by
  refine subtreeHash_congr _ 1 (Nat.le_refl _) (by rw [Nat.sub_self]; exact inLevel_zero.mpr rfl)
    fun leaf hleaf _ => ?_
  rw [Account.leafHash_balance H a hleaf]
  have hlt : leaf - 2 ^ balanceTreeDepth < 2 ^ balanceTreeDepth := by
    have := hleaf.2
    rw [pow_succ] at this
    omega
  have hsize : leaf - 2 ^ balanceTreeDepth < UInt16.size := hlt.trans (by decide)
  have htoken : (UInt16.ofNat (leaf - 2 ^ balanceTreeDepth)).toNat = leaf - 2 ^ balanceTreeDepth :=
    UInt16.toNat_ofNat_of_lt' hsize
  have hbalance := h.balance (UInt16.ofNat (leaf - 2 ^ balanceTreeDepth)) (by
    unfold HasLeaf
    rwa [htoken])
  rw [htoken] at hbalance
  rw [← hbalance]
  rfl

/-- So it has the leaf hash of the server. -/
theorem leafHash_of_shows (hok : c.Ok H) (h : c.Shows n a) (hfits : a.Fits) :
    leafHash (circuitParams H) (some c) = leafHash (accountParams H) (some a) := by
  have hbits : c.getBitsLe H = a.getBitsLe H := by
    rw [hok.getBitsLe_eq, Account.getBitsLe_of_fits H hfits, balanceRoot_of_shows h,
      nonceBits_eq h.nonce, h.pubKeyHash, h.address]
  exact congrArg (· >>= fun bits => pure (H.hashBits bits)) hbits

/-- A missing leaf is hashed as the default one. -/
theorem leafHash_getD {T Hash : Type} (P : TreeParams T Hash) (item : Option T) :
    leafHash P (some (item.getD P.default)) = leafHash P item := by
  cases item <;> rfl

theorem fits_default : Account.default.Fits := fun _ h => absurd h Finmap.notMem_empty

/-- A tree that shows the accounts of a state has its root hash. -/
theorem root_of_shows (hs : Hashed H s) (hfit : AllFit s) (h : TreeShows H n tree s.content) :
    Prod.fst <$> SparseMerkleTree.rootHash (circuitParams H) tree = s.root H := by
  unfold ZkSyncState.root
  rw [rootHash_eq h.ok.treeOk h.ok.hashed, h.ok.depth, rootHash_eq_fullRoot hs]
  refine fullRoot_congr_params rfl fun i => ?_
  rw [← leafHash_getD (circuitParams H), ← leafHash_getD (accountParams H), AccountTree.lookup_items]
  by_cases hi : i < 2 ^ 32
  · have hid : (UInt32.ofNat i).toNat = i := UInt32.toNat_ofNat_of_lt' hi
    have hshows := h.accounts (UInt32.ofNat i)
    have hok := h.ok.accounts (UInt32.ofNat i)
    rw [if_pos hi]
    unfold accountAt SparseMerkleTree.get at hshows hok
    rw [hid] at hshows hok
    refine leafHash_of_shows hok hshows ?_
    change ((s.getAccount (UInt32.ofNat i)).getD Account.default).Fits
    cases ha : s.getAccount (UInt32.ofNat i) with
    | none => exact fits_default
    | some a => exact hfit _ a ha
  · have hnone : tree.items.lookup i = none := by
      rw [Finmap.lookup_eq_none]
      intro hmem
      have hlevel := h.ok.treeOk.inLevel_of_mem hmem
      rw [h.ok.depth] at hlevel
      have := hlevel.2
      unfold accountTreeDepth at this
      omega
    rw [if_neg hi, hnone, leafHash_getD, leafHash_getD, leafHash_none, leafHash_none]
    rfl

end Root

end ZkSync
