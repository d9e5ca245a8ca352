import Mathlib.Data.ZMod.Defs
import ZkSync.Crypto.SmtHash
import ZkSync.Types.Account

/-!
# The bits of an account

An account enters the state tree through its bits (`GetBits for Account`): it
is turned into a `CircuitAccount`, whose balances are the items of a sparse
Merkle tree of depth 11, and the bits are those of the nonce, the public key
hash, the address and the state root over that tree.

Turning an account into a circuit account inserts every stored balance, zeros
included, and the balance tree asserts that the token has a leaf. So an account
with a balance entry — even an explicit zero — for a token from 2048 on has no
bits: taking them panics (`getBitsLe_of_not_fits`). For the others the bits
depend on the account up to explicit zero balances only (`getBitsLe_congr`).

A hash table is iterated in an order of its own; the model inserts the balances
in the order of their tokens, and by `rootHash_eq` the root depends on no order.
-/

namespace ZkSync

open HeapIndex Smt

/-! ## Field elements -/

/-- The order of the scalar field of BN254. -/
def FR_MODULUS : Nat :=
  21888242871839275222246405745257275088548364400416034343698204186575808495617

instance : NeZero FR_MODULUS := ⟨by decide⟩

/-- Field elements of the state hashes. -/
abbrev Fr := Fin FR_MODULUS

/-- `Fr::from_str` of a decimal numeral. -/
def Fr.fromNat (n : Nat) : Fr := Fin.ofNat FR_MODULUS n

/-- `get_bits_le_fixed`: the lowest `n` bits, the lowest first. -/
def Fr.getBitsLeFixed (x : Fr) (n : Nat) : List Bool :=
  (List.range n).map fun i => x.val.testBit i

/-! ## Circuit accounts -/

def accountTreeDepth : Nat := 32
def balanceTreeDepth : Nat := 11

/-- Items of the balance tree: the value of a `Balance`, and its 128 bits. -/
def balanceParams (H : Hasher Fr) : TreeParams Fr Fr where
  hasher := H
  default := Fr.fromNat 0
  getBitsLe value := .ok (value.getBitsLeFixed 128)
  defaultBits := (Fr.fromNat 0).getBitsLeFixed 128
  getBitsLe_default := rfl

structure CircuitAccount where
  subtree : SparseMerkleTree Fr Fr
  nonce : Fr
  pubKeyHash : Fr
  address : Fr

namespace CircuitAccount

def default (H : Hasher Fr) : CircuitAccount where
  subtree := SparseMerkleTree.new (balanceParams H) balanceTreeDepth (by decide)
  nonce := Fr.fromNat 0
  pubKeyHash := Fr.fromNat 0
  address := Fr.fromNat 0

/-- The hash over the balance root and the unused second subtree. -/
def getStateRoot (H : Hasher Fr) (a : CircuitAccount) : Outcome Fr := do
  let (balanceRoot, _) ← SparseMerkleTree.rootHash (balanceParams H) a.subtree
  return H.hashElements [balanceRoot, Fr.fromNat 0]

/-- The leaf content; the state root takes 254 bits, padded to 256. -/
def getBitsLe (H : Hasher Fr) (a : CircuitAccount) : Outcome (List Bool) := do
  let stateRoot ← a.getStateRoot H
  return a.nonce.getBitsLeFixed 32 ++ a.pubKeyHash.getBitsLeFixed 160 ++
    a.address.getBitsLeFixed 160 ++ (stateRoot.getBitsLeFixed 254 ++ [false, false])

end CircuitAccount

namespace Account

/-- The stored balances in the order of their tokens. -/
@[irreducible] def balanceEntries (a : Account) : List (Nat × Fr) :=
  (List.range UInt16.size).filterMap fun token =>
    (a.balances.lookup (UInt16.ofNat token)).map fun balance => (token, Fr.fromNat balance)

/-- `subtree.insert` of every entry of a list. -/
def insertBalances (t : SparseMerkleTree Fr Fr) (entries : List (Nat × Fr)) :
    Outcome (SparseMerkleTree Fr Fr) :=
  match entries with
  | [] => .ok t
  | (token, value) :: entries => do
    let t ← t.insert token value
    insertBalances t entries

/-- `From<Account> for CircuitAccount`. -/
def toCircuitAccount (H : Hasher Fr) (a : Account) : Outcome CircuitAccount := do
  let circuitAccount := CircuitAccount.default H
  let subtree ← insertBalances circuitAccount.subtree a.balanceEntries
  return {
    subtree := subtree
    nonce := Fr.fromNat a.nonce.toNat
    pubKeyHash := Fr.fromNat a.pubKeyHash.toNat
    address := Fr.fromNat a.address.toNat }

def getBitsLe (H : Hasher Fr) (a : Account) : Outcome (List Bool) := do
  let circuitAccount ← a.toCircuitAccount H
  circuitAccount.getBitsLe H

/-- Every stored balance has a leaf in the balance tree. -/
def Fits (a : Account) : Prop := ∀ token, token ∈ a.balances → token.toNat < 2 ^ balanceTreeDepth

/-! ## Inserting the balances -/

theorem insertBalances_ok (H : Hasher Fr) : ∀ (entries : List (Nat × Fr))
    (t : SparseMerkleTree Fr Fr), t.TreeOk → SparseMerkleTree.HashOk (balanceParams H) t →
    (∀ e ∈ entries, e.1 < t.capacity) →
    ∃ t', insertBalances t entries = .ok t' ∧ t'.TreeOk ∧
      SparseMerkleTree.HashOk (balanceParams H) t' ∧ t'.treeDepth = t.treeDepth ∧
      t'.items = entries.foldl (fun items (token, value) => items.insert token value) t.items := by
  intro entries
  induction entries with
  | nil => exact fun t ht hh _ => ⟨t, rfl, ht, hh, rfl, rfl⟩
  | cons e entries ih =>
    intro t ht hh hall
    obtain ⟨token, value⟩ := e
    have htok : token < t.capacity := hall (token, value) List.mem_cons_self
    obtain ⟨t₁, h1, h2, h3, h4, -, -⟩ := SparseMerkleTree.insert_ok ht htok value
    have hcap : t₁.capacity = t.capacity := by
      unfold SparseMerkleTree.capacity
      rw [h4]
    obtain ⟨t', h1', h2', h3', h4', h5'⟩ := ih t₁ h2 (SparseMerkleTree.hashOk_insert ht hh htok h1)
      fun e he => by
        rw [hcap]
        exact hall e (List.mem_cons_of_mem _ he)
    refine ⟨t', ?_, h2', h3', by rw [h4', h4], ?_⟩
    · rw [insertBalances, h1]
      exact h1'
    · rw [h5', h3]
      rfl

theorem insertBalances_panics : ∀ (entries : List (Nat × Fr))
    (t : SparseMerkleTree Fr Fr), t.TreeOk → (∃ e ∈ entries, t.capacity ≤ e.1) →
    insertBalances t entries =
      .error (.panic "assertion failed: item_index < self.capacity()") := by
  intro entries
  induction entries with
  | nil =>
    rintro t - ⟨e, he, -⟩
    exact absurd he List.not_mem_nil
  | cons e entries ih =>
    intro t ht hex
    obtain ⟨token, value⟩ := e
    rw [insertBalances]
    by_cases htok : token < t.capacity
    · obtain ⟨t₁, h1, h2, -, h4, -, -⟩ := SparseMerkleTree.insert_ok ht htok value
      have hcap : t₁.capacity = t.capacity := by
        unfold SparseMerkleTree.capacity
        rw [h4]
      rw [h1, Outcome.ok_bind]
      refine ih t₁ h2 ?_
      obtain ⟨e, he, hle⟩ := hex
      rcases List.mem_cons.mp he with rfl | he
      · exact absurd htok (Nat.not_lt_of_le hle)
      · exact ⟨e, he, by rw [hcap]; exact hle⟩
    · unfold SparseMerkleTree.insert Outcome.assert
      rw [if_neg htok]
      rfl

theorem lookup_foldl_entries (f : Nat → Option Fr) : ∀ (ks : List Nat)
    (items : Finmap fun _ : Nat => Fr) (i : Nat),
    ((ks.filterMap fun k => (f k).map fun v => (k, v)).foldl
      (fun items (token, value) => items.insert token value) items).lookup i =
      if i ∈ ks ∧ (f i).isSome then f i else items.lookup i := by
  intro ks
  induction ks with
  | nil => exact fun items i => by rw [if_neg (fun h => absurd h.1 List.not_mem_nil)]; rfl
  | cons k ks ih =>
    intro items i
    cases hk : f k with
    | none =>
      rw [List.filterMap_cons, hk, Option.map_none]
      refine (ih items i).trans ?_
      by_cases hik : i = k
      · subst hik
        rw [hk, if_neg (by simp), if_neg (by simp)]
      · simp [hik]
    | some v =>
      rw [List.filterMap_cons, hk, Option.map_some, List.foldl_cons]
      refine (ih (items.insert k v) i).trans ?_
      rw [Finmap.lookup_insert_if]
      by_cases hik : i = k
      · subst hik
        simp [hk]
      · simp [hik]

/-- The items of the balance tree of an account. -/
theorem lookup_balanceItems (a : Account) {i : Nat} (hi : i < UInt16.size) :
    (a.balanceEntries.foldl (fun items (token, value) => items.insert token value)
      (∅ : Finmap fun _ : Nat => Fr)).lookup i =
      (a.balances.lookup (UInt16.ofNat i)).map Fr.fromNat := by
  have hentries : a.balanceEntries = (List.range UInt16.size).filterMap fun k =>
      ((a.balances.lookup (UInt16.ofNat k)).map Fr.fromNat).map fun v => (k, v) := by
    unfold balanceEntries
    simp only [Option.map_map]
    rfl
  rw [hentries, lookup_foldl_entries]
  split
  next => rfl
  next hn =>
    have hnone : (a.balances.lookup (UInt16.ofNat i)).map Fr.fromNat = none := by
      rw [← Option.not_isSome_iff_eq_none]
      exact fun hs => hn ⟨List.mem_range.mpr hi, hs⟩
    rw [hnone]
    rfl

theorem mem_balanceEntries {a : Account} {e : Nat × Fr} (h : e ∈ a.balanceEntries) :
    e.1 < UInt16.size ∧ UInt16.ofNat e.1 ∈ a.balances := by
  unfold balanceEntries at h
  obtain ⟨k, hk, he⟩ := List.mem_filterMap.mp h
  obtain ⟨b, hb, rfl⟩ := Option.map_eq_some_iff.mp he
  exact ⟨List.mem_range.mp hk, Finmap.mem_of_lookup_eq_some hb⟩

theorem exists_balanceEntry {a : Account} {token : TokenId} (h : token ∈ a.balances) :
    ∃ e ∈ a.balanceEntries, e.1 = token.toNat := by
  obtain ⟨b, hb⟩ := Finmap.mem_iff.mp h
  refine ⟨(token.toNat, Fr.fromNat b), ?_, rfl⟩
  unfold balanceEntries
  refine List.mem_filterMap.mpr ⟨token.toNat, ?_, ?_⟩
  · exact List.mem_range.mpr token.toNat_lt
  · rw [UInt16.ofNat_toNat, hb]
    rfl

/-! ## The bits -/

/-- An account with a balance entry outside the balance tree has no bits. -/
theorem getBitsLe_of_not_fits (H : Hasher Fr) {a : Account} (h : ¬ a.Fits) :
    a.getBitsLe H = .error (.panic "assertion failed: item_index < self.capacity()") := by
  obtain ⟨token, hnot⟩ := not_forall.mp h
  obtain ⟨hmem, hge⟩ := Classical.not_imp.mp hnot
  obtain ⟨e, he, hek⟩ := exists_balanceEntry hmem
  have hpanic : insertBalances (CircuitAccount.default H).subtree a.balanceEntries =
      .error (.panic "assertion failed: item_index < self.capacity()") :=
    insertBalances_panics a.balanceEntries _
      (SparseMerkleTree.treeOk_new (balanceParams H) balanceTreeDepth (by decide) (by decide))
      ⟨e, he, by rw [hek]; exact Nat.le_of_not_lt hge⟩
  unfold getBitsLe toCircuitAccount
  dsimp only
  rw [hpanic]
  rfl

/-- The items of the balance tree of an account. -/
def balanceItems (a : Account) : Finmap fun _ : Nat => Fr :=
  a.balanceEntries.foldl (fun items (token, value) => items.insert token value) ∅

/-- The bits of an account whose balances fit, read off the full balance tree. -/
theorem getBitsLe_of_fits (H : Hasher Fr) {a : Account} (h : a.Fits) :
    a.getBitsLe H = (do
      let balanceRoot ← SparseMerkleTree.fullRoot (balanceParams H) balanceTreeDepth a.balanceItems
      return (Fr.fromNat a.nonce.toNat).getBitsLeFixed 32 ++
        (Fr.fromNat a.pubKeyHash.toNat).getBitsLeFixed 160 ++
        (Fr.fromNat a.address.toNat).getBitsLeFixed 160 ++
        ((H.hashElements [balanceRoot, Fr.fromNat 0]).getBitsLeFixed 254 ++ [false, false])) := by
  obtain ⟨t, h1, h2, h3, h4, h5⟩ := insertBalances_ok H a.balanceEntries
    (CircuitAccount.default H).subtree
    (SparseMerkleTree.treeOk_new (balanceParams H) balanceTreeDepth (by decide) (by decide))
    (SparseMerkleTree.hashOk_new (balanceParams H) balanceTreeDepth (by decide)) fun e he => by
      obtain ⟨hlt, hmem⟩ := mem_balanceEntries he
      have := h _ hmem
      rw [UInt16.toNat_ofNat_of_lt' hlt] at this
      exact this
  have h4' : t.treeDepth = balanceTreeDepth := h4
  have h5' : t.items = a.balanceItems := h5
  have hroot := SparseMerkleTree.rootHash_eq h2 h3
  rw [h4', h5'] at hroot
  rw [← hroot]
  unfold getBitsLe toCircuitAccount
  dsimp only
  rw [h1]
  simp only [Outcome.ok_bind, Outcome.pure_eq]
  unfold CircuitAccount.getBitsLe CircuitAccount.getStateRoot
  dsimp only
  cases SparseMerkleTree.rootHash (balanceParams H) t with
  | error e => simp only [Outcome.error_bind, Outcome.map_error]
  | ok r => simp only [Outcome.ok_bind, Outcome.map_ok, Outcome.pure_eq]

/-- The leaves of the balance tree hold the balances. -/
theorem leafHash_balance (H : Hasher Fr) (a : Account) {leaf : Nat}
    (hleaf : InLevel balanceTreeDepth leaf) :
    SparseMerkleTree.leafHash (balanceParams H)
      (a.balanceItems.lookup (leaf - 2 ^ balanceTreeDepth)) =
    .ok (H.hashBits ((Fr.fromNat
      (a.getBalance (UInt16.ofNat (leaf - 2 ^ balanceTreeDepth)))).getBitsLeFixed 128)) := by
  have hlt : leaf - 2 ^ balanceTreeDepth < UInt16.size := by
    have := hleaf.2
    unfold balanceTreeDepth at this ⊢
    exact Nat.lt_of_le_of_lt (Nat.sub_le _ _) (Nat.lt_of_lt_of_le this (by decide))
  unfold balanceItems getBalance
  rw [lookup_balanceItems a hlt]
  cases a.balances.lookup (UInt16.ofNat (leaf - 2 ^ balanceTreeDepth)) with
  | none => rfl
  | some b => rfl

/-- Fitting accounts that are equal up to explicit zero balances have the same
bits. -/
theorem getBitsLe_congr (H : Hasher Fr) {a b : Account} (h : a.Equiv b)
    (hfits : a.Fits ↔ b.Fits) : a.getBitsLe H = b.getBitsLe H := by
  by_cases ha : a.Fits
  · have hroots : SparseMerkleTree.fullRoot (balanceParams H) balanceTreeDepth a.balanceItems =
        SparseMerkleTree.fullRoot (balanceParams H) balanceTreeDepth b.balanceItems := by
      refine SparseMerkleTree.subtreeHash_congr _ 1 (Nat.le_refl _)
        (by rw [Nat.sub_self]; exact inLevel_zero.mpr rfl) fun leaf hleaf _ => ?_
      rw [leafHash_balance H a hleaf, leafHash_balance H b hleaf, h.balance]
    rw [getBitsLe_of_fits H ha, getBitsLe_of_fits H (hfits.mp ha), hroots, h.nonce, h.pubKeyHash,
      h.address]
  · rw [getBitsLe_of_not_fits H ha, getBitsLe_of_not_fits H (fun hb => ha (hfits.mpr hb))]

end Account

/-! ## The account tree's items -/

/-- The default account, an empty leaf, has bits. -/
theorem getBitsLe_default (H : Hasher Fr) : ∃ bits, Account.default.getBitsLe H = .ok bits := by
  have hfits : Account.default.Fits := fun token h => absurd h Finmap.notMem_empty
  have hempty : SparseMerkleTree.fullRoot (balanceParams H) balanceTreeDepth
      Account.default.balanceItems =
      .ok (SparseMerkleTree.emptyHash (balanceParams H) balanceTreeDepth) := by
    refine SparseMerkleTree.subtreeHash_empty _ 1 (Nat.le_refl _)
      (by rw [Nat.sub_self]; exact inLevel_zero.mpr rfl) fun leaf _ _ => ?_
    rw [Finmap.lookup_eq_none]
    intro hmem
    have hnil : Account.default.balanceEntries = [] := by
      rw [List.eq_nil_iff_forall_not_mem]
      exact fun e he => absurd (Account.mem_balanceEntries he).2 Finmap.notMem_empty
    unfold Account.balanceItems at hmem
    rw [hnil] at hmem
    exact Finmap.notMem_empty hmem
  rw [Account.getBitsLe_of_fits H hfits, hempty]
  exact ⟨_, rfl⟩

/-- The bits of the default account. -/
def defaultAccountBits (H : Hasher Fr) : List Bool :=
  (Account.default.getBitsLe H).toOption.getD []

/-- Items of the account tree. -/
def accountParams (H : Hasher Fr) : TreeParams Account Fr where
  hasher := H
  default := Account.default
  getBitsLe := Account.getBitsLe H
  defaultBits := defaultAccountBits H
  getBitsLe_default := by
    obtain ⟨bits, h⟩ := getBitsLe_default H
    unfold defaultAccountBits
    rw [h]
    rfl

end ZkSync
