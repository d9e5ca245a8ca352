import ZkSync.Lib.Related
import ZkSync.State.Writes

/-!
# What the root hash sees

The items of the account tree are the accounts at their ids and nothing else
(`lookup_items`). So two states whose accounts agree up to explicit zeros, and
agree on which accounts have bits, have the same root hash (`rootHash_congr`);
and asking for the root hash panics exactly when some account holds a balance
entry that has no leaf in the balance tree (`rootHash_cases`).
-/

namespace ZkSync

/-- The failure of every account that has no bits. -/
def noLeaf : Failure := .panic "assertion failed: item_index < self.capacity()"

/-- The root hash without the state it comes back with. -/
def ZkSyncState.root (H : Hasher Fr) (s : ZkSyncState) : Outcome Fr := Prod.fst <$> s.rootHash H

namespace AccountTree

theorem lt_of_mem_items (t : AccountTree) {i : Nat} (h : i ∈ t.tree.items) : i < 2 ^ 32 := by
  obtain ⟨r, n, hn, hidx⟩ := (t.ok.leaves i).mp h
  obtain ⟨hle, hlev⟩ := t.ok.nodes.level r n hn
  rw [hidx, t.depth] at hlev
  rw [t.depth] at hle
  have hlt : 2 ^ accountTreeDepth + i < 2 ^ (accountTreeDepth + 1) :=
    lt_of_lt_of_le hlev.2 (Nat.pow_le_pow_right (by decide) (Nat.add_le_add_right hle 1))
  unfold accountTreeDepth at hlt
  omega

/-- The items are the accounts at their ids. -/
theorem lookup_items (t : AccountTree) (i : Nat) :
    t.tree.items.lookup i = if i < 2 ^ 32 then t.get (UInt32.ofNat i) else none := by
  split
  next h =>
    unfold get SparseMerkleTree.get
    rw [UInt32.toNat_ofNat_of_lt' h]
  next h => exact Finmap.lookup_eq_none.mpr fun hm => h (t.lt_of_mem_items hm)

theorem mem_items (t : AccountTree) (i : Nat) :
    i ∈ t.tree.items ↔ i < 2 ^ 32 ∧ (t.get (UInt32.ofNat i)).isSome := by
  rw [← Finmap.lookup_isSome, lookup_items]
  split
  next h => exact ⟨fun hs => ⟨h, hs⟩, fun hs => hs.2⟩
  next h => exact ⟨fun hs => absurd hs (by decide), fun hs => absurd hs.1 h⟩

end AccountTree

section Leaves

open SparseMerkleTree

/-- Balances can be hashed. -/
theorem exists_balanceRoot (H : Hasher Fr) (items : Finmap fun _ : Nat => Fr) :
    ∃ hash, fullRoot (balanceParams H) balanceTreeDepth items = .ok hash := by
  rcases fullRoot_cases (balanceParams H) balanceTreeDepth items (e := noLeaf)
    (fun _ => Or.inl ⟨_, rfl⟩) with ⟨h, -⟩ | ⟨-, i, -, h⟩
  · exact h
  · cases h

theorem leafHash_of_fits (H : Hasher Fr) {a : Account} (h : a.Fits) :
    ∃ hash, leafHash (accountParams H) (some a) = .ok hash := by
  obtain ⟨hash, hbal⟩ := exists_balanceRoot H a.balanceItems
  unfold leafHash
  show ∃ hash, (do
    let bits ← a.getBitsLe H
    return (accountParams H).hasher.hashBits bits) = .ok hash
  rw [Account.getBitsLe_of_fits H h, hbal]
  exact ⟨_, rfl⟩

theorem leafHash_of_not_fits (H : Hasher Fr) {a : Account} (h : ¬ a.Fits) :
    leafHash (accountParams H) (some a) = .error noLeaf := by
  unfold leafHash
  show (do
    let bits ← a.getBitsLe H
    return (accountParams H).hasher.hashBits bits) = .error noLeaf
  rw [Account.getBitsLe_of_not_fits H h]
  rfl

end Leaves

section RootHash

variable {H : Hasher Fr} {s s' : ZkSyncState}

open SparseMerkleTree

theorem leafHash_cases (H : Hasher Fr) (item : Option Account) :
    (∃ hash, leafHash (accountParams H) item = .ok hash) ∨
      leafHash (accountParams H) item = .error noLeaf := by
  cases item with
  | none => exact Or.inl ⟨_, leafHash_none _⟩
  | some a =>
    by_cases h : a.Fits
    · exact Or.inl (leafHash_of_fits H h)
    · exact Or.inr (leafHash_of_not_fits H h)

/-- There is a root hash when every account has bits; otherwise asking for it
panics. -/
theorem rootHash_cases (hs : Hashed H s) :
    ((∃ hash, s.root H = .ok hash) ∧ ∀ id a, s.getAccount id = some a → a.Fits) ∨
    (s.root H = .error noLeaf ∧ ∃ id a, s.getAccount id = some a ∧ ¬ a.Fits) := by
  unfold ZkSyncState.root
  rw [rootHash_eq_fullRoot hs]
  rcases fullRoot_cases (accountParams H) accountTreeDepth s.balanceTree.tree.items
      (fun i => leafHash_cases H _) with
    ⟨hok, hall⟩ | ⟨herr, i, -, hi⟩
  · refine Or.inl ⟨hok, fun id a ha => by_contra fun hnot => ?_⟩
    obtain ⟨hash, hh⟩ := hall id.toNat id.toNat_lt
    have ha' : s.balanceTree.tree.items.lookup id.toNat = some a := ha
    rw [ha', leafHash_of_not_fits H hnot] at hh
    cases hh
  · refine Or.inr ⟨herr, ?_⟩
    rw [AccountTree.lookup_items] at hi
    split at hi
    next =>
      cases ha : s.balanceTree.get (UInt32.ofNat i) with
      | none =>
        rw [ha, leafHash_none] at hi
        cases hi
      | some a =>
        refine ⟨_, a, ha, fun hfits => ?_⟩
        obtain ⟨hash, hh⟩ := leafHash_of_fits H hfits
        rw [ha, hh] at hi
        cases hi
    next =>
      rw [leafHash_none] at hi
      cases hi

/-- Accounts that agree up to explicit zeros, and on whether they have bits,
have one root hash. -/
theorem rootHash_congr (hs : Hashed H s) (hs' : Hashed H s')
    (h : ∀ id, Option.Rel (fun a' a : Account => a'.Equiv a ∧ (a'.Fits ↔ a.Fits))
      (s'.getAccount id) (s.getAccount id)) : s'.root H = s.root H := by
  unfold ZkSyncState.root
  rw [rootHash_eq_fullRoot hs, rootHash_eq_fullRoot hs']
  refine fullRoot_congr fun i => ?_
  rw [AccountTree.lookup_items, AccountTree.lookup_items]
  split
  next =>
    have hrel := h (UInt32.ofNat i)
    cases ha : s.balanceTree.get (UInt32.ofNat i) with
    | none =>
      have hn := rel_none hrel ha
      unfold ZkSyncState.getAccount at hn
      rw [hn]
    | some a =>
      obtain ⟨a', ha', he, hfits⟩ := rel_some hrel ha
      unfold ZkSyncState.getAccount at ha'
      rw [ha']
      unfold leafHash
      exact congrArg (· >>= fun bits => pure ((accountParams H).hasher.hashBits bits))
        (Account.getBitsLe_congr H he hfits)
  next => rfl

/-! ## Counting and listing the items -/

/-- States with accounts at the same ids have items at the same places. -/
theorem mem_items_congr (h : ∀ id, (s'.getAccount id).isSome ↔ (s.getAccount id).isSome) (i : Nat) :
    i ∈ s'.balanceTree.tree.items ↔ i ∈ s.balanceTree.tree.items := by
  rw [AccountTree.mem_items, AccountTree.mem_items]
  exact and_congr_right fun _ => h _

theorem getFreeAccountId_congr
    (h : ∀ id, (s'.getAccount id).isSome ↔ (s.getAccount id).isSome) :
    s'.getFreeAccountId = s.getFreeAccountId := by
  unfold ZkSyncState.getFreeAccountId
  rw [Finmap.size_congr (mem_items_congr h)]

theorem getAccounts_eq (s : ZkSyncState) :
    s.getAccounts = s.balanceTree.tree.items.keys.val.map fun i =>
      (UInt32.ofNat i, (s.balanceTree.tree.items.lookup i).getD Account.default) := by
  unfold ZkSyncState.getAccounts
  have hkeys : s.balanceTree.tree.items.keys.val =
      s.balanceTree.tree.items.entries.map Sigma.fst := rfl
  rw [hkeys, Multiset.map_map]
  refine Multiset.map_congr rfl fun e he => ?_
  have hl : s.balanceTree.tree.items.lookup e.1 = some e.2 := by
    rw [Finmap.lookup_eq_some_iff]
    exact he
  rw [Function.comp_apply, hl]
  rfl

/-- States with the same accounts up to explicit zeros list the same accounts. -/
theorem getAccounts_congr
    (h : ∀ id, Option.Rel Account.Equiv (s'.getAccount id) (s.getAccount id)) :
    Multiset.Rel (fun e e' => e.1 = e'.1 ∧ e.2.Equiv e'.2) s'.getAccounts s.getAccounts := by
  have hsome : ∀ id, (s'.getAccount id).isSome ↔ (s.getAccount id).isSome :=
    fun id => rel_isSome (h id)
  have hkeys : s'.balanceTree.tree.items.keys = s.balanceTree.tree.items.keys := by
    ext i
    rw [Finmap.mem_keys, Finmap.mem_keys, mem_items_congr hsome]
  rw [getAccounts_eq, getAccounts_eq, hkeys, Multiset.rel_map]
  refine Multiset.rel_refl_of_refl_on fun i _ => ⟨rfl, ?_⟩
  rw [AccountTree.lookup_items, AccountTree.lookup_items]
  split
  next =>
    have hrel := h (UInt32.ofNat i)
    cases ha : s.balanceTree.get (UInt32.ofNat i) with
    | none =>
      have hn := rel_none hrel ha
      unfold ZkSyncState.getAccount at hn
      rw [hn]
      exact Account.Equiv.refl _
    | some a =>
      obtain ⟨a', ha', he⟩ := rel_some hrel ha
      unfold ZkSyncState.getAccount at ha'
      rw [ha']
      exact he
  next => exact Account.Equiv.refl _

end RootHash

end ZkSync
