import ZkSync.Crypto.SmtPath
import ZkSync.Lib.Run

/-!
# The sparse Merkle tree — whole histories of calls

What the tree is for, without nodes or caches: `treeHash` is the hash of a
position of the full binary tree over an assignment of items to leaves, and
`leavesAfter` is the assignment a list of calls leaves behind — the item
inserted last, or the default item.

* `SmtInv` — a tree with a given assignment: stored and cached as it should be,
  its items the assignment's;
* `call_inv` — every call of the tree moves the assignment by `leafAfter`;
* `run_inv` — so every history does by `leavesAfter`.

A depth is below 64 here. Above, the shifts by the depth leave the 64 bits of
an index, and `rootHash_wrong` and `merklePath_panics` show what becomes of the
tree.
-/

namespace ZkSync

open HeapIndex Smt

/-! ## The full tree over an assignment -/

/-- The hash of position `index` of the full tree, `height` levels above the
leaves; positions are counted from the left. -/
def treeHash {T Hash : Type} (P : TreeParams T Hash) (leaf : Nat → T) : Nat → Nat → Outcome Hash
  | 0, index => P.hasher.hashBits <$> P.getBitsLe (leaf index)
  | height + 1, index => do
    let lhs ← treeHash P leaf height (2 * index)
    let rhs ← treeHash P leaf height (2 * index + 1)
    return P.hasher.compress lhs rhs height

/-- The calls of a tree. -/
inductive TreeCall (T : Type) where
  | insert (itemIndex : UInt32) (item : T)
  | remove (index : UInt32)
  | rootHash
  | merklePath (index : UInt32)

namespace TreeCall

variable {T : Type}

/-- What a call does to the assignment. -/
def leafAfter (default : T) (leaf : Nat → T) : TreeCall T → Nat → T
  | .insert itemIndex item => Function.update leaf itemIndex.toNat item
  | .remove index => Function.update leaf index.toNat default
  | .rootHash => leaf
  | .merklePath _ => leaf

/-- The assignment after a list of calls of an empty tree. -/
def leavesAfter (default : T) (calls : List (TreeCall T)) : Nat → T :=
  calls.foldl (leafAfter default) fun _ => default

end TreeCall

open TreeCall

section Full

variable {T Hash : Type} {P : TreeParams T Hash}

/-- The hash of a position depends on the bits of the leaves below it only. -/
theorem treeHash_bits {leaf leaf' : Nat → T} : ∀ (height index : Nat),
    (∀ i, i / 2 ^ height = index → P.getBitsLe (leaf i) = P.getBitsLe (leaf' i)) →
    treeHash P leaf height index = treeHash P leaf' height index := by
  intro height
  induction height with
  | zero =>
    intro index h
    rw [treeHash, treeHash, h index (by rw [Nat.pow_zero, Nat.div_one])]
  | succ height ih =>
    intro index h
    have hhalf : ∀ i, i / 2 ^ height / 2 = i / 2 ^ (height + 1) := fun i => by
      rw [Nat.div_div_eq_div_mul, ← Nat.pow_succ]
    rw [treeHash, treeHash, ih (2 * index) fun i hi => h i (by rw [← hhalf]; omega),
      ih (2 * index + 1) fun i hi => h i (by rw [← hhalf]; omega)]

theorem treeHash_congr {leaf leaf' : Nat → T} (height index : Nat)
    (h : ∀ i, i / 2 ^ height = index → leaf i = leaf' i) :
    treeHash P leaf height index = treeHash P leaf' height index :=
  treeHash_bits height index fun i hi => by rw [h i hi]

/-- A position above default leaves hashes to the empty subtree. -/
theorem treeHash_default : ∀ (height index : Nat),
    treeHash P (fun _ => P.default) height index = .ok (SparseMerkleTree.emptyHash P height) := by
  intro height
  induction height with
  | zero =>
    intro index
    rw [treeHash, P.getBitsLe_default]
    rfl
  | succ height ih =>
    intro index
    rw [treeHash, ih, ih]
    rfl

namespace SparseMerkleTree

/-- The heap numbering and the numbering from the left. -/
theorem subtreeHash_eq_treeHash {depth : Nat} {items : Finmap fun _ : Nat => T} {leaf : Nat → T}
    (hitems : ∀ i, (items.lookup i).getD P.default = leaf i) :
    ∀ (height index : Nat), height ≤ depth →
      subtreeHash P depth items height (2 ^ (depth - height) + index) =
        treeHash P leaf height index := by
  intro height
  induction height with
  | zero =>
    intro index _
    rw [subtreeHash, treeHash, Nat.sub_zero, Nat.add_sub_cancel_left]
    unfold leafHash
    rw [hitems]
    cases P.getBitsLe (leaf index) <;> rfl
  | succ height ih =>
    intro index hle
    have hpow : 2 ^ (depth - height) = 2 ^ (depth - (height + 1)) * 2 := by
      rw [← Nat.pow_succ]
      congr 1
      omega
    have hleft : (2 ^ (depth - (height + 1)) + index) * 2 = 2 ^ (depth - height) + 2 * index := by
      rw [hpow]
      omega
    rw [subtreeHash, treeHash, hleft, Nat.add_assoc, ih (2 * index) (by omega),
      ih (2 * index + 1) (by omega)]

theorem fullRoot_eq_treeHash {depth : Nat} {items : Finmap fun _ : Nat => T} {leaf : Nat → T}
    (hitems : ∀ i, (items.lookup i).getD P.default = leaf i) :
    fullRoot P depth items = treeHash P leaf depth 0 := by
  have h := subtreeHash_eq_treeHash hitems depth 0 (Nat.le_refl depth)
  rw [Nat.sub_self] at h
  exact h

/-! ## Histories -/

/-- A call of the tree; the hash or the path it returns is left out. -/
def call (P : TreeParams T Hash) (t : SparseMerkleTree T Hash) :
    TreeCall T → Outcome (SparseMerkleTree T Hash)
  | .insert itemIndex item => t.insert itemIndex.toNat item
  | .remove index => Prod.snd <$> t.remove P.default index.toNat
  | .rootHash => Prod.snd <$> rootHash P t
  | .merklePath index => Prod.snd <$> merklePath P t index.toNat

/-- A call that returns. -/
def Step (P : TreeParams T Hash) (t : SparseMerkleTree T Hash) (c : TreeCall T)
    (t' : SparseMerkleTree T Hash) : Prop :=
  call P t c = .ok t'

/-- A list of calls. -/
def callAll (P : TreeParams T Hash) (t : SparseMerkleTree T Hash) (calls : List (TreeCall T)) :
    Outcome (SparseMerkleTree T Hash) :=
  calls.foldlM (call P) t

/-- Calls that return, one after the other, are a run. -/
theorem run_callAll {t t' : SparseMerkleTree T Hash}
    {calls : List (TreeCall T)} (h : callAll P t calls = .ok t') :
    Run (Step P) t calls t' := by
  induction calls generalizing t with
  | nil =>
    cases h
    exact .nil _
  | cons c calls ih =>
    unfold callAll at h
    rw [List.foldlM_cons, Outcome.bind_eq_ok] at h
    obtain ⟨t₁, h1, h2⟩ := h
    exact .cons h1 (ih h2)

/-- A tree of depth `depth` with the assignment `leaf`: the nodes and the hashes
are right, and an index without an item has the default one. -/
structure SmtInv (P : TreeParams T Hash) (depth : Nat) (leaf : Nat → T)
    (t : SparseMerkleTree T Hash) : Prop where
  tree : TreeOk t
  hash : HashOk P t
  depth : t.treeDepth = depth
  items : ∀ i, (t.items.lookup i).getD P.default = leaf i

variable {depth : Nat} {leaf : Nat → T} {t t' : SparseMerkleTree T Hash}

theorem smtInv_new (hdepth : 1 < depth) (hword : depth < 64) :
    SmtInv P depth (fun _ => P.default) (new P depth hdepth) where
  tree := treeOk_new P depth hdepth hword
  hash := hashOk_new P depth hdepth
  depth := rfl
  items i := by
    show ((∅ : Finmap fun _ : Nat => T).lookup i).getD P.default = P.default
    rw [Finmap.lookup_empty, Option.getD_none]

theorem SmtInv.capacity_eq (h : SmtInv P depth leaf t) : t.capacity = 2 ^ depth := by
  rw [h.tree.capacity_eq, h.depth]

/-- `root_hash` is the root of the full tree. -/
theorem SmtInv.rootHash_eq (h : SmtInv P depth leaf t) :
    Prod.fst <$> rootHash P t = treeHash P leaf depth 0 := by
  rw [SparseMerkleTree.rootHash_eq h.tree h.hash, h.depth, fullRoot_eq_treeHash h.items]

theorem SmtInv.insert {i : Nat} {item : T} (h : SmtInv P depth leaf t)
    (heq : t.insert i item = .ok t') : SmtInv P depth (Function.update leaf i item) t' := by
  obtain ⟨htree, hitems, hdepth⟩ := insert_eq_ok h.tree heq
  refine ⟨htree, hashOk_insert h.tree h.hash (insert_lt heq) heq, by rw [hdepth, h.depth],
    fun j => ?_⟩
  rw [hitems, Finmap.lookup_insert_if, Function.update_apply]
  by_cases hj : j = i
  · rw [if_pos hj, if_pos hj, Option.getD_some]
  · rw [if_neg hj, if_neg hj, h.items]

theorem SmtInv.rootHash {hash : Hash} (h : SmtInv P depth leaf t)
    (heq : SparseMerkleTree.rootHash P t = .ok (hash, t')) : SmtInv P depth leaf t' := by
  have hframe := rootHash_frame heq
  exact ⟨rootHash_treeOk h.tree heq, rootHash_hashOk h.tree h.hash heq,
    by rw [hframe]; exact h.depth, by rw [hframe]; exact h.items⟩

/-- A call that returns has written one item or hashed the tree. -/
theorem step_cases {c : TreeCall T} (hstep : Step P t c t') :
    (∃ (i : UInt32) (item : T), t.insert i.toNat item = .ok t' ∧
      ∀ leaf, leafAfter P.default leaf c = Function.update leaf i.toNat item) ∨
    (∃ hash, SparseMerkleTree.rootHash P t = .ok (hash, t') ∧
      ∀ leaf, leafAfter P.default leaf c = leaf) := by
  unfold Step call at hstep
  cases c with
  | insert itemIndex item => exact Or.inl ⟨itemIndex, item, hstep, fun _ => rfl⟩
  | remove index =>
    obtain ⟨⟨old, t₁⟩, hrem, rfl⟩ := Outcome.map_eq_ok.mp hstep
    rw [remove_eq, Outcome.bind_eq_ok] at hrem
    obtain ⟨t₂, hins, hret⟩ := hrem
    cases hret
    exact Or.inl ⟨index, P.default, hins, fun _ => rfl⟩
  | rootHash =>
    obtain ⟨⟨hash, t₁⟩, hroot, rfl⟩ := Outcome.map_eq_ok.mp hstep
    exact Or.inr ⟨hash, hroot, fun _ => rfl⟩
  | merklePath index =>
    obtain ⟨⟨path, t₁⟩, hpath, rfl⟩ := Outcome.map_eq_ok.mp hstep
    unfold SparseMerkleTree.merklePath at hpath
    simp only [Outcome.bind_eq_ok] at hpath
    obtain ⟨-, -, ⟨hash, t₂⟩, hroot, proof, -, hret⟩ := hpath
    cases hret
    exact Or.inr ⟨hash, hroot, fun _ => rfl⟩

/-- A call that returns moves the assignment as it should. -/
theorem call_inv {c : TreeCall T} (h : SmtInv P depth leaf t) (hstep : Step P t c t') :
    SmtInv P depth (leafAfter P.default leaf c) t' := by
  rcases step_cases hstep with ⟨i, item, hins, hleaf⟩ | ⟨hash, hroot, hleaf⟩
  · rw [hleaf]
    exact h.insert hins
  · rw [hleaf]
    exact h.rootHash hroot

/-- Every history ends in a tree with its assignment. -/
theorem run_inv {calls : List (TreeCall T)} (hrun : Run (Step P) t calls t') :
    ∀ {leaf : Nat → T}, SmtInv P depth leaf t →
      SmtInv P depth (calls.foldl (leafAfter P.default) leaf) t' := by
  induction hrun with
  | nil => exact fun h => h
  | cons hstep _ ih => exact fun h => ih (call_inv h hstep)

theorem SmtInv.insert_returns (h : SmtInv P depth leaf t) {i : Nat} (hi : i < 2 ^ depth)
    (item : T) : ∃ t', t.insert i item = .ok t' := by
  obtain ⟨t', h1, -⟩ := insert_ok h.tree (by rw [h.capacity_eq]; exact hi) item
  exact ⟨t', h1⟩

/-! ## Merkle paths -/

/-- Merkle paths are valid proofs: after every history, the path of every index
of the tree is as long as the tree is deep, its directions spell the index, and
it folds the hash of the leaf, inserted or default, to `root_hash`. -/
theorem merklePath_valid (P : TreeParams T Hash) {depth : Nat} (hdepth : 1 < depth)
    (hword : depth < 64) {calls : List (TreeCall T)} {t t₁ : SparseMerkleTree T Hash} {root : Hash}
    (hrun : Run (Step P) (new P depth hdepth) calls t)
    (hroot : SparseMerkleTree.rootHash P t = .ok (root, t₁)) (index : UInt32)
    (hindex : index.toNat < 2 ^ depth) :
    ∃ path t' leaf, merklePath P t index.toNat = .ok (path, t') ∧ path.length = depth ∧
      pathIndex path = index.toNat ∧
      P.hasher.hashBits <$> P.getBitsLe (leavesAfter P.default calls index.toNat) = .ok leaf ∧
      foldPath P.hasher 0 leaf path = root := by
  have h := run_inv hrun (smtInv_new hdepth hword)
  have hfull : fullRoot P t.treeDepth t.items = .ok root := by
    rw [← SparseMerkleTree.rootHash_eq h.tree h.hash, hroot]
    rfl
  have hindex' : index.toNat < 2 ^ t.treeDepth := by
    rw [h.depth]
    exact hindex
  obtain ⟨path, t', leaf, h1, h2, h3, h4, h5⟩ := merklePath_spec h.tree h.hash hfull hindex'
  refine ⟨path, t', leaf, h1, by rw [h2, h.depth], h3, ?_, h5⟩
  unfold leafHash at h4
  rw [h.items] at h4
  exact Outcome.map_eq_ok.mpr (by
    obtain ⟨bits, hbits, hret⟩ := Outcome.bind_eq_ok.mp h4
    exact ⟨bits, hbits, Except.ok.inj hret⟩)

end SparseMerkleTree

end Full

/-! ## Depths above 63 -/

/-- Booleans as items, and the left child's hash as the parent's. -/
def keepLeft : TreeParams Bool Bool where
  hasher :=
    { hashBits := fun bits => bits.headD false
      hashElements := fun hashes => hashes.headD false
      compress := fun lhs _ _ => lhs }
  default := false
  getBitsLe := fun item => .ok [item]
  defaultBits := [false]
  getBitsLe_default := rfl

theorem treeHash_keepLeft (leaf : Nat → Bool) : ∀ (height index : Nat),
    treeHash keepLeft leaf height index = .ok (leaf (index * 2 ^ height)) := by
  intro height
  induction height with
  | zero =>
    intro index
    rw [Nat.pow_zero, Nat.mul_one]
    rfl
  | succ height ih =>
    intro index
    have hpos : 2 * index * 2 ^ height = index * 2 ^ (height + 1) := by
      rw [Nat.pow_succ, Nat.mul_comm 2 index, Nat.mul_assoc, Nat.mul_comm 2]
    rw [treeHash, ih, ih, hpos]
    rfl

namespace SparseMerkleTree

/-- Two items, one of them taken out again after its hash was cached. -/
def twoItems : List (TreeCall Bool) :=
  [.insert 0 true, .rootHash, .insert 2 true, .remove 0, .rootHash]

theorem exists_twoItems : ∃ t, Run (Step keepLeft) (new keepLeft 2 (by decide)) twoItems t ∧
    Prod.fst <$> rootHash keepLeft t = .ok false := by
  obtain ⟨t, ht⟩ : ∃ t, callAll keepLeft (new keepLeft 2 (by decide)) twoItems = .ok t := ⟨_, rfl⟩
  have hinv := run_inv (run_callAll ht) (smtInv_new (show 1 < 2 by decide) (by decide))
  refine ⟨t, run_callAll ht, ?_⟩
  rw [hinv.rootHash_eq, treeHash_keepLeft]
  rfl

/-- The path of the item that stays: its leaf is `true`, and the root, which is the leaf of
the item that was taken out, is not. -/
theorem merklePath_valid_keepLeft : ∃ t path t',
    Run (Step keepLeft) (new keepLeft 2 (by decide)) twoItems t ∧
      merklePath keepLeft t (2 : UInt32).toNat = .ok (path, t') ∧ path.length = 2 ∧
      pathIndex path = 2 ∧ foldPath keepLeft.hasher 0 true path = false := by
  obtain ⟨t, hrun, hroot⟩ := exists_twoItems
  obtain ⟨⟨root, t₁⟩, hok, rfl⟩ := Outcome.map_eq_ok.mp hroot
  obtain ⟨path, t', leaf, h1, h2, h3, h4, h5⟩ :=
    merklePath_valid keepLeft (by decide) (by decide) hrun hok 2 (by decide)
  obtain rfl : true = leaf := Except.ok.inj h4
  exact ⟨t, path, t', hrun, h1, h2, h3, h5⟩

/-- The first shift of `merkle_path` that leaves the 64 bits. -/
theorem merklePath_panics :
    merklePath keepLeft (new keepLeft 64 (by decide)) 1 =
      .error (.panic "assertion failed: (index as ItemIndex) < self.capacity()") := by
  rfl

end SparseMerkleTree

end ZkSync
