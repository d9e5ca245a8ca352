import ZkSync.Crypto.SmtRuns

/-!
# The sequential sparse Merkle tree

`zksync_crypto::merkle_tree::sequential_smt`: a table with the hash of every
position above an inserted item. An insertion hashes the item and then every
position on the way to the root, so `root_hash` is a look-up.

`SeqInv` says that the hash read at a position — the stored one, or that of the
empty subtree — is the hash of the full tree there. During an insertion the
positions on the way up are stale; `updateUp_inv` repairs them one level at a
time.

The two trees agree: `smt_correct` puts the parallel tree's root beside the
full tree's, and beside that of this tree after the same insertions.
-/

namespace ZkSync

open Smt TreeCall

/-- `sequential_smt::SparseMerkleTree`. -/
structure SequentialSmt (T Hash : Type) where
  treeDepth : Nat
  prehashed : List Hash
  items : Finmap fun _ : Nat => T
  hashes : Finmap fun _ : Nat => Hash

namespace SequentialSmt

variable {T Hash : Type}

/-! ## Definitions -/

/-- `PackToIndex::pack`: level and index in one `usize`, with wrapping arithmetic. -/
def pack (level index : Nat) : Nat := (level * 2 ^ 32 % 2 ^ 64 + index) % 2 ^ 64

/-- `SparseMerkleTree::new`. -/
def new (P : TreeParams T Hash) (treeDepth : Nat) : SequentialSmt T Hash where
  treeDepth := treeDepth
  prehashed := ((List.range (treeDepth + 1)).map (SparseMerkleTree.emptyHash P)).reverse
  items := ∅
  hashes := ∅

def capacity (s : SequentialSmt T Hash) : Nat := shl1 s.treeDepth

def getHash (s : SequentialSmt T Hash) (level index : Nat) : Outcome Hash := do
  Outcome.assert (level ≤ s.treeDepth) "assertion failed: index.0 <= self.tree_depth"
  Outcome.assert (index < s.capacity) "assertion failed: index.1 < self.capacity()"
  match s.hashes.lookup (pack level index) with
  | some hash => return hash
  | none => Outcome.expect s.prehashed[level]? "called `Option::unwrap()` on a `None` value"

def updateHash (P : TreeParams T Hash) (s : SequentialSmt T Hash) (level index : Nat) :
    Outcome (SequentialSmt T Hash) := do
  Outcome.assert (level < s.treeDepth) "assertion failed: index.0 < self.tree_depth"
  Outcome.assert (index < s.capacity) "assertion failed: index.1 < self.capacity()"
  let lhsHash ← s.getHash (level + 1) (index * 2 % 2 ^ 64)
  let rhsHash ← s.getHash (level + 1) (index * 2 % 2 ^ 64 + 1)
  let hash := P.hasher.compress lhsHash rhsHash (s.treeDepth - 1 - level)
  return { s with hashes := s.hashes.insert (pack level index) hash }

/-- The loop of `recalculate_hashes`, from level `level` to the root. -/
def updateUp (P : TreeParams T Hash) :
    Nat → SequentialSmt T Hash → Nat → Outcome (SequentialSmt T Hash)
  | 0, s, _ => .ok s
  | level + 1, s, index => do
    let s ← s.updateHash P level (index / 2)
    updateUp P level s (index / 2)

def recalculateHashes (P : TreeParams T Hash) (s : SequentialSmt T Hash) (index : Nat) (item : T) :
    Outcome (SequentialSmt T Hash) := do
  let bits ← P.getBitsLe item
  let hash := P.hasher.hashBits bits
  updateUp P s.treeDepth { s with hashes := s.hashes.insert (pack s.treeDepth index) hash } index

def insert (P : TreeParams T Hash) (s : SequentialSmt T Hash) (index : Nat) (item : T) :
    Outcome (SequentialSmt T Hash) := do
  Outcome.assert (index < s.capacity) "assertion failed: index < self.capacity()"
  let s ← s.recalculateHashes P index item
  return { s with items := s.items.insert index item }

def remove (P : TreeParams T Hash) (s : SequentialSmt T Hash) (index : Nat) :
    Outcome (Option T × SequentialSmt T Hash) := do
  let old := s.items.lookup index
  let s ← insert P { s with items := s.items.erase index } index P.default
  return (old, s)

def rootHash (s : SequentialSmt T Hash) : Outcome Hash := s.getHash 0 0

/-- The same insertions and removals; this tree has nothing to do for the other
calls. -/
def Step (P : TreeParams T Hash) (s : SequentialSmt T Hash) : TreeCall T → SequentialSmt T Hash → Prop
  | .insert itemIndex item, s' => s.insert P itemIndex.toNat item = .ok s'
  | .remove index, s' => Prod.snd <$> s.remove P index.toNat = .ok s'
  | .rootHash, s' => s' = s
  | .merklePath _, s' => s' = s

/-! ## Packed positions -/

theorem pack_eq {level index : Nat} (hl : level < 2 ^ 32) (hi : index < 2 ^ 32) :
    pack level index = level * 2 ^ 32 + index := by
  unfold pack
  omega

/-- Positions whose index fits 32 bits are told apart. -/
theorem pack_inj {l i l' i' : Nat} (hl : l < 2 ^ 32) (hi : i < 2 ^ 32) (hl' : l' < 2 ^ 32)
    (hi' : i' < 2 ^ 32) : pack l i = pack l' i' ↔ l = l' ∧ i = i' := by
  rw [pack_eq hl hi, pack_eq hl' hi']
  omega

/-! ## The invariant -/

section Invariant

variable {P : TreeParams T Hash} {depth : Nat} {leaf : Nat → T}

/-- What `get_hash` reads at a position of the tree. -/
def hashAt (P : TreeParams T Hash) (s : SequentialSmt T Hash) (level index : Nat) : Hash :=
  (s.hashes.lookup (pack level index)).getD (SparseMerkleTree.emptyHash P (s.treeDepth - level))

/-- The position is read right. -/
def Right (P : TreeParams T Hash) (leaf : Nat → T) (s : SequentialSmt T Hash)
    (level index : Nat) : Prop :=
  treeHash P leaf (s.treeDepth - level) index = .ok (s.hashAt P level index)

/-- A tree of depth `depth`: its table of empty subtrees is the parallel
tree's. -/
structure SeqShape (P : TreeParams T Hash) (depth : Nat) (s : SequentialSmt T Hash) : Prop where
  treeDepth : s.treeDepth = depth
  prehashed : s.prehashed = ((List.range (depth + 1)).map (SparseMerkleTree.emptyHash P)).reverse

/-- A tree of depth `depth` with the assignment `leaf`: every position a 32-bit
index can have is read right. -/
structure SeqInv (P : TreeParams T Hash) (depth : Nat) (leaf : Nat → T)
    (s : SequentialSmt T Hash) : Prop where
  shape : SeqShape P depth s
  right : ∀ level index, level ≤ depth → index < 2 ^ level → index < 2 ^ 32 →
    Right P leaf s level index

theorem seqInv_new : SeqInv P depth (fun _ => P.default) (new P depth) where
  shape := ⟨rfl, rfl⟩
  right _ _ _ _ _ := treeHash_default _ _

variable {s s' : SequentialSmt T Hash}

theorem SeqShape.getHash_eq (h : SeqShape P depth s) (hword : depth < 64) (level index : Nat)
    (hl : level ≤ depth) (hi : index < 2 ^ level) :
    s.getHash level index = .ok (s.hashAt P level index) := by
  have hcap : index < s.capacity := by
    unfold capacity
    rw [h.treeDepth, shl1_eq hword]
    exact Nat.lt_of_lt_of_le hi (Nat.pow_le_pow_right (by decide) hl)
  unfold getHash hashAt
  rw [Outcome.assert_ok _ (by rw [h.treeDepth]; exact hl), Outcome.ok_bind,
    Outcome.assert_ok _ hcap, Outcome.ok_bind]
  cases s.hashes.lookup (pack level index) with
  | some hash => rfl
  | none =>
    have hget : s.prehashed[level]? = some (SparseMerkleTree.emptyHash P (depth - level)) := by
      rw [h.prehashed, List.getElem?_reverse (by simp; omega)]
      simp only [List.length_map, List.length_range]
      rw [List.getElem?_map, List.getElem?_range (by omega)]
      simp
    rw [hget, h.treeDepth]
    rfl

theorem hashAt_insert {level index l i : Nat} {hash : Hash} (hl : level < 64) (hi : index < 2 ^ 32)
    (hl' : l < 64) (hi' : i < 2 ^ 32) :
    ({ s with hashes := s.hashes.insert (pack level index) hash } : SequentialSmt T Hash).hashAt P l i =
      if l = level ∧ i = index then hash else s.hashAt P l i := by
  unfold hashAt
  rw [Finmap.lookup_insert_if]
  by_cases hsame : l = level ∧ i = index
  · obtain ⟨rfl, rfl⟩ := hsame
    rw [if_pos rfl, if_pos ⟨rfl, rfl⟩, Option.getD_some]
  · rw [if_neg hsame, if_neg]
    rwa [pack_inj (by omega) hi' (by omega) hi]

/-- `update_hash` puts a position right whose children are, and leaves the other
positions alone. -/
theorem updateHash_spec (h : SeqShape P depth s) (hword : depth < 64) {level index : Nat}
    (hl : level < depth) (hi : index < 2 ^ level) (h32 : 2 * index + 1 < 2 ^ 32)
    (hleft : Right P leaf s (level + 1) (2 * index))
    (hright : Right P leaf s (level + 1) (2 * index + 1)) :
    ∃ s', s.updateHash P level index = .ok s' ∧ SeqShape P depth s' ∧
      Right P leaf s' level index ∧
      ∀ l i, l < 64 → i < 2 ^ 32 → (l, i) ≠ (level, index) → s'.hashAt P l i = s.hashAt P l i := by
  have hcap : index < s.capacity := by
    unfold capacity
    rw [h.treeDepth, shl1_eq hword]
    exact Nat.lt_of_lt_of_le hi (Nat.pow_le_pow_right (by decide) (by omega))
  have hmod : index * 2 % 2 ^ 64 = 2 * index := by omega
  have hl0 := h.getHash_eq hword (level + 1) (2 * index) hl (by
    rw [Nat.pow_succ]
    omega)
  have hl1 := h.getHash_eq hword (level + 1) (2 * index + 1) hl (by
    rw [Nat.pow_succ]
    omega)
  refine ⟨{ s with hashes := s.hashes.insert (pack level index) (P.hasher.compress
      (s.hashAt P (level + 1) (2 * index)) (s.hashAt P (level + 1) (2 * index + 1))
      (s.treeDepth - 1 - level)) }, ?_, ⟨h.treeDepth, h.prehashed⟩, ?_, ?_⟩
  · unfold updateHash
    rw [Outcome.assert_ok _ (by rw [h.treeDepth]; exact hl), Outcome.ok_bind,
      Outcome.assert_ok _ hcap, Outcome.ok_bind, hmod, hl0, Outcome.ok_bind, hl1,
      Outcome.ok_bind]
    rfl
  · unfold Right
    rw [hashAt_insert (by omega) (by omega) (by omega) (by omega), if_pos ⟨rfl, rfl⟩]
    have hheight : s.treeDepth - level = s.treeDepth - (level + 1) + 1 := by
      have := h.treeDepth
      omega
    show treeHash P leaf (s.treeDepth - level) index = _
    unfold Right at hleft hright
    rw [hheight, treeHash, hleft, Outcome.ok_bind, hright, Outcome.ok_bind]
    rw [show s.treeDepth - 1 - level = s.treeDepth - (level + 1) by omega]
    rfl
  · intro l i hl' hi' hne
    rw [hashAt_insert (by omega) (by omega) hl' hi', if_neg]
    rintro ⟨rfl, rfl⟩
    exact hne rfl

variable (leaf) in
/-- The loop of `recalculate_hashes` repairs the way from level `level` up: if
every position is read right but those above `(level, index)`, every position is
read right in the end. The induction is on the level. -/
theorem updateUp_inv (hword : depth < 64) : ∀ (level : Nat) (s : SequentialSmt T Hash) (index : Nat),
    SeqShape P depth s → level ≤ depth → index < 2 ^ level → index < 2 ^ 32 →
    (∀ l i, l ≤ depth → i < 2 ^ l → i < 2 ^ 32 → (l < level → i ≠ index / 2 ^ (level - l)) →
      Right P leaf s l i) →
    ∃ s', updateUp P level s index = .ok s' ∧ SeqInv P depth leaf s' := by
  intro level
  induction level with
  | zero =>
    intro s index h _ _ _ hright
    exact ⟨s, rfl, h, fun l i hl hi h32 => hright l i hl hi h32 fun hlt => absurd hlt (Nat.not_lt_zero l)⟩
  | succ level ih =>
    intro s index h hle hi h32 hright
    have hhalf : index / 2 < 2 ^ level := by
      rw [Nat.pow_succ] at hi
      omega
    have hchild : ∀ i, i / 2 = index / 2 → Right P leaf s (level + 1) i := by
      intro i hsame
      refine hright (level + 1) i hle ?_ (by omega) fun hlt => absurd hlt (Nat.lt_irrefl _)
      rw [Nat.pow_succ]
      omega
    obtain ⟨s₁, h1, h2, h3, h4⟩ := updateHash_spec h hword hle hhalf (by omega)
      (hchild (2 * (index / 2)) (by omega)) (hchild (2 * (index / 2) + 1) (by omega))
    obtain ⟨s', h5, h6⟩ := ih s₁ (index / 2) h2 (by omega) hhalf (by omega) fun l i hl hil h32i hoff => by
      by_cases hsame : (l, i) = (level, index / 2)
      · cases hsame
        exact h3
      · unfold Right
        rw [h4 l i (by omega) h32i hsame, h2.treeDepth, ← h.treeDepth]
        refine hright l i hl hil h32i fun hlt hanc => ?_
        rcases Nat.lt_or_ge l level with hll | hll
        · refine hoff hll ?_
          rw [hanc, Nat.div_div_eq_div_mul, ← Nat.pow_succ']
          congr 2
          omega
        · have hl' : l = level := by omega
          subst hl'
          rw [Nat.add_sub_cancel_left, Nat.pow_one] at hanc
          exact hsame (by rw [hanc])
    exact ⟨s', by rw [updateUp, h1, Outcome.ok_bind, h5], h6⟩

/-- `insert` moves the assignment as it should; it returns if the index is in
the tree and the item has its bits. -/
theorem SeqInv.insert (h : SeqInv P depth leaf s) (hword : depth < 64) {index : Nat} {item : T}
    (h32 : index < 2 ^ 32) (heq : s.insert P index item = .ok s') :
    SeqInv P depth (Function.update leaf index item) s' := by
  unfold SequentialSmt.insert recalculateHashes at heq
  rw [Outcome.bind_eq_ok] at heq
  obtain ⟨_, hassert, heq⟩ := heq
  have hcap : index < 2 ^ depth := by
    have hlt := Outcome.assert_eq_ok.mp hassert
    unfold capacity at hlt
    rwa [h.shape.treeDepth, shl1_eq hword] at hlt
  simp only [Outcome.bind_eq_ok] at heq
  obtain ⟨s₁, ⟨bits, hbits, hup⟩, hret⟩ := heq
  rw [h.shape.treeDepth] at hup
  -- after the leaf every position but the ones above it is right
  obtain ⟨s₂, h1, h2⟩ := updateUp_inv (P := P) (Function.update leaf index item) hword depth
    { s with hashes := s.hashes.insert (pack depth index) (P.hasher.hashBits bits) } index
    ⟨h.shape.treeDepth, h.shape.prehashed⟩ (Nat.le_refl depth) hcap h32 fun l i hl hi hi32 hoff => by
      unfold Right
      rw [hashAt_insert (by omega) h32 (by omega) hi32]
      show treeHash P _ (s.treeDepth - l) i = _
      rw [h.shape.treeDepth]
      split
      next hsame =>
        obtain ⟨rfl, rfl⟩ := hsame
        rw [Nat.sub_self, treeHash, Function.update_self, hbits]
        rfl
      next hother =>
        have hr := h.right l i hl hi hi32
        unfold Right at hr
        rw [h.shape.treeDepth] at hr
        rw [← hr]
        refine treeHash_congr _ _ fun j hj => Function.update_of_ne ?_ _ _
        rintro rfl
        rcases Nat.lt_or_ge l depth with hlt | hge
        · exact hoff hlt hj.symm
        · have hl' : l = depth := by omega
          rw [hl', Nat.sub_self, Nat.pow_zero, Nat.div_one] at hj
          exact hother ⟨hl', hj.symm⟩
  rw [h.shape.treeDepth, hup] at h1
  obtain rfl := Except.ok.inj h1
  cases hret
  exact ⟨⟨h2.shape.treeDepth, h2.shape.prehashed⟩, h2.right⟩

theorem step_inv {c : TreeCall T} (h : SeqInv P depth leaf s) (hword : depth < 64)
    (hstep : Step P s c s') : SeqInv P depth (leafAfter P.default leaf c) s' := by
  cases c with
  | insert itemIndex item => exact h.insert hword itemIndex.toNat_lt hstep
  | remove index =>
    obtain ⟨⟨old, s₁⟩, hrem, rfl⟩ := Outcome.map_eq_ok.mp hstep
    unfold remove at hrem
    rw [Outcome.bind_eq_ok] at hrem
    obtain ⟨s₂, hins, hret⟩ := hrem
    cases hret
    have herased : SeqInv P depth leaf { s with items := s.items.erase index.toNat } :=
      ⟨⟨h.shape.treeDepth, h.shape.prehashed⟩, h.right⟩
    exact herased.insert hword index.toNat_lt hins
  | rootHash =>
    obtain rfl : s' = s := hstep
    exact h
  | merklePath index =>
    obtain rfl : s' = s := hstep
    exact h

theorem run_inv {calls : List (TreeCall T)} (hword : depth < 64) (hrun : Run (Step P) s calls s') :
    ∀ {leaf : Nat → T}, SeqInv P depth leaf s →
      SeqInv P depth (calls.foldl (leafAfter P.default) leaf) s' := by
  induction hrun with
  | nil => exact fun h => h
  | cons hstep _ ih => exact fun h => ih (step_inv h hword hstep)

/-- `root_hash` is the root of the full tree. -/
theorem SeqInv.rootHash_eq (h : SeqInv P depth leaf s) (hword : depth < 64) :
    s.rootHash = treeHash P leaf depth 0 := by
  have hr := h.right 0 0 (Nat.zero_le depth) (by decide) (by decide)
  unfold Right at hr
  rw [Nat.sub_zero, h.shape.treeDepth] at hr
  unfold rootHash
  rw [h.shape.getHash_eq hword _ _ (Nat.zero_le depth) (by decide), hr]

end Invariant

end SequentialSmt

/-! ## The parallel tree is the full tree -/

open SparseMerkleTree in
/-- After every history of a tree of depth below 64 `root_hash` is the root of
the full tree whose leaves hold the items inserted last. So the order of the
calls does not matter where their assignments agree, and the sequential tree
has the same root after the same insertions. Calls of indices in the tree
return. -/
theorem smt_correct {T Hash : Type} (P : TreeParams T Hash) {depth : Nat} (hdepth : 1 < depth)
    (hword : depth < 64) {calls : List (TreeCall T)} {t : SparseMerkleTree T Hash}
    (hrun : Run (Step P) (new P depth hdepth) calls t) :
    Prod.fst <$> rootHash P t = treeHash P (leavesAfter P.default calls) depth 0 ∧
    (∀ (index : UInt32), index.toNat < 2 ^ depth →
      (∀ item, ∃ t', t.insert index.toNat item = .ok t') ∧
        ∃ res, t.remove P.default index.toNat = .ok res) ∧
    (∀ {calls' : List (TreeCall T)} {t' : SparseMerkleTree T Hash},
      Run (Step P) (new P depth hdepth) calls' t' →
      (∀ i, i < 2 ^ depth → leavesAfter P.default calls' i = leavesAfter P.default calls i) →
      Prod.fst <$> rootHash P t' = Prod.fst <$> rootHash P t) ∧
    ∀ {s : SequentialSmt T Hash}, Run (SequentialSmt.Step P) (SequentialSmt.new P depth) calls s →
      Prod.fst <$> rootHash P t = s.rootHash := by
  have h := run_inv hrun (smtInv_new hdepth hword)
  refine ⟨h.rootHash_eq, fun index hindex => ⟨fun item => h.insert_returns hindex item, ?_⟩, ?_, ?_⟩
  · obtain ⟨t', ht'⟩ := h.insert_returns hindex P.default
    exact ⟨_, by rw [remove_eq, ht']; rfl⟩
  · intro calls' t' hrun' hsame
    rw [(run_inv hrun' (smtInv_new hdepth hword)).rootHash_eq, h.rootHash_eq]
    refine treeHash_congr depth 0 fun i hi => hsame i ?_
    rcases Nat.div_eq_zero_iff.mp hi with hzero | hlt
    · exact absurd hzero (Nat.ne_of_gt (Nat.two_pow_pos depth))
    · exact hlt
  · intro s hseq
    rw [h.rootHash_eq, (SequentialSmt.run_inv hword hseq SequentialSmt.seqInv_new).rootHash_eq hword]

open SparseMerkleTree in
/-- After an insertion that was undone, the tree is the one with the other item only, in both
implementations. -/
theorem smt_correct_keepLeft : ∃ t t' s,
    Run (Step keepLeft) (new keepLeft 2 (by decide)) twoItems t ∧
    Run (Step keepLeft) (new keepLeft 2 (by decide)) [.insert 2 true] t' ∧
    Run (SequentialSmt.Step keepLeft) (SequentialSmt.new keepLeft 2) twoItems s ∧
    Prod.fst <$> rootHash keepLeft t = treeHash keepLeft (leavesAfter false twoItems) 2 0 ∧
    Prod.fst <$> rootHash keepLeft t' = Prod.fst <$> rootHash keepLeft t ∧
    Prod.fst <$> rootHash keepLeft t = s.rootHash := by
  obtain ⟨t, hrun, -⟩ := exists_twoItems
  obtain ⟨t', ht'⟩ : ∃ t', callAll keepLeft (new keepLeft 2 (by decide)) [.insert 2 true] = .ok t' :=
    ⟨_, rfl⟩
  obtain ⟨s, hseq⟩ : ∃ s, Run (SequentialSmt.Step keepLeft) (SequentialSmt.new keepLeft 2) twoItems s :=
    ⟨_, .cons rfl (.cons rfl (.cons rfl (.cons rfl (.cons rfl (.nil _)))))⟩
  obtain ⟨hroot, -, horder, hsequential⟩ := smt_correct keepLeft (by decide) (by decide) hrun
  refine ⟨t, t', s, hrun, run_callAll ht', hseq, hroot, horder (run_callAll ht') fun i hi => ?_,
    hsequential hseq⟩
  show (leavesAfter false [.insert 2 true]) i = leavesAfter false twoItems i
  revert i
  decide

open SparseMerkleTree in
/-- At depth 64 the leaf of item 0 gets the index of the root. -/
theorem rootHash_wrong : ∃ t,
    Run (Step keepLeft) (new keepLeft 64 (by decide)) [.insert 0 true] t ∧
      Prod.fst <$> rootHash keepLeft t = .ok false ∧
      treeHash keepLeft (leavesAfter false [.insert 0 true]) 64 0 = .ok true := by
  refine ⟨_, Run.single rfl, ?_, ?_⟩
  · decide +kernel
  · rw [treeHash_keepLeft]
    rfl

end ZkSync
