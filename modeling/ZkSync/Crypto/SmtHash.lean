import ZkSync.Crypto.SmtInsert

/-!
# The sparse Merkle tree — the root hash is the hash of the full tree

`subtreeHash` is the specification: the hash of a position of the *full* binary
tree, in which every leaf without an item holds the default item. It reads the
item table only, so what it says depends neither on the order of insertions nor
on what is cached.

`TreeOk` is the invariant of the stored tree (shape, and a leaf node for each
item and no other), `HashOk` the one of the hashes in it: every cached hash is
the specified one. `insert` and `rootHash` keep both, and `rootHash` returns
`subtreeHash` of the root — the same value, or the same panic of an item whose
bits cannot be taken.
-/

namespace ZkSync

open HeapIndex Smt

namespace SparseMerkleTree

variable {T Hash : Type}

/-! ## The full tree -/

/-- The hash of a leaf that holds an item or, without one, the default item. -/
def leafHash (P : TreeParams T Hash) (item : Option T) : Outcome Hash := do
  let bits ← P.getBitsLe (item.getD P.default)
  return P.hasher.hashBits bits

/-- The hash of position `index` of the full tree of depth `depth`, `height`
levels above the leaves. -/
def subtreeHash (P : TreeParams T Hash) (depth : Nat) (items : Finmap fun _ : Nat => T) :
    Nat → Nat → Outcome Hash
  | 0, index => leafHash P (items.lookup (index - 2 ^ depth))
  | height + 1, index => do
    let lhs ← subtreeHash P depth items height (index * 2)
    let rhs ← subtreeHash P depth items height (index * 2 + 1)
    return P.hasher.compress lhs rhs height

/-- The root of the full tree. -/
def fullRoot (P : TreeParams T Hash) (depth : Nat) (items : Finmap fun _ : Nat => T) :
    Outcome Hash :=
  subtreeHash P depth items depth 1

section Spec

variable {P : TreeParams T Hash} {depth : Nat} {items items' : Finmap fun _ : Nat => T}

theorem leafHash_none (P : TreeParams T Hash) : leafHash P none = .ok (emptyHash P 0) := by
  unfold leafHash
  rw [Option.getD_none, P.getBitsLe_default]
  rfl

/-- The hash of a position depends on the leaves below it only. -/
theorem subtreeHash_congr : ∀ (height index : Nat), height ≤ depth →
    InLevel (depth - height) index →
    (∀ leaf, InLevel depth leaf → Covers index leaf →
      leafHash P (items.lookup (leaf - 2 ^ depth)) =
        leafHash P (items'.lookup (leaf - 2 ^ depth))) →
    subtreeHash P depth items height index = subtreeHash P depth items' height index := by
  intro height
  induction height with
  | zero =>
    intro index _ hlev h
    exact h index hlev (covers_refl index)
  | succ height ih =>
    intro index hle hlev h
    have hd : depth - height = depth - (height + 1) + 1 := by omega
    have hl := ih (index * 2) (by omega) (by rw [hd]; exact hlev.left) fun leaf hleaf hc =>
      h leaf hleaf (covers_trans (covers_left index) hc)
    have hr := ih (index * 2 + 1) (by omega) (by rw [hd]; exact hlev.right) fun leaf hleaf hc =>
      h leaf hleaf (covers_trans (covers_right index) hc)
    rw [subtreeHash, subtreeHash, hl, hr]

/-- Without items below it, a position has the hash of an empty subtree. -/
theorem subtreeHash_empty : ∀ (height index : Nat), height ≤ depth →
    InLevel (depth - height) index →
    (∀ leaf, InLevel depth leaf → Covers index leaf → items.lookup (leaf - 2 ^ depth) = none) →
    subtreeHash P depth items height index = .ok (emptyHash P height) := by
  intro height
  induction height with
  | zero =>
    intro index _ hlev h
    rw [subtreeHash, h index hlev (covers_refl index), leafHash_none]
  | succ height ih =>
    intro index hle hlev h
    have hd : depth - height = depth - (height + 1) + 1 := by omega
    have hl := ih (index * 2) (by omega) (by rw [hd]; exact hlev.left) fun leaf hleaf hc =>
      h leaf hleaf (covers_trans (covers_left index) hc)
    have hr := ih (index * 2 + 1) (by omega) (by rw [hd]; exact hlev.right) fun leaf hleaf hc =>
      h leaf hleaf (covers_trans (covers_right index) hc)
    rw [subtreeHash, hl, hr]
    rfl

/-- Item tables whose leaves hash alike have the same root. -/
theorem fullRoot_congr (h : ∀ i, leafHash P (items.lookup i) = leafHash P (items'.lookup i)) :
    fullRoot P depth items = fullRoot P depth items' :=
  subtreeHash_congr depth 1 (Nat.le_refl _) (by rw [Nat.sub_self]; exact inLevel_zero.mpr rfl)
    fun _ _ _ => h _

/-- Items of two kinds whose leaves hash alike have the same root. -/
theorem fullRoot_congr_params {T' : Type} {P' : TreeParams T' Hash}
    {items' : Finmap fun _ : Nat => T'} (hhasher : P.hasher = P'.hasher)
    (h : ∀ i, leafHash P (items.lookup i) = leafHash P' (items'.lookup i)) :
    fullRoot P depth items = fullRoot P' depth items' := by
  have hall : ∀ height index, subtreeHash P depth items height index =
      subtreeHash P' depth items' height index := by
    intro height
    induction height with
    | zero => exact fun _ => h _
    | succ height ih =>
      intro index
      rw [subtreeHash, subtreeHash, ih, ih, hhasher]
  exact hall depth 1

/-- When leaves fail in one way only, a position has a hash if all leaves below
it have one, and fails in that way otherwise. -/
theorem subtreeHash_cases {e : Failure} : ∀ (height index : Nat), height ≤ depth →
    InLevel (depth - height) index →
    (∀ leaf, (∃ hash, leafHash P (items.lookup (leaf - 2 ^ depth)) = .ok hash) ∨
      leafHash P (items.lookup (leaf - 2 ^ depth)) = .error e) →
    ((∃ hash, subtreeHash P depth items height index = .ok hash) ∧
      ∀ leaf, InLevel depth leaf → Covers index leaf →
        ∃ hash, leafHash P (items.lookup (leaf - 2 ^ depth)) = .ok hash) ∨
    (subtreeHash P depth items height index = .error e ∧
      ∃ leaf, InLevel depth leaf ∧ Covers index leaf ∧
        leafHash P (items.lookup (leaf - 2 ^ depth)) = .error e) := by
  intro height
  -- induction on the height: both halves are empty, or one of them is not
  induction height with
  | zero =>
    intro index _ hlev hleaf
    rw [Nat.sub_zero] at hlev
    rcases hleaf index with h | h
    · refine Or.inl ⟨h, fun leaf hl hc => ?_⟩
      obtain ⟨-, heq⟩ := hc.eq_div hlev hl
      rw [Nat.sub_self, Nat.pow_zero, Nat.div_one] at heq
      exact heq ▸ h
    · exact Or.inr ⟨h, index, hlev, covers_refl index, h⟩
  | succ height ih =>
    intro index hle hlev hleaf
    have hd : depth - height = depth - (height + 1) + 1 := by omega
    have hsplit : ∀ leaf, InLevel depth leaf → Covers index leaf →
        Covers (index * 2) leaf ∨ Covers (index * 2 + 1) leaf := by
      intro leaf hl hc
      refine covers_child hc fun he => ?_
      subst he
      have := hlev.unique hl
      omega
    rw [subtreeHash]
    rcases ih (index * 2) (by omega) (by rw [hd]; exact hlev.left) hleaf with
      ⟨⟨lhs, hl⟩, hall⟩ | ⟨hl, leaf, h1, h2, h3⟩
    · rcases ih (index * 2 + 1) (by omega) (by rw [hd]; exact hlev.right) hleaf with
        ⟨⟨rhs, hr⟩, hall'⟩ | ⟨hr, leaf, h1, h2, h3⟩
      · refine Or.inl ⟨⟨P.hasher.compress lhs rhs height, by rw [hl, hr]; rfl⟩, fun leaf h hc => ?_⟩
        rcases hsplit leaf h hc with hc | hc
        · exact hall leaf h hc
        · exact hall' leaf h hc
      · exact Or.inr ⟨by rw [hl, hr]; rfl, leaf, h1, covers_trans (covers_right index) h2, h3⟩
    · exact Or.inr ⟨by rw [hl]; rfl, leaf, h1, covers_trans (covers_left index) h2, h3⟩

variable (P depth items) in
/-- The root in the same two cases. -/
theorem fullRoot_cases {e : Failure}
    (h : ∀ i, (∃ hash, leafHash P (items.lookup i) = .ok hash) ∨
      leafHash P (items.lookup i) = .error e) :
    ((∃ hash, fullRoot P depth items = .ok hash) ∧
      ∀ i, i < 2 ^ depth → ∃ hash, leafHash P (items.lookup i) = .ok hash) ∨
    (fullRoot P depth items = .error e ∧
      ∃ i, i < 2 ^ depth ∧ leafHash P (items.lookup i) = .error e) := by
  rcases subtreeHash_cases (e := e) depth 1 (Nat.le_refl depth)
      (by rw [Nat.sub_self]; exact inLevel_zero.mpr rfl) fun leaf => h _ with
    ⟨hok, hall⟩ | ⟨herr, leaf, ⟨h1, h2⟩, -, h3⟩
  · refine Or.inl ⟨hok, fun i hi => ?_⟩
    have hlev : InLevel depth (2 ^ depth + i) := ⟨Nat.le_add_right _ _, by rw [Nat.pow_succ]; omega⟩
    have hcov : Covers 1 (2 ^ depth + i) :=
      ⟨depth, inLevel_zero.mp (InLevel.div depth (by rwa [Nat.zero_add]))⟩
    have := hall (2 ^ depth + i) hlev hcov
    rwa [Nat.add_sub_cancel_left] at this
  · refine Or.inr ⟨herr, leaf - 2 ^ depth, ?_, h3⟩
    rw [Nat.pow_succ] at h2
    omega

/-- A position one of whose children has no items: its hash is the other
child's, paired with the empty hash — and so is its failure. -/
theorem subtreeHash_gap {height x : Nat} (hh : height + 1 ≤ depth)
    (hlev : InLevel (depth - height) x)
    (hempty : ∀ leaf, InLevel depth leaf → Covers (x / 2) leaf → ¬ Covers x leaf →
      items.lookup (leaf - 2 ^ depth) = none) :
    subtreeHash P depth items (height + 1) (x / 2) = (do
      let hash ← subtreeHash P depth items height x
      let (lhs, rhs) := (NodeDirection.fromIdx x).orderElements hash (emptyHash P height)
      return P.hasher.compress lhs rhs height) := by
  have hd : depth - height = depth - (height + 1) + 1 := by omega
  have hlev' : InLevel (depth - (height + 1)) (x / 2) := (hd ▸ hlev).half
  have hpos := hlev'.pos
  rw [subtreeHash]
  rcases Nat.mod_two_eq_zero_or_one x with hx | hx
  · have hxl : x / 2 * 2 = x := by omega
    have he : subtreeHash P depth items height (x / 2 * 2 + 1) = .ok (emptyHash P height) := by
      refine subtreeHash_empty height _ (by omega) (by rw [hd]; exact hlev'.right) ?_
      intro leaf hleaf hc
      refine hempty leaf hleaf (covers_trans (covers_right _) hc) fun hc' => ?_
      rw [← hxl] at hc'
      exact not_covers_both hpos hc' hc
    rw [hxl] at he ⊢
    rw [he]
    unfold NodeDirection.fromIdx
    rw [if_pos hx]
    rfl
  · have hxr : x / 2 * 2 + 1 = x := by omega
    have he : subtreeHash P depth items height (x / 2 * 2) = .ok (emptyHash P height) := by
      refine subtreeHash_empty height _ (by omega) (by rw [hd]; exact hlev'.left) ?_
      intro leaf hleaf hc
      refine hempty leaf hleaf (covers_trans (covers_left _) hc) fun hc' => ?_
      rw [← hxr] at hc'
      exact not_covers_both hpos hc hc'
    rw [hxr, he]
    unfold NodeDirection.fromIdx
    rw [if_neg (by omega)]
    rfl

end Spec

/-! ## The invariants -/

/-- The stored tree: the node vector has its shape, and its leaves are the
leaves of the items. -/
structure TreeOk (t : SparseMerkleTree T Hash) : Prop where
  nodes : NodesOk t.treeDepth t.nodes
  root : t.root = 0
  depth : 0 < t.treeDepth
  word : t.treeDepth < 64
  leaves : ∀ i, i ∈ t.items ↔
    ∃ (r : Nat) (m : Node), t.nodes[r]? = some m ∧ m.index = 2 ^ t.treeDepth + i

/-- The stored hashes: those of the empty subtrees, and the cached ones. -/
structure HashOk (P : TreeParams T Hash) (t : SparseMerkleTree T Hash) : Prop where
  prehashed : t.prehashed = ((List.range (t.treeDepth + 1)).map (emptyHash P)).reverse
  shape : CacheShape t.nodes t.cache
  values : ∀ a v d, t.cache.lookup a = some v → InLevel d a →
    subtreeHash P t.treeDepth t.items (t.treeDepth - d) a = .ok v

theorem treeOk_new (P : TreeParams T Hash) (treeDepth : Nat) (h : 1 < treeDepth)
    (hword : treeDepth < 64) : TreeOk (new P treeDepth h) where
  nodes := nodesOk_root treeDepth
  root := rfl
  depth := by
    show 0 < treeDepth
    omega
  word := hword
  leaves i := by
    refine ⟨fun hi => absurd hi Finmap.notMem_empty, ?_⟩
    rintro ⟨r, m, hr, hm⟩
    have h1 : m.index = 1 := by
      cases r with
      | zero =>
        obtain rfl := Option.some.inj hr
        rfl
      | succ r => cases hr
    have h2 : 2 ^ 1 ≤ 2 ^ treeDepth := Nat.pow_le_pow_right (by decide) (by omega)
    have h3 : m.index = 2 ^ treeDepth + i := hm
    omega

theorem hashOk_new (P : TreeParams T Hash) (treeDepth : Nat) (h : 1 < treeDepth) :
    HashOk P (new P treeDepth h) where
  prehashed := rfl
  shape := ⟨fun _ _ ha => (by cases ha), fun _ _ ha => (by cases ha),
    fun _ _ _ _ _ ha => (by cases ha)⟩
  values _ _ _ ha := by cases ha

/-- A leaf of the full tree under which a node is stored, or nothing. -/
theorem TreeOk.lookup_none {t : SparseMerkleTree T Hash} (h : TreeOk t) {leaf : Nat}
    (hleaf : InLevel t.treeDepth leaf)
    (hno : ∀ (r : Nat) (m : Node), t.nodes[r]? = some m → m.index ≠ leaf) :
    t.items.lookup (leaf - 2 ^ t.treeDepth) = none := by
  rw [Finmap.lookup_eq_none]
  intro hi
  obtain ⟨r, m, hr, hm⟩ := (h.leaves _).mp hi
  have := hleaf.1
  exact hno r m hr (by omega)

/-! ## Insertion keeps the invariants -/

theorem TreeOk.capacity_eq {t : SparseMerkleTree T Hash} (h : TreeOk t) :
    t.capacity = 2 ^ t.treeDepth :=
  shl1_eq h.word

theorem inLevel_leaf {t : SparseMerkleTree T Hash} (h : TreeOk t) {i : Nat} (hi : i < t.capacity) :
    InLevel t.treeDepth (2 ^ t.treeDepth + i) := by
  rw [h.capacity_eq] at hi
  refine ⟨Nat.le_add_right _ _, ?_⟩
  rw [Nat.pow_succ]
  omega

theorem one_covers {t : SparseMerkleTree T Hash} (h : TreeOk t) {i : Nat}
    (hi : i < t.capacity) : Covers 1 (2 ^ t.treeDepth + i) :=
  ⟨t.treeDepth, inLevel_zero.mp (InLevel.div t.treeDepth
    (by rw [Nat.zero_add]; exact inLevel_leaf h hi))⟩

/-- `insert` of an index within the capacity returns, and it keeps the stored
tree well formed; the item table gets the item, the depth stays. -/
theorem insert_ok {t : SparseMerkleTree T Hash} (h : TreeOk t) {i : Nat}
    (hi : i < t.capacity) (item : T) :
    ∃ t', t.insert i item = .ok t' ∧ TreeOk t' ∧ t'.items = t.items.insert i item ∧
      t'.treeDepth = t.treeDepth ∧
      Inserted (2 ^ t.treeDepth + i)
        { t with items := t.items.insert i item, cache := t.cache.erase 1 } t' ∧
      (CacheShape t.nodes t.cache → Clear t'.cache (2 ^ t.treeDepth + i)) := by
  obtain ⟨n, hn, hn1⟩ := h.nodes.root
  have hdep : n.depth = 0 :=
    ((h.nodes.level 0 n hn).2).unique (by rw [hn1]; exact inLevel_zero.mpr rfl)
  have hleaf := inLevel_leaf h hi
  have hone := one_covers h hi
  obtain ⟨t', h1, h2, h3⟩ := insertLoop_spec (t.treeDepth + 1)
    { t with items := t.items.insert i item, cache := t.cache.erase 1 } 0 n h.word hleaf h.nodes hn
    (by rw [hn1]; exact hone) (by rw [hdep]; exact h.depth) (by rw [hdep]; exact Nat.lt_succ_self _)
  have hitems : t'.items = t.items.insert i item := by rw [h2.rest]
  have hdepth : t'.treeDepth = t.treeDepth := by rw [h2.rest]
  refine ⟨t', ?_, ⟨?_, ?_, ?_, ?_, ?_⟩, hitems, hdepth, h2, ?_⟩
  -- the path is built first, and its hashes are dropped behind it
  · unfold insert
    rw [Outcome.bind_eq_ok]
    refine ⟨(), Outcome.assert_eq_ok.mpr hi, ?_⟩
    rw [shl1_eq h.word]
    rw [← h.root] at h1
    exact h1
  · rw [hdepth]
    exact h2.nodes
  · rw [h2.rest]
    exact h.root
  · rw [hdepth]
    exact h.depth
  · rw [hdepth]
    exact h.word
  -- the new item is at its own index, and at no other
  · intro j
    rw [hitems, hdepth, Finmap.mem_insert, h.leaves]
    constructor
    · rintro (rfl | ⟨r, m, hr, hm⟩)
      · exact h2.stored
      · obtain ⟨m', hr', hm'⟩ := h2.kept r m hr
        exact ⟨r, m', hr', by rw [hm', hm]⟩
    · rintro ⟨r, m', hr, hm'⟩
      rcases h2.fresh r m' hr with ⟨m, hm, hidx⟩ | hidx | ⟨hcov, hne⟩
      · exact Or.inr ⟨r, m, hm, by rw [hidx, hm']⟩
      · exact Or.inl (by omega)
      · -- a split node does not stand at the leaf level
        exfalso
        have hlev := h2.nodes.level r m' hr
        have hlt := hcov.depth_lt hlev.2 hleaf hne
        have hup : m'.index < 2 ^ t.treeDepth :=
          Nat.lt_of_lt_of_le hlev.2.2 (Nat.pow_le_pow_right (by decide) hlt)
        omega
  · intro hshape
    have herase : ErasedAbove 1 t.cache (t.cache.erase 1) :=
      erasedAbove_erase (covers_refl 1) t.cache
    have hclear : Clear (t.cache.erase 1) 1 := by
      intro a ha
      obtain ⟨k, hk⟩ := ha
      by_cases ha1 : a = 1
      · rw [ha1, Finmap.lookup_erase]
      · have ha0 : a = 0 := by
          have := Nat.div_le_self 1 (2 ^ k)
          omega
        rw [Finmap.lookup_erase_ne (by omega)]
        by_contra hne
        obtain ⟨v, hv⟩ := Option.ne_none_iff_exists'.mp hne
        have := hshape.pos a v hv
        omega
    exact h3 (hshape.erase herase hclear) (by rw [hn1]; exact hclear)

/-- An insertion that returns was within the capacity. -/
theorem insert_lt {t t' : SparseMerkleTree T Hash} {i : Nat} {item : T}
    (heq : t.insert i item = .ok t') : i < t.capacity := by
  unfold insert at heq
  rw [Outcome.bind_eq_ok] at heq
  obtain ⟨_, ha, -⟩ := heq
  exact Outcome.assert_eq_ok.mp ha

/-- What `insert` returns, when it returns. -/
theorem insert_eq_ok {t t' : SparseMerkleTree T Hash} (h : TreeOk t) {i : Nat} {item : T}
    (heq : t.insert i item = .ok t') :
    TreeOk t' ∧ t'.items = t.items.insert i item ∧ t'.treeDepth = t.treeDepth := by
  obtain ⟨t'', h1, h2, h3, h4, -, -⟩ := insert_ok h (insert_lt heq) item
  rw [heq] at h1
  obtain rfl := Except.ok.inj h1
  exact ⟨h2, h3, h4⟩

/-- `insert` keeps the hashes right: what is still cached lies off the way to
the leaf, and hashes no leaf that changed. -/
theorem hashOk_insert {P : TreeParams T Hash} {t t' : SparseMerkleTree T Hash} (h : TreeOk t)
    (hh : HashOk P t) {i : Nat} (hi : i < t.capacity) {item : T}
    (heq : t.insert i item = .ok t') : HashOk P t' := by
  obtain ⟨t'', h1, -, hitems, hdepth, hins, hclear⟩ := insert_ok h hi item
  rw [heq] at h1
  obtain rfl := Except.ok.inj h1
  have hclear := hclear hh.shape
  -- an insertion adds no hash, so what is cached was cached before
  have hsub : ∀ a v, t'.cache.lookup a = some v → t.cache.lookup a = some v := by
    intro a v ha
    have hins' := hins.erased.sub a
    have herase := (erasedAbove_erase (covers_refl 1) t.cache).sub a
    rcases hins' with h1 | h1
    · rw [h1] at ha
      cases ha
    · rw [h1] at ha
      rcases herase with h2 | h2
      · rw [show ({ t with items := t.items.insert i item, cache := t.cache.erase 1 } :
          SparseMerkleTree T Hash).cache = t.cache.erase 1 from rfl, h2] at ha
        cases ha
      · rw [← h2]
        exact ha
  -- and nothing above the new item is cached any more
  have hoff : ∀ a v, t'.cache.lookup a = some v → ¬ Covers a (2 ^ t.treeDepth + i) := by
    intro a v ha hc
    rw [hclear a hc] at ha
    cases ha
  refine ⟨?_, ⟨fun a v ha => hh.shape.pos a v (hsub a v ha), ?_, ?_⟩, ?_⟩
  · rw [hdepth, hins.rest]
    exact hh.prehashed
  · intro a v ha
    obtain ⟨r, m, hr, hm⟩ := hh.shape.occupied a v (hsub a v ha)
    obtain ⟨m', hr', hm'⟩ := hins.kept r m hr
    exact ⟨r, m', hr', by rw [hm']; exact hm⟩
  · intro a v x r m' ha hax hr hxm
    rcases hins.fresh r m' hr with ⟨m, hm, hidx⟩ | hidx | ⟨hcov, -⟩
    · obtain ⟨w, hw⟩ := hh.shape.closed a v x r m (hsub a v ha) hax hm (by rw [hidx]; exact hxm)
      refine ⟨w, ?_⟩
      have hxoff : ¬ Covers x (2 ^ t.treeDepth + i) := fun hc => hoff a v ha (covers_trans hax hc)
      have h1 : t'.cache.lookup x = (t.cache.erase 1).lookup x := hins.erased.same x hxoff
      rw [h1, Finmap.lookup_erase_if, if_neg, hw]
      rintro rfl
      exact hxoff (one_covers h hi)
    · exact absurd (covers_trans hax (by rw [← hidx]; exact hxm)) (hoff a v ha)
    · exact absurd (covers_trans hax (covers_trans hxm hcov)) (hoff a v ha)
  · intro a v d ha hlev
    have hold := hh.values a v d (hsub a v ha) hlev
    rw [hdepth, hitems, ← hold]
    have hd : d ≤ t.treeDepth := by
      obtain ⟨r, m, hr, hm⟩ := hh.shape.occupied a v (hsub a v ha)
      have hl := h.nodes.level r m hr
      exact Nat.le_trans (hm.eq_div hlev hl.2).1 hl.1
    refine subtreeHash_congr _ a (by omega) (by rwa [Nat.sub_sub_self hd]) ?_
    intro leaf hleaf hc
    rw [Finmap.lookup_insert_if, if_neg]
    rintro rfl
    refine hoff a v ha ?_
    rwa [Nat.add_sub_cancel' hleaf.1]

/-! ## Hashing computes the specification -/

/-- An occupied node stands at or below `x`. -/
def Occupied (t : SparseMerkleTree T Hash) (x : Nat) : Prop :=
  ∃ (r : Nat) (m : Node), t.nodes[r]? = some m ∧ Covers x m.index

/-- The entries found while hashing position `a`: right values, at occupied
positions below `a`, and together with the cache all of these. -/
structure UpdatesOk (P : TreeParams T Hash) (t : SparseMerkleTree T Hash) (a : Nat)
    (updates : List (Nat × Hash)) : Prop where
  pos : ∀ e ∈ updates, 0 < e.1
  occupied : ∀ e ∈ updates, Occupied t e.1
  values : ∀ e ∈ updates, ∀ d, InLevel d e.1 →
    subtreeHash P t.treeDepth t.items (t.treeDepth - d) e.1 = .ok e.2
  all : ∀ x, Covers a x → Occupied t x →
    (∃ v, t.cache.lookup x = some v) ∨ x ∈ updates.map Prod.fst

/-- The outcome of hashing position `a`, `height` levels above the leaves. -/
def Computes (P : TreeParams T Hash) (t : SparseMerkleTree T Hash) (a height : Nat) :
    Outcome (HashAndUpdates Hash) → Prop
  | .ok (hash, updates) =>
    subtreeHash P t.treeDepth t.items height a = .ok hash ∧ UpdatesOk P t a updates
  | .error e => subtreeHash P t.treeDepth t.items height a = .error e

section Hashing

variable {P : TreeParams T Hash} {t : SparseMerkleTree T Hash}

theorem HashOk.prehashed_get (hh : HashOk P t) {d : Nat} (hd : d ≤ t.treeDepth) :
    t.prehashed[d]? = some (emptyHash P (t.treeDepth - d)) := by
  have hlen : d < ((List.range (t.treeDepth + 1)).map (emptyHash P)).length := by
    rw [List.length_map, List.length_range]
    omega
  rw [hh.prehashed, List.getElem?_reverse hlen, List.length_map, List.length_range,
    List.getElem?_map, List.getElem?_range (by omega), Option.map_some]
  congr 2

/-- One entry more, for the half of the position. -/
theorem UpdatesOk.snoc {x : Nat} {updates : List (Nat × Hash)} {hash : Hash} {d : Nat}
    (h : UpdatesOk P t x updates) (hlev : InLevel d (x / 2)) (hocc : Occupied t (x / 2))
    (hval : subtreeHash P t.treeDepth t.items (t.treeDepth - d) (x / 2) = .ok hash)
    (hall : ∀ y, Covers (x / 2) y → Occupied t y → x / 2 = y ∨ Covers x y) :
    UpdatesOk P t (x / 2) (updates ++ [(x / 2, hash)]) := by
  have hmem : ∀ e ∈ updates ++ [(x / 2, hash)], e ∈ updates ∨ e = (x / 2, hash) := fun e he => by
    simpa using he
  refine ⟨?_, ?_, ?_, ?_⟩
  · intro e he
    rcases hmem e he with he | rfl
    · exact h.pos e he
    · exact hlev.pos
  · intro e he
    rcases hmem e he with he | rfl
    · exact h.occupied e he
    · exact hocc
  · intro e he d' hd'
    rcases hmem e he with he | rfl
    · exact h.values e he d' hd'
    · rw [← hlev.unique hd']
      exact hval
  · intro y hy hoy
    rw [List.map_append, List.mem_append]
    rcases hall y hy hoy with rfl | hxy
    · exact Or.inr (Or.inr (List.mem_singleton.mpr rfl))
    · rcases h.all y hxy hoy with h1 | h1
      · exact Or.inl h1
      · exact Or.inr (Or.inl h1)

section Gaps

variable {a parentDepth : Nat}

/-- A leaf below `x / 2` and not below `x` holds no item, where all that is
stored below `a` is stored below `x`. -/
theorem gap_empty (h : TreeOk t) {x : Nat}
    (hall : ∀ (r : Nat) (m : Node), t.nodes[r]? = some m → Covers a m.index → Covers x m.index)
    (hcov : Covers a (x / 2)) : ∀ leaf, InLevel t.treeDepth leaf → Covers (x / 2) leaf →
      ¬ Covers x leaf → t.items.lookup (leaf - 2 ^ t.treeDepth) = none := by
  intro leaf hleaf hc hnc
  refine h.lookup_none hleaf fun r m hr hm => hnc ?_
  have := hall r m hr (by rw [hm]; exact covers_trans hcov hc)
  rwa [hm] at this

/-- The loop over the gap between a child and its parent. The induction is on
the depth the loop has reached. -/
theorem fillGaps_spec (h : TreeOk t) (hh : HashOk P t) (ha : InLevel (parentDepth + 1) a) :
    ∀ (curDepth x : Nat) (hash : Hash) (updates : List (Nat × Hash)),
    parentDepth ≤ curDepth → curDepth + 1 ≤ t.treeDepth → InLevel (curDepth + 1) x →
    Covers a x → Occupied t x →
    (∀ (r : Nat) (m : Node), t.nodes[r]? = some m → Covers a m.index → Covers x m.index) →
    subtreeHash P t.treeDepth t.items (t.treeDepth - (curDepth + 1)) x = .ok hash →
    UpdatesOk P t x updates →
    ∃ hash' updates', fillGaps P t parentDepth curDepth x (hash, updates) = .ok (hash', updates') ∧
      subtreeHash P t.treeDepth t.items (t.treeDepth - (parentDepth + 1)) a = .ok hash' ∧
      UpdatesOk P t a updates' := by
  intro curDepth
  -- induction on the levels between the node and its child, which the empty hashes fill
  induction curDepth with
  | zero =>
    intro x hash updates hpd hle hlev hcov hocc hall hval hups
    have hp : parentDepth = 0 := by omega
    subst hp
    have hx : a = x := by
      by_contra hne
      have := hcov.depth_lt ha hlev hne
      omega
    subst hx
    exact ⟨hash, updates, rfl, hval, hups⟩
  | succ d ih =>
    intro x hash updates hpd hle hlev hcov hocc hall hval hups
    rw [fillGaps]
    by_cases hgt : d + 1 > parentDepth
    · have hne : a ≠ x := by
        rintro rfl
        have := ha.unique hlev
        omega
      have hcov' := hcov.half hne
      have hlev' : InLevel (d + 1) (x / 2) := hlev.half
      have hocc' : Occupied t (x / 2) := by
        obtain ⟨r, m, hr, hm⟩ := hocc
        exact ⟨r, m, hr, covers_trans (covers_half x) hm⟩
      have hlvl : t.treeDepth - (t.treeDepth - (d + 2)) = d + 2 := by omega
      have hgap := subtreeHash_gap (P := P) (show t.treeDepth - (d + 2) + 1 ≤ t.treeDepth by omega)
        (by rw [hlvl]; exact hlev) (gap_empty h hall hcov')
      have hval2 : subtreeHash P t.treeDepth t.items (t.treeDepth - (d + 2)) x = .ok hash := hval
      rw [hval2, Outcome.ok_bind] at hgap
      have hsucc : t.treeDepth - (d + 2) + 1 = t.treeDepth - (d + 1) := by omega
      rw [hsucc] at hgap
      have hpre := hh.prehashed_get (show d + 2 ≤ t.treeDepth by omega)
      rw [if_pos hgt, hpre]
      simp only [Outcome.expect, Outcome.ok_bind, calculateHash, calculateLevel]
      refine ih (x / 2) _ _ (by omega) (by omega) hlev' hcov' hocc' ?_ hgap
        (hups.snoc hlev' hocc' hgap ?_)
      · intro r m hr hm
        exact covers_trans (covers_half x) (hall r m hr hm)
      · rintro y hy ⟨r, m, hr, hm⟩
        rcases covers_total (hall r m hr (covers_trans hcov' (covers_trans hy hm))) hm with hc | hc
        · exact Or.inr hc
        · by_cases hyx : y = x
          · exact Or.inr (by rw [hyx]; exact covers_refl x)
          · exact Or.inl (covers_antisymm hy (hc.half hyx))
    · have hp : parentDepth = d + 1 := by omega
      subst hp
      have hx : a = x := by
        by_contra hne
        have := hcov.depth_lt ha hlev hne
        omega
      subst hx
      rw [if_neg hgt]
      exact ⟨hash, updates, rfl, hval, hups⟩

/-- Through a gap a failure passes unchanged. -/
theorem gap_error (h : TreeOk t) (ha : InLevel (parentDepth + 1) a) {e : Failure} :
    ∀ (curDepth x : Nat), parentDepth ≤ curDepth → curDepth + 1 ≤ t.treeDepth →
    InLevel (curDepth + 1) x → Covers a x →
    (∀ (r : Nat) (m : Node), t.nodes[r]? = some m → Covers a m.index → Covers x m.index) →
    subtreeHash P t.treeDepth t.items (t.treeDepth - (curDepth + 1)) x = .error e →
    subtreeHash P t.treeDepth t.items (t.treeDepth - (parentDepth + 1)) a = .error e := by
  intro curDepth
  induction curDepth with
  | zero =>
    intro x hpd hle hlev hcov hall hval
    have hp : parentDepth = 0 := by omega
    subst hp
    have hx : a = x := by
      by_contra hne
      have := hcov.depth_lt ha hlev hne
      omega
    subst hx
    exact hval
  | succ d ih =>
    intro x hpd hle hlev hcov hall hval
    by_cases hax : a = x
    · subst hax
      have := ha.unique hlev
      rw [this]
      exact hval
    · have hlt := hcov.depth_lt ha hlev hax
      have hcov' := hcov.half hax
      have hlvl : t.treeDepth - (t.treeDepth - (d + 2)) = d + 2 := by omega
      have hgap := subtreeHash_gap (P := P) (show t.treeDepth - (d + 2) + 1 ≤ t.treeDepth by omega)
        (by rw [hlvl]; exact hlev) (gap_empty h hall hcov')
      have hval2 : subtreeHash P t.treeDepth t.items (t.treeDepth - (d + 2)) x = .error e := hval
      rw [hval2, Outcome.error_bind] at hgap
      have hsucc : t.treeDepth - (d + 2) + 1 = t.treeDepth - (d + 1) := by omega
      rw [hsucc] at hgap
      refine ih (x / 2) (by omega) (by omega) hlev.half hcov' ?_ hgap
      intro r m hr hm
      exact covers_trans (covers_half x) (hall r m hr hm)

end Gaps

/-- `get_child_hash` computes the hash of a direction, if the recursive call
computes the hash of the child hanging there. -/
theorem getChildHash_spec (h : TreeOk t) (hh : HashOk P t) {r : Nat} {n : Node}
    (hr : t.nodes[r]? = some n) (hn : n.depth < t.treeDepth) (dir : NodeDirection)
    {rec : Nat → Outcome (HashAndUpdates Hash)}
    (hrec : ∀ (c : Nat) (k : Node), t.nodes[c]? = some k → n.depth < k.depth →
      Computes P t k.index (t.treeDepth - k.depth) (rec c)) :
    Computes P t (dir.childIndex n.index) (t.treeDepth - (n.depth + 1))
      (getChildHash P t rec n dir) := by
  have hnlev := (h.nodes.level r n hr).2
  have hlev := dir.inLevel_childIndex hnlev
  unfold getChildHash
  cases hcached : t.cache.lookup (dir.childIndex n.index) with
  | some cached =>
    refine ⟨hh.values _ cached _ hcached hlev, ⟨?_, ?_, ?_, ?_⟩⟩
    · exact fun e he => absurd he List.not_mem_nil
    · exact fun e he => absurd he List.not_mem_nil
    · exact fun e he => absurd he List.not_mem_nil
    · rintro x hx ⟨i, m, hi, hm⟩
      exact Or.inl (hh.shape.closed _ cached x i m hcached hx hi hm)
  | none =>
    cases hchild : n.child dir with
    | none =>
      -- nothing hangs here, nothing is stored below
      have hno : ∀ (i : Nat) (m : Node), t.nodes[i]? = some m →
          ¬ Covers (dir.childIndex n.index) m.index := by
        intro i m hi hm
        obtain ⟨c, k, hc, -, -⟩ := h.nodes.cover r n dir i m hr hi hm
        rw [hchild] at hc
        cases hc
      simp only [hh.prehashed_get (show n.depth + 1 ≤ t.treeDepth by omega), Outcome.expect,
        Outcome.ok_bind, Outcome.pure_eq]
      refine ⟨?_, ⟨?_, ?_, ?_, ?_⟩⟩
      · refine subtreeHash_empty _ _ (by omega) ?_ ?_
        · rwa [show t.treeDepth - (t.treeDepth - (n.depth + 1)) = n.depth + 1 by omega]
        · intro leaf hleaf hc
          refine h.lookup_none hleaf fun i m hi hm => hno i m hi ?_
          rwa [hm]
      · exact fun e he => absurd he List.not_mem_nil
      · exact fun e he => absurd he List.not_mem_nil
      · exact fun e he => absurd he List.not_mem_nil
      · rintro x hx ⟨i, m, hi, hm⟩
        exact absurd (covers_trans hx hm) (hno i m hi)
    | some c =>
      obtain ⟨k, hk, hkcov⟩ := h.nodes.child r n dir c hr hchild
      have hklev := h.nodes.level c k hk
      have hdlt : n.depth + 1 ≤ k.depth := (hkcov.eq_div hlev hklev.2).1
      have hnode : t.node c = .ok k := by
        unfold node
        rw [hk]
        rfl
      have hall : ∀ (i : Nat) (m : Node), t.nodes[i]? = some m →
          Covers (dir.childIndex n.index) m.index → Covers k.index m.index := by
        intro i m hi hm
        obtain ⟨c', k', hc', hk', hcov'⟩ := h.nodes.cover r n dir i m hr hi hm
        rw [hchild] at hc'
        obtain rfl := Option.some.inj hc'
        rw [hk] at hk'
        rw [Option.some.inj hk']
        exact hcov'
      have hsub : k.depth - 1 + 1 = k.depth := by omega
      have hcomp := hrec c k hk (by omega)
      simp only [hnode, Outcome.ok_bind]
      cases hres : rec c with
      | error e =>
        rw [hres] at hcomp
        exact gap_error h hlev (k.depth - 1) k.index (by omega) (by omega)
          (by rw [hsub]; exact hklev.2) hkcov hall (by rw [hsub]; exact hcomp)
      | ok res =>
        obtain ⟨hash, updates⟩ := res
        rw [hres] at hcomp
        obtain ⟨hval, hups⟩ := hcomp
        obtain ⟨hash', updates', h1, h2, h3⟩ := fillGaps_spec h hh hlev (k.depth - 1) k.index hash
          updates (by omega) (by omega) (by rw [hsub]; exact hklev.2) hkcov
          ⟨c, k, hk, covers_refl _⟩ hall (by rw [hsub]; exact hval) hups
        rw [Outcome.ok_bind, h1]
        exact ⟨h2, h3⟩

/-- `get_hash` computes the hash of a node. The induction is on its bound; a
child is deeper than its parent. -/
theorem getHash_spec (h : TreeOk t) (hh : HashOk P t) : ∀ (fuel r : Nat) (n : Node),
    t.nodes[r]? = some n → t.treeDepth - n.depth < fuel →
    Computes P t n.index (t.treeDepth - n.depth) (getHash P t fuel r) := by
  intro fuel
  -- induction on the fuel: a node is one level nearer to the items than its parent
  induction fuel with
  | zero => exact fun r n _ hlt => absurd hlt (Nat.not_lt_zero _)
  | succ fuel ih =>
    intro r n hr hfuel
    obtain ⟨hle, hlev⟩ := h.nodes.level r n hr
    have hnode : t.node r = .ok n := by
      unfold node
      rw [hr]
      rfl
    rw [getHash]
    simp only [hnode, Outcome.ok_bind]
    split
    next hleaf =>
      rw [hleaf] at hlev
      have hlow := hlev.1
      obtain ⟨item, hitem⟩ := Finmap.mem_iff.mp
        ((h.leaves (n.index - 2 ^ t.treeDepth)).mpr ⟨r, n, hr, by omega⟩)
      have hspec : subtreeHash P t.treeDepth t.items 0 n.index = leafHash P (some item) := by
        rw [subtreeHash, hitem]
      have hkey : t.items.lookup (n.index - shl1 t.treeDepth) = some item := by
        rw [shl1_eq h.word]
        exact hitem
      simp only [hkey, Outcome.expect, Outcome.ok_bind]
      rw [hleaf, Nat.sub_self]
      unfold leafHash at hspec
      rw [Option.getD_some] at hspec
      cases hbits : P.getBitsLe item with
      | error e =>
        rw [hbits] at hspec
        exact hspec
      | ok bits =>
        rw [hbits] at hspec
        refine ⟨hspec, ⟨?_, ?_, ?_, ?_⟩⟩
        · intro e he
          rw [List.mem_singleton.mp he]
          exact hlev.pos
        · intro e he
          rw [List.mem_singleton.mp he]
          exact ⟨r, n, hr, covers_refl _⟩
        · intro e he d hd
          rw [List.mem_singleton.mp he] at hd ⊢
          rw [← hlev.unique hd, Nat.sub_self]
          exact hspec
        · rintro x hx ⟨i, m, hi, hm⟩
          right
          have hmn : n.index = m.index := by
            by_contra hne
            have hm' := h.nodes.level i m hi
            have := (covers_trans hx hm).depth_lt hlev hm'.2 hne
            omega
          rw [← hmn] at hm
          rw [covers_antisymm hm hx]
          exact List.mem_singleton.mpr rfl
    next hinner =>
      have hlt : n.depth < t.treeDepth := by omega
      have hrec : ∀ (c : Nat) (k : Node), t.nodes[c]? = some k → n.depth < k.depth →
          Computes P t k.index (t.treeDepth - k.depth) (getHash P t fuel c) := fun c k hk hd =>
        ih c k hk (by
          have := (h.nodes.level c k hk).1
          omega)
      have hl := getChildHash_spec h hh hr hlt .Left hrec
      have hrt := getChildHash_spec h hh hr hlt .Right hrec
      have hsucc : t.treeDepth - n.depth = t.treeDepth - (n.depth + 1) + 1 := by omega
      have hstep : subtreeHash P t.treeDepth t.items (t.treeDepth - n.depth) n.index = (do
          let lhs ← subtreeHash P t.treeDepth t.items (t.treeDepth - (n.depth + 1))
            (NodeDirection.childIndex .Left n.index)
          let rhs ← subtreeHash P t.treeDepth t.items (t.treeDepth - (n.depth + 1))
            (NodeDirection.childIndex .Right n.index)
          return P.hasher.compress lhs rhs (t.treeDepth - (n.depth + 1))) := by
        rw [hsucc]
        rfl
      cases hresl : getChildHash P t (getHash P t fuel) n .Left with
      | error e =>
        rw [hresl] at hl
        have hl' : subtreeHash P t.treeDepth t.items (t.treeDepth - (n.depth + 1))
            (NodeDirection.childIndex .Left n.index) = .error e := hl
        rw [hl'] at hstep
        exact hstep
      | ok resl =>
        obtain ⟨lhs, lhsUpdates⟩ := resl
        rw [hresl] at hl
        obtain ⟨hlv, hlu⟩ := hl
        rw [hlv, Outcome.ok_bind] at hstep
        simp only [Outcome.ok_bind]
        cases hresr : getChildHash P t (getHash P t fuel) n .Right with
        | error e =>
          rw [hresr] at hrt
          have hr' : subtreeHash P t.treeDepth t.items (t.treeDepth - (n.depth + 1))
              (NodeDirection.childIndex .Right n.index) = .error e := hrt
          rw [hr'] at hstep
          exact hstep
        | ok resr =>
          obtain ⟨rhs, rhsUpdates⟩ := resr
          rw [hresr] at hrt
          obtain ⟨hrv, hru⟩ := hrt
          rw [hrv, Outcome.ok_bind] at hstep
          have hlvl : t.calculateLevel n.depth = t.treeDepth - (n.depth + 1) := by
            unfold calculateLevel
            omega
          simp only [Outcome.ok_bind, Outcome.pure_eq, calculateHash, hlvl]
          have hmem : ∀ e ∈ lhsUpdates ++ rhsUpdates ++
              [(n.index, P.hasher.compress lhs rhs (t.treeDepth - (n.depth + 1)))],
              e ∈ lhsUpdates ∨ e ∈ rhsUpdates ∨
                e = (n.index, P.hasher.compress lhs rhs (t.treeDepth - (n.depth + 1))) := by
            intro e he
            simpa [or_assoc] using he
          refine ⟨hstep, ⟨?_, ?_, ?_, ?_⟩⟩
          · intro e he
            rcases hmem e he with he | he | rfl
            · exact hlu.pos e he
            · exact hru.pos e he
            · exact hlev.pos
          · intro e he
            rcases hmem e he with he | he | rfl
            · exact hlu.occupied e he
            · exact hru.occupied e he
            · exact ⟨r, n, hr, covers_refl _⟩
          · intro e he d hd
            rcases hmem e he with he | he | rfl
            · exact hlu.values e he d hd
            · exact hru.values e he d hd
            · rw [← hlev.unique hd]
              exact hstep
          · intro x hx hox
            rw [List.map_append, List.map_append, List.mem_append, List.mem_append]
            by_cases hnx : n.index = x
            · exact Or.inr (Or.inr (by rw [hnx]; exact List.mem_singleton.mpr rfl))
            obtain ⟨dir, hdir⟩ := NodeDirection.exists_covers hx hnx
            cases dir with
            | Left =>
              rcases hlu.all x hdir hox with h1 | h1
              · exact Or.inl h1
              · exact Or.inr (Or.inl (Or.inl h1))
            | Right =>
              rcases hru.all x hdir hox with h1 | h1
              · exact Or.inl h1
              · exact Or.inr (Or.inl (Or.inr h1))

/-! ### The root -/

theorem lookup_foldl_insert : ∀ (updates : List (Nat × Hash))
    (cache : Finmap fun _ : Nat => Hash) (a : Nat),
    (∀ v, (updates.foldl (fun cache (idx, hash) => cache.insert idx hash) cache).lookup a =
      some v → (a, v) ∈ updates ∨ cache.lookup a = some v) ∧
    ((a ∈ updates.map Prod.fst ∨ ∃ v, cache.lookup a = some v) →
      ∃ v, (updates.foldl (fun cache (idx, hash) => cache.insert idx hash) cache).lookup a =
        some v) := by
  intro updates
  induction updates with
  | nil =>
    intro cache a
    refine ⟨fun v hv => Or.inr hv, ?_⟩
    rintro (h | h)
    · exact absurd h List.not_mem_nil
    · exact h
  | cons u updates ih =>
    obtain ⟨idx, hash⟩ := u
    intro cache a
    obtain ⟨h1, h2⟩ := ih (cache.insert idx hash) a
    refine ⟨fun v hv => ?_, fun h => h2 ?_⟩
    · rcases h1 v hv with h | h
      · exact Or.inl (List.mem_cons_of_mem _ h)
      · rw [Finmap.lookup_insert_if] at h
        split at h
        next ha =>
          rw [ha, ← Option.some.inj h]
          exact Or.inl List.mem_cons_self
        next => exact Or.inr h
    · rw [List.map_cons, List.mem_cons] at h
      rw [Finmap.lookup_insert_if]
      rcases h with (h | h) | h
      · exact Or.inr ⟨hash, by rw [if_pos h]⟩
      · exact Or.inl h
      · right
        split
        · exact ⟨hash, rfl⟩
        · exact h

/-- `root_hash` returns the root of the full tree over the items, or panics as
that does. -/
theorem rootHash_eq (h : TreeOk t) (hh : HashOk P t) :
    Prod.fst <$> rootHash P t = fullRoot P t.treeDepth t.items := by
  obtain ⟨n, hn, hn1⟩ := h.nodes.root
  have hdep : n.depth = 0 :=
    ((h.nodes.level 0 n hn).2).unique (by rw [hn1]; exact inLevel_zero.mpr rfl)
  have hspec := getHash_spec h hh (t.treeDepth + 1) 0 n hn (by omega)
  rw [hn1, hdep, Nat.sub_zero] at hspec
  unfold rootHash fullRoot
  cases hres : getHash P t (t.treeDepth + 1) 0 with
  | error e =>
    rw [hres] at hspec
    have hspec' : subtreeHash P t.treeDepth t.items t.treeDepth 1 = .error e := hspec
    rw [hspec']
    rfl
  | ok res =>
    rw [hres] at hspec
    rw [hspec.1]
    rfl

/-- `root_hash` changes nothing but the cache. -/
theorem rootHash_frame {hash : Hash} {t' : SparseMerkleTree T Hash}
    (heq : rootHash P t = .ok (hash, t')) : t' = { t with cache := t'.cache } := by
  unfold rootHash at heq
  rw [Outcome.bind_eq_ok] at heq
  obtain ⟨⟨hash₀, updates⟩, -, heq⟩ := heq
  rw [← (Prod.mk.inj (Except.ok.inj heq)).2]

theorem rootHash_treeOk (h : TreeOk t) {hash : Hash} {t' : SparseMerkleTree T Hash}
    (heq : rootHash P t = .ok (hash, t')) : TreeOk t' := by
  rw [rootHash_frame heq]
  exact ⟨h.nodes, h.root, h.depth, h.word, h.leaves⟩

/-- `root_hash` keeps the cache right. -/
theorem rootHash_hashOk (h : TreeOk t) (hh : HashOk P t) {hash : Hash} {t' : SparseMerkleTree T Hash}
    (heq : rootHash P t = .ok (hash, t')) : HashOk P t' := by
  obtain ⟨n, hn, hn1⟩ := h.nodes.root
  have hdep : n.depth = 0 :=
    ((h.nodes.level 0 n hn).2).unique (by rw [hn1]; exact inLevel_zero.mpr rfl)
  -- the walk from the root fills the cache
  have hspec := getHash_spec h hh (t.treeDepth + 1) 0 n hn (by omega)
  unfold rootHash at heq
  rw [Outcome.bind_eq_ok] at heq
  obtain ⟨⟨hash₀, updates⟩, hres, heq⟩ := heq
  rw [hres] at hspec
  obtain ⟨-, hups⟩ := hspec
  have ht' : t' =
      { t with
        cache := updates.foldl (fun cache (idx, hash) => cache.insert idx hash) t.cache } :=
    (Prod.mk.inj (Except.ok.inj heq)).2.symm
  subst ht'
  refine ⟨hh.prehashed, ⟨?_, ?_, ?_⟩, ?_⟩
  · intro a v ha
    rcases (lookup_foldl_insert updates t.cache a).1 v ha with hu | hu
    · exact hups.pos _ hu
    · exact hh.shape.pos a v hu
  · intro a v ha
    rcases (lookup_foldl_insert updates t.cache a).1 v ha with hu | hu
    · exact hups.occupied _ hu
    · exact hh.shape.occupied a v hu
  · -- after hashing the root every occupied position is cached
    intro a v x r m ha hax hr hxm
    have hm := h.nodes.level r m hr
    have hxpos : 0 < x := by
      have hle := hax.le
      rcases (lookup_foldl_insert updates t.cache a).1 v ha with hu | hu
      · exact Nat.lt_of_lt_of_le (hups.pos _ hu) hle
      · exact Nat.lt_of_lt_of_le (hh.shape.pos a v hu) hle
    have hone : Covers 1 m.index := by
      refine ⟨m.depth, inLevel_zero.mp (InLevel.div m.depth ?_)⟩
      rw [Nat.zero_add]
      exact hm.2
    refine (lookup_foldl_insert updates t.cache x).2 ?_
    have hx1 : Covers n.index x := by
      rw [hn1]
      rcases covers_total hone hxm with hc | hc
      · exact hc
      · have := hc.le
        rw [show x = 1 by omega]
        exact covers_refl 1
    rcases hups.all x hx1 ⟨r, m, hr, hxm⟩ with h1 | h1
    · exact Or.inr h1
    · exact Or.inl h1
  · intro a v d ha hlev
    rcases (lookup_foldl_insert updates t.cache a).1 v ha with hu | hu
    · exact hups.values _ hu d hlev
    · exact hh.values a v d hu hlev

end Hashing

end SparseMerkleTree

end ZkSync
