import ZkSync.Crypto.TreeCache

/-!
# The sparse Merkle tree — only the bits of an item count

A tree reads its items through `get_bits_le`. So a tree of items runs like the tree of
their bits (`HasBits.call`): the nodes, the cache and every answer are the same. Two trees
over different items, or over items of different types, are compared in this way: a cache
that was taken from one fits the other when the bits agree.
-/

namespace ZkSync

open HeapIndex Smt TreeCall

namespace SparseMerkleTree

variable {T S Hash : Type}

/-- Bits as items. Taking the bits of an item may panic, so they are an `Outcome`. -/
def bitsParams (P : TreeParams T Hash) : TreeParams (Outcome (List Bool)) Hash where
  hasher := P.hasher
  default := .ok P.defaultBits
  getBitsLe := fun bits => bits
  defaultBits := P.defaultBits
  getBitsLe_default := rfl

/-- The tree over another table of items. -/
def withItems (t : SparseMerkleTree T Hash) (items : Finmap fun _ : Nat => S) :
    SparseMerkleTree S Hash where
  items := items
  treeDepth := t.treeDepth
  root := t.root
  nodes := t.nodes
  prehashed := t.prehashed
  cache := t.cache

/-- `u` is `t` with the bits of the items in their place. -/
structure HasBits (P : TreeParams T Hash) (t : SparseMerkleTree T Hash)
    (u : SparseMerkleTree (Outcome (List Bool)) Hash) : Prop where
  rest : u = t.withItems u.items
  items : ∀ i, u.items.lookup i = (t.items.lookup i).map P.getBitsLe

section Insertion

variable {t : SparseMerkleTree T Hash} (items : Finmap fun _ : Nat => S)

theorem node_withItems (ref : Nat) : (t.withItems items).node ref = t.node ref := rfl

/-- The items play no part in what is wiped. -/
theorem wipeCache_withItems (child parent : Nat) :
    (t.withItems items).wipeCache child parent = (t.wipeCache child parent).withItems items := by
  unfold wipeCache
  split
  next hcached => rw [if_pos (show (t.cache.lookup child).isSome from hcached)]; rfl
  next hcached => rw [if_neg (show ¬ (t.cache.lookup child).isSome from hcached)]

/-- Nor in how nodes are added. -/
theorem addChildNode_withItems (ref child : Nat) (dir : NodeDirection) :
    (t.withItems items).addChildNode ref dir child =
      (fun t' => t'.withItems items) <$> t.addChildNode ref dir child := by
  unfold addChildNode
  rw [node_withItems]
  cases t.node ref with
  | ok node => rfl
  | error e => rfl

/-- The loop of `insert` does not look at the items. The induction is on its bound. -/
theorem insertLoop_withItems (leafIndex : Nat) :
    ∀ (fuel : Nat) (t : SparseMerkleTree T Hash) (ref : Nat),
      insertLoop leafIndex fuel (t.withItems items) ref =
        (fun t' => t'.withItems items) <$> insertLoop leafIndex fuel t ref := by
  intro fuel
  induction fuel with
  | zero => exact fun _ _ => rfl
  | succ fuel ih =>
    intro t ref
    rw [insertLoop, insertLoop, node_withItems]
    cases t.node ref with
    | error e => rfl
    | ok currentNode =>
      have hlevel : (t.withItems items).calculateLevel currentNode.depth =
          t.calculateLevel currentNode.depth := rfl
      simp only [Outcome.ok_bind, hlevel]
      split
      next nextRef _ =>
        rw [node_withItems]
        cases t.node nextRef with
        | error e => rfl
        | ok next =>
          have hdepth : (t.withItems items).treeDepth = t.treeDepth := rfl
          simp only [Outcome.ok_bind, wipeCache_withItems, hdepth]
          split
          · split
            · rfl
            · exact ih _ _
          · -- the leaf and the split node are appended, then the split node is hung in
            exact addChildNode_withItems (t := ((((t.wipeCache _ _).insertNode _ _ _ _).1).insertNode
              _ _ _ _).1) items _ _ _
      next => exact addChildNode_withItems (t := (t.insertNode _ _ _ _).1) items _ _ _

end Insertion

/-! ## Calls -/

section Calls

variable {P : TreeParams T Hash} {t t' : SparseMerkleTree T Hash}
  {u u' : SparseMerkleTree (Outcome (List Bool)) Hash}

/-- Empty subtrees have the same hashes in both trees. -/
theorem emptyHash_bits (P : TreeParams T Hash) (height : Nat) :
    emptyHash (bitsParams P) height = emptyHash P height := by
  induction height with
  | zero => rfl
  | succ height ih =>
    rw [emptyHash, emptyHash, ih]
    rfl

/-- Empty trees have the same bits. -/
theorem hasBits_new (P : TreeParams T Hash) {depth : Nat} (hdepth : 1 < depth) :
    HasBits P (new P depth hdepth) (new (bitsParams P) depth hdepth) where
  rest := by
    have hempty : emptyHash (bitsParams P) = emptyHash P := funext (emptyHash_bits P)
    unfold new
    rw [hempty]
    rfl
  items i := by
    show (∅ : Finmap fun _ : Nat => Outcome (List Bool)).lookup i =
      ((∅ : Finmap fun _ : Nat => T).lookup i).map _
    rw [Finmap.lookup_empty, Finmap.lookup_empty]
    rfl

/-- An insertion writes the one item. -/
theorem items_of_insert {i : Nat} {item : T} (h : t.insert i item = .ok t') :
    t'.items = t.items.insert i item := by
  have hsame := insert_items t.items t i item
  rw [show ({ t with items := t.items } : SparseMerkleTree T Hash) = t from rfl, h] at hsame
  exact congrArg SparseMerkleTree.items (Except.ok.inj hsame)

/-- Hashing changes no item. -/
theorem items_of_rootHash {hash : Hash} (h : t.rootHash P = .ok (hash, t')) : t'.items = t.items := by
  obtain ⟨_, -, h⟩ := Outcome.bind_eq_ok.mp h
  cases h
  rfl

/-- Nor does replacing the hashes. -/
theorem items_of_setInternals {t t' : SparseMerkleTree T Fr}
    {internals : SparseMerkleTreeSerializableCacheBN256} (h : t.setInternals internals = .ok t') :
    t'.items = t.items := by
  obtain ⟨_, -, h⟩ := Outcome.bind_eq_ok.mp h
  cases h
  rfl

/-- An item and its bits are inserted at once. -/
theorem HasBits.insert (h : HasBits P t u) (i : Nat) (item : T) :
    Outcome.Related (HasBits P) (t.insert i item) (u.insert i (P.getBitsLe item)) := by
  have hu : u.insert i (P.getBitsLe item) = (fun t' => t'.withItems
      (u.items.insert i (P.getBitsLe item))) <$> t.insert i item := by
    rw [h.rest]
    unfold SparseMerkleTree.insert
    show (Outcome.assert (i < t.capacity) _ >>= _) = _ <$> (Outcome.assert (i < t.capacity) _ >>= _)
    cases Outcome.assert (i < t.capacity) "assertion failed: item_index < self.capacity()" with
    | error e => rfl
    | ok _ =>
      exact insertLoop_withItems _ (shl1 t.treeDepth + i) (t.treeDepth + 1)
        { t with items := t.items.insert i item, cache := t.cache.erase 1 } t.root
  rw [hu]
  cases hins : t.insert i item with
  | error e => exact .error e
  | ok t' =>
    refine .ok ⟨rfl, fun j => ?_⟩
    show (u.items.insert i (P.getBitsLe item)).lookup j = (t'.items.lookup j).map _
    rw [items_of_insert hins, Finmap.lookup_insert_if, Finmap.lookup_insert_if]
    by_cases hj : j = i
    · rw [if_pos hj, if_pos hj]
      rfl
    · rw [if_neg hj, if_neg hj]
      exact h.items j

/-- They are removed at once. -/
theorem HasBits.remove (h : HasBits P t u) (i : Nat) :
    Outcome.Related (HasBits P) (Prod.snd <$> t.remove P.default i)
      (Prod.snd <$> u.remove (bitsParams P).default i) := by
  have hdefault : (bitsParams P).default = P.getBitsLe P.default := P.getBitsLe_default.symm
  rw [remove_eq, remove_eq, hdefault]
  exact Outcome.Related.map ((h.insert i P.default).bind (Q := fun a b => HasBits P a.2 b.2)
    fun _ _ hu => .ok hu) fun _ _ hu => hu

/-- The loop over a gap reads no items. -/
theorem fillGaps_bits (items : Finmap fun _ : Nat => Outcome (List Bool)) (parentDepth : Nat) :
    ∀ (curDepth curIdx : Nat) (acc : HashAndUpdates Hash),
      fillGaps (bitsParams P) (t.withItems items) parentDepth curDepth curIdx acc =
        fillGaps P t parentDepth curDepth curIdx acc := by
  intro curDepth
  induction curDepth with
  | zero => exact fun _ _ => rfl
  | succ curDepth ih =>
    intro curIdx acc
    obtain ⟨curHash, updates⟩ := acc
    rw [fillGaps, fillGaps]
    split
    · show (Outcome.expect t.prehashed[curDepth + 2]? _ >>= _) = _
      cases Outcome.expect t.prehashed[curDepth + 2]? "index out of bounds" with
      | error e => rfl
      | ok supplement => exact ih _ _
    · rfl

/-- A leaf is hashed by its bits. The induction is on the bound of `get_hash`. -/
theorem HasBits.getHash_eq (h : HasBits P t u) :
    ∀ fuel ref : Nat, getHash (bitsParams P) u fuel ref = getHash P t fuel ref := by
  rw [h.rest]
  intro fuel
  -- induction on the fuel, along both trees at once
  induction fuel with
  | zero => exact fun _ => rfl
  | succ fuel ih =>
    intro ref
    rw [getHash, getHash, node_withItems]
    cases t.node ref with
    | error e => rfl
    | ok node =>
      simp only [Outcome.ok_bind]
      split
      next hleaf =>
        rw [if_pos (show node.depth = t.treeDepth from hleaf)]
        have hitem := h.items (node.index - shl1 t.treeDepth)
        show (Outcome.expect (u.items.lookup (node.index - shl1 t.treeDepth)) _ >>= _) = _
        rw [hitem]
        cases t.items.lookup (node.index - shl1 t.treeDepth) with
        | none => rfl
        | some item => rfl
      next hleaf =>
        rw [if_neg (show ¬ node.depth = t.treeDepth from hleaf)]
        have hdir : ∀ dir : NodeDirection,
            getChildHash (bitsParams P) (t.withItems u.items)
                (getHash (bitsParams P) (t.withItems u.items) fuel) node dir =
              getChildHash P t (getHash P t fuel) node dir := by
          intro dir
          have hcache : (t.withItems u.items).cache = t.cache := rfl
          unfold getChildHash
          rw [hcache]
          cases t.cache.lookup (dir.childIndex node.index) with
          | some cached => rfl
          | none =>
            cases node.child dir with
            | none => rfl
            | some childRef =>
              dsimp only
              rw [node_withItems]
              cases t.node childRef with
              | error e => rfl
              | ok child => simp only [Outcome.ok_bind, ih, fillGaps_bits]
        rw [hdir, hdir]
        rfl

/-- Both trees have the same root. -/
theorem HasBits.rootHash (h : HasBits P t u) :
    Outcome.Related (fun a b => a.1 = b.1 ∧ HasBits P a.2 b.2) (rootHash P t)
      (rootHash (bitsParams P) u) := by
  have hdepth : u.treeDepth = t.treeDepth := by rw [h.rest]; rfl
  have hcache : u.cache = t.cache := by rw [h.rest]; rfl
  unfold SparseMerkleTree.rootHash
  rw [hdepth, h.getHash_eq, hcache]
  refine .same _ fun res => .ok ⟨rfl, ?_, h.items⟩
  rw [h.rest]
  rfl

/-- They have the same nodes on a path. -/
theorem HasBits.collectPath_eq (h : HasBits P t u) :
    ∀ depth index : Nat, u.collectPath depth index = t.collectPath depth index := by
  intro depth
  induction depth with
  | zero => exact fun _ => rfl
  | succ depth ih =>
    intro index
    rw [collectPath, collectPath, ih]
    rw [h.rest]
    rfl

/-- They have the same paths. -/
theorem HasBits.merklePath (h : HasBits P t u) (index : Nat) :
    Outcome.Related (fun a b => a.1 = b.1 ∧ HasBits P a.2 b.2) (merklePath P t index)
      (merklePath (bitsParams P) u index) := by
  have hcap : u.capacity = t.capacity := by rw [h.rest]; rfl
  unfold SparseMerkleTree.merklePath
  rw [hcap]
  refine .same _ fun _ => h.rootHash.bind fun a b hab => ?_
  obtain ⟨_, ta⟩ := a
  obtain ⟨_, ub⟩ := b
  have hab : HasBits P ta ub := hab.2
  have hdepth : ub.treeDepth = ta.treeDepth := by rw [hab.rest]; rfl
  simp only [hdepth, hab.collectPath_eq]
  exact .same _ fun _ => .ok ⟨rfl, hab⟩

/-- A call of the tree of items, as a call of the tree of bits. -/
def bitsCall (P : TreeParams T Hash) : TreeCall T → TreeCall (Outcome (List Bool))
  | .insert itemIndex item => .insert itemIndex (P.getBitsLe item)
  | .remove index => .remove index
  | .rootHash => .rootHash
  | .merklePath index => .merklePath index

/-- Whatever is called, the two trees agree. -/
theorem HasBits.call (h : HasBits P t u) (c : TreeCall T) :
    Outcome.Related (HasBits P) (call P t c) (call (bitsParams P) u (bitsCall P c)) := by
  cases c with
  | insert itemIndex item => exact h.insert itemIndex.toNat item
  | remove index => exact h.remove index.toNat
  | rootHash => exact h.rootHash.map fun _ _ hu => hu.2
  | merklePath index => exact (h.merklePath index.toNat).map fun _ _ hu => hu.2

/-- So they do through any calls. -/
theorem HasBits.callAll (h : HasBits P t u) (calls : List (TreeCall T)) :
    Outcome.Related (HasBits P) (callAll P t calls)
      (callAll (bitsParams P) u (calls.map (bitsCall P))) := by
  induction calls generalizing t u with
  | nil => exact .ok h
  | cons c calls ih =>
    rw [List.map_cons]
    unfold SparseMerkleTree.callAll
    rw [List.foldlM_cons, List.foldlM_cons]
    exact (h.call c).bind fun _ _ hu => ih hu

/-- After any calls, an answer that a tree of items gives is that of the tree of bits. -/
theorem HasBits.answer_eq {α : Type}
    {f : SparseMerkleTree T Hash → Outcome (α × SparseMerkleTree T Hash)}
    {g : SparseMerkleTree (Outcome (List Bool)) Hash →
      Outcome (α × SparseMerkleTree (Outcome (List Bool)) Hash)} (h : HasBits P t u)
    (hfg : ∀ a b, HasBits P a b →
      Outcome.Related (fun x y => x.1 = y.1 ∧ HasBits P x.2 y.2) (f a) (g b))
    (calls : List (TreeCall T)) :
    (SparseMerkleTree.callAll P t calls >>= fun t => Prod.fst <$> f t) =
      (SparseMerkleTree.callAll (bitsParams P) u (calls.map (bitsCall P)) >>=
        fun u => Prod.fst <$> g u) := by
  have hcalls := h.callAll calls
  generalize SparseMerkleTree.callAll P t calls = x at hcalls
  generalize SparseMerkleTree.callAll (bitsParams P) u (calls.map (bitsCall P)) = y at hcalls
  cases hcalls with
  | error e => rfl
  | @ok a b hab =>
    have hanswer := hfg a b hab
    rw [Outcome.ok_bind, Outcome.ok_bind]
    generalize f a = x at hanswer
    generalize g b = y at hanswer
    cases hanswer with
    | error e => rfl
    | ok hxy => exact congrArg Except.ok hxy.1

/-- Trees of items answer alike when the trees of their bits do. -/
theorem SameHashes.of_bits (h : HasBits P t u) (h' : HasBits P t' u')
    (hsame : SameHashes (bitsParams P) u u') : SameHashes P t t' := by
  intro calls
  obtain ⟨hroot, hpath⟩ := hsame (calls.map (bitsCall P))
  refine ⟨?_, fun index => ?_⟩
  · rw [h.answer_eq (fun _ _ hab => hab.rootHash) calls,
      h'.answer_eq (fun _ _ hab => hab.rootHash) calls]
    exact hroot
  · rw [h.answer_eq (fun _ _ hab => hab.merklePath index.toNat) calls,
      h'.answer_eq (fun _ _ hab => hab.merklePath index.toNat) calls]
    exact hpath index

end Calls

/-! ## Trees that act as another one -/

/-- The tree answers as a tree of leaves with these bits. Its own table of items may lack
some of them, where a hash is cached. -/
def ActsAs (P : TreeParams T Hash) (depth : Nat) (leaf : Nat → Outcome (List Bool))
    (t : SparseMerkleTree T Hash) : Prop :=
  ∃ u u', HasBits P t u ∧ Settled u u' ∧ GapsCached u' ∧ SmtInv (bitsParams P) depth leaf u'

/-- The internals of a tree over leaves with these bits, all of them cached. -/
def CacheOf (P : TreeParams T Fr) (depth : Nat) (leaf : Nat → Outcome (List Bool))
    (internals : SparseMerkleTreeSerializableCacheBN256) : Prop :=
  ∃ t order, SmtInv (bitsParams P) depth leaf t ∧ GapsCached t ∧ order.toFinmap = t.cache ∧
    internals = t.getInternals order ∧ ∀ i ∈ t.items, (t.cache.lookup (2 ^ depth + i)).isSome

section Acts

variable {depth : Nat} {leaf leaf' : Nat → Outcome (List Bool)}

section Any

variable {P : TreeParams T Hash} {t t' : SparseMerkleTree T Hash}

theorem settled_refl (u : SparseMerkleTree T Hash) : Settled u u :=
  ⟨rfl, fun _ _ _ => Or.inl rfl⟩

/-- An empty tree acts as one whose leaves are all the default. -/
theorem actsAs_new (P : TreeParams T Hash) (hdepth : 1 < depth) (hword : depth < 64) :
    ActsAs P depth (fun _ => .ok P.defaultBits) (new P depth hdepth) :=
  ⟨_, _, hasBits_new P hdepth, settled_refl _, gapsCached_new _ hdepth, smtInv_new hdepth hword⟩

/-- Only the bits of the leaves count. -/
theorem ActsAs.congr (h : ActsAs P depth leaf t) (hleaf : ∀ i, leaf i = leaf' i) :
    ActsAs P depth leaf' t := by
  obtain ⟨u, u', hbits, hsettled, hgaps, hu⟩ := h
  exact ⟨u, u', hbits, hsettled, hgaps, hu.congr hleaf⟩

/-- Behind an insertion one leaf has other bits. -/
theorem ActsAs.insert (h : ActsAs P depth leaf t) {i : UInt32} (hi : i.toNat < 2 ^ depth)
    (item : T) : ∃ t', t.insert i.toNat item = .ok t' ∧
      ActsAs P depth (Function.update leaf i.toNat (P.getBitsLe item)) t' := by
  obtain ⟨u, u', hbits, hsettled, hgaps, hu⟩ := h
  obtain ⟨u₁', hins'⟩ := hu.insert_returns hi (P.getBitsLe item)
  have hcall := hsettled.call hu.tree hu.hash hgaps (.insert i (P.getBitsLe item))
  obtain ⟨u₁, hins, hsettled₁⟩ := hcall.of_ok_right hins'
  obtain ⟨t', ht', hbits₁⟩ := (hbits.insert i.toNat item).of_ok_right hins
  exact ⟨t', ht', u₁, u₁', hbits₁, hsettled₁, gapsCached_insert hu.tree hu.hash.shape hgaps hins',
    hu.insert hins'⟩

/-- The root hash is that of the full tree over the leaves. -/
theorem ActsAs.rootHash_eq (h : ActsAs P depth leaf t) :
    Prod.fst <$> rootHash P t = treeHash (bitsParams P) leaf depth 0 := by
  obtain ⟨u, u', hbits, hsettled, hgaps, hu⟩ := h
  have hanswer := hbits.answer_eq (fun _ _ hab => hab.rootHash) []
  rw [← hu.rootHash_eq]
  exact hanswer.trans (related_fst (hsettled.rootHash hu.tree hgaps))

/-- Leaves that have bits have a root hash. -/
theorem treeHash_returns (P : TreeParams T Hash) (hleaf : ∀ i, ∃ bits, leaf i = .ok bits)
    (height index : Nat) : ∃ hash, treeHash (bitsParams P) leaf height index = .ok hash := by
  induction height generalizing index with
  | zero =>
    obtain ⟨bits, hbits⟩ := hleaf index
    refine ⟨P.hasher.hashBits bits, ?_⟩
    rw [treeHash, hbits]
    rfl
  | succ height ih =>
    obtain ⟨lhs, hlhs⟩ := ih (2 * index)
    obtain ⟨rhs, hrhs⟩ := ih (2 * index + 1)
    refine ⟨P.hasher.compress lhs rhs height, ?_⟩
    rw [treeHash, hlhs, hrhs]
    rfl

/-- Whatever is called, two trees that act as the same leaves answer alike. -/
theorem ActsAs.sameHashes (h : ActsAs P depth leaf t) (h' : ActsAs P depth leaf t') :
    SameHashes P t t' := by
  obtain ⟨u, v, hbits, hsettled, hgaps, hv⟩ := h
  obtain ⟨u', v', hbits', hsettled', hgaps', hv'⟩ := h'
  have hsame : SameHashes (bitsParams P) u v' :=
    AlikeTrees.sameHashes ⟨v, leaf, hsettled, hgaps, hv, hv'⟩
  have hsame' : SameHashes (bitsParams P) u' v' :=
    AlikeTrees.sameHashes ⟨v', leaf, hsettled', hgaps', hv', hv'⟩
  refine SameHashes.of_bits hbits hbits' fun calls => ⟨?_, fun index => ?_⟩
  · exact (hsame calls).1.trans (hsame' calls).1.symm
  · exact ((hsame calls).2 index).trans ((hsame' calls).2 index).symm

end Any

variable {P : TreeParams T Fr} {t t' : SparseMerkleTree T Fr}
  {internals : SparseMerkleTreeSerializableCacheBN256}

/-- After `root_hash` the internals are a cache of the leaves. -/
theorem ActsAs.rootHash (h : ActsAs P depth leaf t) {hash : Fr}
    (hroot : SparseMerkleTree.rootHash P t = .ok (hash, t')) :
    ActsAs P depth leaf t' ∧ ∀ order : AList fun _ : Nat => Fr, order.toFinmap = t'.cache →
      CacheOf P depth leaf (t'.getInternals order) := by
  obtain ⟨u, v, hbits, hsettled, hgaps, hv⟩ := h
  obtain ⟨⟨_, u₁⟩, hu₁, -, hbits₁⟩ := hbits.rootHash.of_ok hroot
  obtain ⟨⟨_, v₁⟩, hv₁, -, hsettled₁⟩ := (hsettled.rootHash hv.tree hgaps).of_ok hu₁
  change HasBits P t' u₁ at hbits₁
  change Settled u₁ v₁ at hsettled₁
  have hgaps₁ := gapsCached_rootHash hv.tree hv.hash hv₁
  have hinv := hv.rootHash hv₁
  refine ⟨⟨u₁, v₁, hbits₁, hsettled₁, hgaps₁, hinv⟩, fun order horder => ?_⟩
  have hroot' : t'.root = v₁.root := by
    rw [← show u₁.root = v₁.root by rw [hsettled₁.rest], hbits₁.rest]
    rfl
  have hnodes : t'.nodes = v₁.nodes := by
    rw [← show u₁.nodes = v₁.nodes by rw [hsettled₁.rest], hbits₁.rest]
    rfl
  have hcache : t'.cache = v₁.cache := by
    rw [← show u₁.cache = v₁.cache by rw [hsettled₁.rest], hbits₁.rest]
    rfl
  refine ⟨v₁, order, hinv, hgaps₁, horder.trans hcache, ?_, fun i hi =>
    leaf_cached_of_rootHash hv hv₁ hi⟩
  unfold getInternals
  rw [hroot', hnodes]

/-- With the internals of a cache, a tree acts as the cached leaves, whatever items were
inserted: every leaf of the cache is hashed already. -/
theorem ActsAs.setInternals (h : ActsAs P depth leaf t) (hcache : CacheOf P depth leaf' internals) :
    ∃ t', t.setInternals internals = .ok t' ∧ ActsAs P depth leaf' t' := by
  obtain ⟨u, v, hbits, hsettled, hgaps, hv⟩ := h
  obtain ⟨w, order, hw, hgaps', horder, rfl, hleaves⟩ := hcache
  refine ⟨{ t with root := w.root, nodes := w.nodes, cache := w.cache },
    setInternals_getInternals (t := w.withItems (∅ : Finmap fun _ : Nat => T)) horder, ?_⟩
  -- the tree of bits with the same internals
  refine ⟨{ u with root := w.root, nodes := w.nodes, cache := w.cache }, w, ⟨?_, hbits.items⟩,
    ⟨?_, fun i _ hi => Or.inr ?_⟩, hgaps', hw⟩
  · rw [hbits.rest]
    rfl
  · have hsame := hw.internals_eq hv
    have hdepth : u.treeDepth = v.treeDepth := by rw [hsettled.rest]
    have hprehashed : u.prehashed = v.prehashed := by rw [hsettled.rest]
    have hdepth' := congrArg SparseMerkleTree.treeDepth hsame
    have hprehashed' := congrArg SparseMerkleTree.prehashed hsame
    dsimp only at hdepth' hprehashed'
    rw [hdepth, hprehashed, hdepth', hprehashed']
  · rw [hw.depth]
    exact Option.isSome_iff_exists.mp (hleaves i hi)

end Acts

end SparseMerkleTree

end ZkSync
