import ZkSync.Crypto.SmtNodes

/-!
# The sparse Merkle tree — insertion

`insert` goes down from the root to the leaf of the item, erasing the cached
hashes of the nodes it passes, and hangs the leaf where the way ends. This file
proves that it returns (`insert_ok`), that the node vector keeps its shape, and
that afterwards no cached hash is left on the way from the leaf to the root
while every other entry is untouched.

Why wiping only where something is cached is enough: the cache is filled by
`root_hash` for a whole subtree at once, so that a cached position has all the
occupied positions below it cached as well (`CacheShape.closed`), and nothing
is cached where nothing is stored (`occupied`). An uncached node on the way
hence has no cached ancestor at all.
-/

namespace ZkSync

open HeapIndex Smt

namespace Smt

variable {Hash : Type}

/-- What the filled positions of the cache look like: each has an occupied node
below it, and with a position all occupied positions below it are filled. -/
structure CacheShape (nodes : List Node) (cache : Finmap fun _ : Nat => Hash) : Prop where
  pos : ∀ a v, cache.lookup a = some v → 0 < a
  occupied : ∀ a v, cache.lookup a = some v →
    ∃ (r : Nat) (m : Node), nodes[r]? = some m ∧ Covers a m.index
  closed : ∀ a v x (r : Nat) (m : Node), cache.lookup a = some v → Covers a x →
    nodes[r]? = some m → Covers x m.index → ∃ w, cache.lookup x = some w

/-- Nothing is cached from `x` up. -/
def Clear (cache : Finmap fun _ : Nat => Hash) (x : Nat) : Prop :=
  ∀ a, Covers a x → cache.lookup a = none

/-- `cache'` is `cache` with entries from `x` up erased. -/
structure ErasedAbove (x : Nat) (cache cache' : Finmap fun _ : Nat => Hash) : Prop where
  sub : ∀ a, cache'.lookup a = none ∨ cache'.lookup a = cache.lookup a
  same : ∀ a, ¬ Covers a x → cache'.lookup a = cache.lookup a

theorem erasedAbove_refl (x : Nat) (cache : Finmap fun _ : Nat => Hash) :
    ErasedAbove x cache cache :=
  ⟨fun _ => Or.inr rfl, fun _ _ => rfl⟩

theorem erasedAbove_trans {x : Nat} {c₁ c₂ c₃ : Finmap fun _ : Nat => Hash}
    (h : ErasedAbove x c₁ c₂) (h' : ErasedAbove x c₂ c₃) : ErasedAbove x c₁ c₃ := by
  refine ⟨fun a => ?_, fun a ha => by rw [h'.same a ha, h.same a ha]⟩
  rcases h'.sub a with h1 | h1
  · exact Or.inl h1
  · rw [h1]
    exact h.sub a

theorem erasedAbove_erase {a x : Nat} (h : Covers a x) (cache : Finmap fun _ : Nat => Hash) :
    ErasedAbove x cache (cache.erase a) := by
  refine ⟨fun b => ?_, fun b hb => ?_⟩
  · rw [Finmap.lookup_erase_if]
    split
    · exact Or.inl rfl
    · exact Or.inr rfl
  · rw [Finmap.lookup_erase_if, if_neg]
    rintro rfl
    exact hb h

/-- Erasing above a covering position is erasing above the covered one. -/
theorem ErasedAbove.mono {x y : Nat} (hxy : Covers x y) {c c' : Finmap fun _ : Nat => Hash}
    (h : ErasedAbove x c c') : ErasedAbove y c c' :=
  ⟨h.sub, fun a ha => h.same a fun hax => ha (covers_trans hax hxy)⟩

/-- Erasing a whole way up keeps the shape: what is erased has no cached
position above it. -/
theorem CacheShape.erase {nodes : List Node} {x : Nat} {c c' : Finmap fun _ : Nat => Hash}
    (h : CacheShape nodes c) (he : ErasedAbove x c c') (hc : Clear c' x) :
    CacheShape nodes c' := by
  have hold : ∀ a v, c'.lookup a = some v → c.lookup a = some v := by
    intro a v ha
    rcases he.sub a with h1 | h1
    · rw [h1] at ha
      cases ha
    · rw [← h1]
      exact ha
  refine ⟨fun a v ha => h.pos a v (hold a v ha), fun a v ha => h.occupied a v (hold a v ha), ?_⟩
  intro a v y r m ha hay hr hym
  obtain ⟨w, hw⟩ := h.closed a v y r m (hold a v ha) hay hr hym
  by_cases hyx : Covers y x
  · rw [hc a (covers_trans hay hyx)] at ha
    cases ha
  · exact ⟨w, by rw [he.same y hyx, hw]⟩

end Smt

namespace SparseMerkleTree

variable {T Hash : Type}

/-! ## Wiping -/

theorem wipeUp_erased (parent : Nat) : ∀ (fuel i : Nat) (cache : Finmap fun _ : Nat => Hash),
    ErasedAbove i cache (wipeUp parent fuel i cache) := by
  intro fuel
  induction fuel with
  | zero => exact fun i cache => erasedAbove_refl i cache
  | succ fuel ih =>
    intro i cache
    rw [wipeUp]
    split
    · exact erasedAbove_trans (erasedAbove_erase (covers_refl i) cache)
        ((ih (i / 2) (cache.erase i)).mono (covers_half i))
    · exact erasedAbove_refl i cache

/-- The loop erases every position on the way that lies above `parent`. -/
theorem wipeUp_clear (parent : Nat) : ∀ (fuel i : Nat) (cache : Finmap fun _ : Nat => Hash)
    (a : Nat), i < 2 ^ fuel → Covers a i → parent < a →
    (wipeUp parent fuel i cache).lookup a = none := by
  intro fuel
  induction fuel with
  | zero =>
    intro i cache a hi hcov hlt
    have := hcov.le
    omega
  | succ fuel ih =>
    intro i cache a hi hcov hlt
    rw [wipeUp, if_pos (Nat.lt_of_lt_of_le hlt hcov.le)]
    by_cases hai : a = i
    · rcases (wipeUp_erased parent fuel (i / 2) (cache.erase i)).sub a with h | h
      · exact h
      · rw [h, hai, Finmap.lookup_erase]
    · refine ih (i / 2) (cache.erase i) a ?_ (hcov.half hai) hlt
      rw [Nat.pow_succ] at hi
      omega

theorem wipeCache_eq (t : SparseMerkleTree T Hash) (child parent : Nat) :
    t.wipeCache child parent = { t with cache := (t.wipeCache child parent).cache } := by
  unfold wipeCache
  split <;> rfl

theorem wipeCache_erased (t : SparseMerkleTree T Hash) (child parent : Nat) :
    ErasedAbove child t.cache (t.wipeCache child parent).cache := by
  unfold wipeCache
  split
  · exact erasedAbove_trans (erasedAbove_erase (covers_refl child) t.cache)
      ((wipeUp_erased parent _ (child / 2) (t.cache.erase child)).mono (covers_half child))
  · exact erasedAbove_refl child t.cache

/-- Wiping from an occupied position up to a clear one clears the whole way. -/
theorem wipeCache_clear {t : SparseMerkleTree T Hash} {child parent : Nat}
    (hshape : CacheShape t.nodes t.cache) {r : Nat} {m : Node} (hr : t.nodes[r]? = some m)
    (hm : Covers child m.index) (hcov : Covers parent child) (hclear : Clear t.cache parent)
    (hlt : child < 2 ^ (t.treeDepth + 1)) : Clear (t.wipeCache child parent).cache child := by
  intro a ha
  by_cases hnone : t.cache.lookup a = none
  · rcases (wipeCache_erased t child parent).sub a with h | h
    · exact h
    · rw [h, hnone]
  obtain ⟨v, hv⟩ := Option.ne_none_iff_exists'.mp hnone
  -- the child is cached, for it lies below a cached position
  obtain ⟨w, hw⟩ := hshape.closed a v child r m hv ha hr hm
  unfold wipeCache
  rw [if_pos (by rw [hw]; rfl)]
  by_cases hac : a = child
  · rcases (wipeUp_erased parent (t.treeDepth + 1) (child / 2) (t.cache.erase child)).sub a
      with h | h
    · exact h
    · rw [h, hac, Finmap.lookup_erase]
  · have hpa : parent < a := by
      rcases covers_total hcov ha with h | h
      · refine Nat.lt_of_le_of_ne h.le fun he => ?_
        exact hnone (hclear a (by rw [he]; exact covers_refl a))
      · exact absurd (hclear a h) hnone
    exact wipeUp_clear parent (t.treeDepth + 1) (child / 2) (t.cache.erase child) a (by omega)
      (ha.half hac) hpa

/-! ## Where two ways part -/

/-- `commonParent` of two positions of one level is the last position that
covers both. -/
theorem commonParent_spec : ∀ (fuel a b e : Nat), e < fuel → InLevel e a → InLevel e b →
    Covers (commonParent fuel a b) a ∧ Covers (commonParent fuel a b) b ∧
    ∀ x, Covers x a → Covers x b → Covers x (commonParent fuel a b) := by
  intro fuel
  induction fuel with
  | zero => exact fun a b e he => absurd he (Nat.not_lt_zero e)
  | succ fuel ih =>
    intro a b e he ha hb
    rw [commonParent]
    split
    next hne =>
      cases e with
      | zero => exact absurd (by rw [inLevel_zero.mp ha, inLevel_zero.mp hb]) hne
      | succ e =>
        obtain ⟨h1, h2, h3⟩ := ih (a / 2) (b / 2) e (by omega) ha.half hb.half
        have hstrict : ∀ {p q : Nat}, InLevel (e + 1) p → InLevel (e + 1) q → Covers p q →
            p = q := by
          intro p q hp hq hpq
          by_contra hne
          have := hpq.depth_lt hp hq hne
          omega
        refine ⟨covers_trans h1 (covers_half a), covers_trans h2 (covers_half b), ?_⟩
        intro x hxa hxb
        refine h3 x (hxa.half ?_) (hxb.half ?_)
        · rintro rfl
          exact hne (hstrict ha hb hxb)
        · rintro rfl
          exact hne (hstrict hb ha hxa).symm
    next heq =>
      have hab : a = b := not_not.mp heq
      exact ⟨covers_refl a, by rw [hab]; exact covers_refl b, fun x hx _ => hx⟩

/-- Two different positions of one level part at their common parent. -/
theorem commonParent_parts {fuel a b e : Nat} (he : e < fuel) (ha : InLevel e a)
    (hb : InLevel e b) (hne : a ≠ b) :
    ∃ d₁ d₂ : NodeDirection, d₁ ≠ d₂ ∧
      Covers (d₁.childIndex (commonParent fuel a b)) a ∧
      Covers (d₂.childIndex (commonParent fuel a b)) b := by
  obtain ⟨h1, h2, h3⟩ := commonParent_spec fuel a b e he ha hb
  have hna : commonParent fuel a b ≠ a := fun hp => by
    rw [hp] at h2
    have := h2.depth_lt ha hb hne
    omega
  have hnb : commonParent fuel a b ≠ b := fun hp => by
    rw [hp] at h1
    have := h1.depth_lt hb ha hne.symm
    omega
  have hpos : 0 < commonParent fuel a b := by
    have hla : Covers (1 : Nat) a := ⟨e, inLevel_zero.mp (InLevel.div e (by rwa [Nat.zero_add]))⟩
    have hlb : Covers (1 : Nat) b := ⟨e, inLevel_zero.mp (InLevel.div e (by rwa [Nat.zero_add]))⟩
    exact (h3 1 hla hlb).le
  obtain ⟨d₁, hd₁⟩ := NodeDirection.exists_covers h1 hna
  obtain ⟨d₂, hd₂⟩ := NodeDirection.exists_covers h2 hnb
  refine ⟨d₁, d₂, ?_, hd₁, hd₂⟩
  rintro rfl
  exact NodeDirection.not_childIndex_covers hpos (h3 _ hd₁ hd₂)

/-! ## The loop -/

/-- What inserting the leaf makes of a tree, apart from the item table. -/
structure Inserted (leaf : Nat) (t t' : SparseMerkleTree T Hash) : Prop where
  rest : t' = { t with nodes := t'.nodes, cache := t'.cache }
  nodes : NodesOk t.treeDepth t'.nodes
  kept : ∀ (r : Nat) (m : Node), t.nodes[r]? = some m →
    ∃ m', t'.nodes[r]? = some m' ∧ m'.index = m.index
  fresh : ∀ (r : Nat) (m' : Node), t'.nodes[r]? = some m' →
    (∃ m, t.nodes[r]? = some m ∧ m.index = m'.index) ∨ m'.index = leaf ∨
      (Covers m'.index leaf ∧ m'.index ≠ leaf)
  stored : ∃ (r : Nat) (m : Node), t'.nodes[r]? = some m ∧ m.index = leaf
  erased : ErasedAbove leaf t.cache t'.cache

/-- The direction the loop takes is the one of the leaf. -/
theorem direction_covers {leaf depth d a : Nat} (hleaf : InLevel depth leaf) (ha : InLevel d a)
    (hcov : Covers a leaf) (hd : d < depth) :
    Covers ((if leaf / 2 ^ (depth - d - 1) % 2 = 1 then NodeDirection.Right
      else NodeDirection.Left).childIndex a) leaf := by
  have ha' := (hcov.eq_div ha hleaf).2
  have hstep : leaf / 2 ^ (depth - d - 1) / 2 = a := by
    rw [Nat.div_div_eq_div_mul, ← Nat.pow_succ, ha']
    congr 2
    omega
  refine ⟨depth - d - 1, ?_⟩
  split <;> simp only [NodeDirection.childIndex] <;> omega

section Loop

variable {leaf : Nat} {t : SparseMerkleTree T Hash} {r : Nat} {n : Node} {dir : NodeDirection}

theorem addChildNode_eq {nodes ext : List Node} {t' : SparseMerkleTree T Hash}
    (hn : t'.nodes = nodes ++ ext) (hr : nodes[r]? = some n) (dir : NodeDirection) (c : Nat) :
    t'.addChildNode r dir c = .ok { t' with nodes := graft nodes ext r n dir c } := by
  have hlt : r < nodes.length := (List.getElem?_eq_some_iff.mp hr).1
  unfold addChildNode node
  rw [hn, List.getElem?_append_left hlt, hr]
  rfl

/-- Hanging the leaf where no child hangs. -/
theorem inserted_hangLeaf (h : NodesOk t.treeDepth t.nodes) (hr : t.nodes[r]? = some n)
    (hleaf : InLevel t.treeDepth leaf) (hdir : Covers (dir.childIndex n.index) leaf)
    (hnone : n.child dir = none) :
    Inserted leaf t
      { t with nodes := graft t.nodes [leafNode t.treeDepth leaf] r n dir t.nodes.length } where
  rest := rfl
  nodes := hangLeaf_ok h hr hleaf hdir hnone
  kept i m hi := by
    obtain ⟨m', h1, h2, -, -⟩ := graft_old _ _ _ hr hi
    exact ⟨m', h1, h2⟩
  fresh i m' hi := by
    rcases graft_cases hr hi with ⟨m, h1, h2, -, -⟩ | ⟨j, -, hj⟩
    · exact Or.inl ⟨m, h1, h2.symm⟩
    · rw [List.mem_singleton.mp (List.mem_of_getElem? hj)]
      exact Or.inr (Or.inl rfl)
  stored := ⟨_, _, graft_new (j := 0) hr rfl, rfl⟩
  erased := erasedAbove_refl leaf t.cache

/-- Hanging a split node over the leaf and the old child. -/
theorem inserted_splitNode {cache : Finmap fun _ : Nat => Hash} (s : Node) {c : Nat}
    (hnodes : NodesOk t.treeDepth (graft t.nodes [leafNode t.treeDepth leaf, s] r n dir c))
    (hr : t.nodes[r]? = some n) (hs : Covers s.index leaf) (hne : s.index ≠ leaf)
    (herased : ErasedAbove s.index t.cache cache) :
    Inserted leaf t
      { t with
        nodes := graft t.nodes [leafNode t.treeDepth leaf, s] r n dir c
        cache := cache } where
  rest := rfl
  nodes := hnodes
  kept i m hi := by
    obtain ⟨m', h1, h2, -, -⟩ := graft_old _ _ _ hr hi
    exact ⟨m', h1, h2⟩
  fresh i m' hi := by
    rcases graft_cases hr hi with ⟨m, h1, h2, -, -⟩ | ⟨j, -, hj⟩
    · exact Or.inl ⟨m, h1, h2.symm⟩
    · have hm : m' = leafNode t.treeDepth leaf ∨ m' = s := by
        simpa using List.mem_of_getElem? hj
      rcases hm with rfl | rfl
      · exact Or.inr (Or.inl rfl)
      · exact Or.inr (Or.inr ⟨hs, hne⟩)
  stored := ⟨_, _, graft_new (j := 0) hr rfl, rfl⟩
  erased := herased.mono hs

/-- A wiped tree with the leaf inserted is the tree with the leaf inserted. -/
theorem Inserted.of_wiped {child parent : Nat} {t' : SparseMerkleTree T Hash}
    (h : Inserted leaf (t.wipeCache child parent) t') (hc : Covers child leaf) :
    Inserted leaf t t' := by
  have ht := wipeCache_eq t child parent
  have hdep : (t.wipeCache child parent).treeDepth = t.treeDepth := by rw [ht]
  have hnod : (t.wipeCache child parent).nodes = t.nodes := by rw [ht]
  refine ⟨?_, ?_, ?_, ?_, h.stored, ?_⟩
  · rw [h.rest, ht]
  · rw [← hdep]
    exact h.nodes
  · intro i m hi
    exact h.kept i m (by rw [hnod]; exact hi)
  · intro i m' hi
    have := h.fresh i m' hi
    rwa [hnod] at this
  · exact erasedAbove_trans ((wipeCache_erased t child parent).mono hc) h.erased

end Loop

/-- The loop of `insert`, from any node on the way to the leaf: it ends, the
leaf is in the tree, and if the cache had its shape and was clear from the node
up, it is clear from the leaf up. The induction is on the bound of the loop;
every round goes at least one level deeper. -/
theorem insertLoop_spec {leaf : Nat} : ∀ (fuel : Nat) (t : SparseMerkleTree T Hash) (r : Nat)
    (n : Node), t.treeDepth < 64 → InLevel t.treeDepth leaf → NodesOk t.treeDepth t.nodes →
    t.nodes[r]? = some n → Covers n.index leaf → n.depth < t.treeDepth →
    t.treeDepth - n.depth < fuel →
    ∃ t', insertLoop leaf fuel t r = .ok t' ∧ Inserted leaf t t' ∧
      (CacheShape t.nodes t.cache → Clear t.cache n.index → Clear t'.cache leaf) := by
  intro fuel
  induction fuel with
  | zero => exact fun t r n _ _ _ _ _ _ h => absurd h (Nat.not_lt_zero _)
  | succ fuel ih =>
    intro t r n hword hleaf hok hr hcov hdepth hfuel
    have hnlev := (hok.level r n hr).2
    have hlvl : shr leaf (t.calculateLevel n.depth) = leaf / 2 ^ t.calculateLevel n.depth := by
      refine shr_eq leaf ?_
      unfold calculateLevel
      omega
    have hdir : Covers ((if leaf / 2 ^ t.calculateLevel n.depth % 2 = 1 then NodeDirection.Right
        else NodeDirection.Left).childIndex n.index) leaf :=
      direction_covers hleaf hnlev hcov hdepth
    have hnode : t.node r = .ok n := by
      unfold node
      rw [hr]
      rfl
    rw [insertLoop]
    simp only [hnode, Outcome.ok_bind, hlvl]
    generalize (if leaf / 2 ^ t.calculateLevel n.depth % 2 = 1 then NodeDirection.Right
      else NodeDirection.Left) = dir at hdir ⊢
    cases hchild : n.child dir with
    | none =>
      -- nothing hangs in this direction
      simp only [insertNode, List.length_append, List.length_singleton, Nat.add_sub_cancel]
      refine ⟨_, addChildNode_eq rfl hr dir t.nodes.length, inserted_hangLeaf hok hr hleaf hdir hchild, ?_⟩
      intro hshape hclear a ha
      by_contra hne
      obtain ⟨v, hv⟩ := Option.ne_none_iff_exists'.mp hne
      rcases covers_total ha hcov with hx | hx
      · exact hne (hclear a hx)
      · by_cases hna : n.index = a
        · exact hne (hclear a (by rw [hna]; exact covers_refl a))
        obtain ⟨d, hd⟩ := NodeDirection.exists_covers hx hna
        have hdd : d = dir :=
          NodeDirection.covers_unique hnlev.pos (covers_trans hd ha) hdir
        obtain ⟨i, m, hi, hm⟩ := hshape.occupied a v hv
        obtain ⟨c, k, hc, -, -⟩ := hok.cover r n d i m hr hi (covers_trans hd hm)
        rw [hdd, hchild] at hc
        cases hc
    | some nextRef =>
      obtain ⟨next, hnext, hncov⟩ := hok.child r n dir nextRef hr hchild
      have hxlev := hok.level nextRef next hnext
      have hnode' : t.node nextRef = .ok next := by
        unfold node
        rw [hnext]
        rfl
      have hdlt : n.depth + 1 ≤ next.depth :=
        (hncov.eq_div (dir.inLevel_childIndex hnlev) hxlev.2).1
      have hshr : shr leaf (t.treeDepth - next.depth) = leaf / 2 ^ (t.treeDepth - next.depth) :=
        shr_eq leaf (by omega)
      simp only [hnode', Outcome.ok_bind, hshr]
      have hlnorm : InLevel next.depth (leaf / 2 ^ (t.treeDepth - next.depth)) := by
        refine InLevel.div (t.treeDepth - next.depth) ?_
        rwa [Nat.add_sub_cancel' hxlev.1]
      have hnormcov : Covers (leaf / 2 ^ (t.treeDepth - next.depth)) leaf := covers_div leaf _
      have hnextlt : next.index < 2 ^ (t.treeDepth + 1) :=
        Nat.lt_of_lt_of_le hxlev.2.2 (Nat.pow_le_pow_right (by decide) (by omega))
      split
      next heq =>
        -- the way goes through `next`
        have hxleaf : Covers next.index leaf := by
          rw [← heq]
          exact hnormcov
        have hnnext : Covers n.index next.index :=
          covers_trans (dir.covers_childIndex _) hncov
        have hw := wipeCache_eq t next.index n.index
        have hclear' : CacheShape t.nodes t.cache → Clear t.cache n.index →
            Clear (t.wipeCache next.index n.index).cache next.index := fun hs hc =>
          wipeCache_clear hs hnext (covers_refl _) hnnext hc hnextlt
        split
        next hend =>
          refine ⟨_, rfl, ?_, fun hs hc => ?_⟩
          · have hins : Inserted leaf (t.wipeCache next.index n.index)
                (t.wipeCache next.index n.index) :=
              ⟨rfl, by rw [hw]; exact hok, fun i m hi => ⟨m, hi, rfl⟩,
                fun i m hi => Or.inl ⟨m, hi, rfl⟩,
                ⟨nextRef, next, by rw [hw]; exact hnext, hend⟩, erasedAbove_refl leaf _⟩
            exact hins.of_wiped hxleaf
          · rw [← hend]
            exact hclear' hs hc
        next hne =>
          have hlt : next.depth < t.treeDepth := hxleaf.depth_lt hxlev.2 hleaf hne
          obtain ⟨t', h1, h2, h3⟩ := ih (t.wipeCache next.index n.index) nextRef next
            (by rw [hw]; exact hword) (by rw [hw]; exact hleaf) (by rw [hw]; exact hok) (by rw [hw]; exact hnext) hxleaf
            (by rw [hw]; exact hlt) (by rw [hw]; show t.treeDepth - next.depth < fuel; omega)
          refine ⟨t', h1, h2.of_wiped hxleaf, fun hs hc => h3 ?_ (hclear' hs hc)⟩
          have hnod : (t.wipeCache next.index n.index).nodes = t.nodes := by rw [hw]
          rw [hnod]
          exact hs.erase (wipeCache_erased t next.index n.index) (hclear' hs hc)
      next hne =>
        -- the way parts from `next` above it
        obtain ⟨hp1, hp2, hp3⟩ := commonParent_spec (t.treeDepth + 1)
          (leaf / 2 ^ (t.treeDepth - next.depth)) next.index next.depth (by omega) hlnorm hxlev.2
        obtain ⟨d₁, d₂, hd, hq1, hq2⟩ :=
          commonParent_parts (show next.depth < t.treeDepth + 1 by omega) hlnorm hxlev.2 hne
        generalize commonParent (t.treeDepth + 1) (leaf / 2 ^ (t.treeDepth - next.depth))
          next.index = p at hp1 hp2 hp3 hq1 hq2 ⊢
        have hpdir : Covers (dir.childIndex n.index) p := by
          refine hp3 _ ?_ hncov
          rw [(hdir.eq_div (dir.inLevel_childIndex hnlev) hleaf).2]
          refine ⟨next.depth - (n.depth + 1), ?_⟩
          rw [Nat.div_div_eq_div_mul, ← Nat.pow_add]
          congr 2
          omega
        have hpleaf : Covers p leaf := covers_trans hp1 hnormcov
        have hppos : 0 < p := Nat.lt_of_lt_of_le
          (dir.inLevel_childIndex hnlev).pos hpdir.le
        have hplev : InLevel (depth p) p :=
          ⟨Nat.log2_self_le (by omega), Nat.lt_log2_self⟩
        have hnp : Covers n.index p := covers_trans (dir.covers_childIndex _) hpdir
        have herased := wipeCache_erased t p n.index
        have hwipe : CacheShape t.nodes t.cache → Clear t.cache n.index →
            Clear (t.wipeCache p n.index).cache p := fun hs hc =>
          wipeCache_clear hs hnext hp2 hnp hc (Nat.lt_of_le_of_lt hp2.le hnextlt)
        obtain ⟨cache, hw⟩ : ∃ cache, t.wipeCache p n.index = { t with cache := cache } :=
          ⟨_, wipeCache_eq t p n.index⟩
        rw [hw] at herased hwipe ⊢
        -- the children of the split node, in their order
        have horder : (if leaf / 2 ^ (t.treeDepth - next.depth) > next.index
            then NodeDirection.Right else NodeDirection.Left) = d₁ := by
          cases d₁ with
          | Right =>
            have hd2 : d₂ = .Left := by
              cases d₂ with
              | Left => rfl
              | Right => exact absurd rfl hd
            subst hd2
            rw [if_pos (NodeDirection.lt_of_covers hplev hxlev.2 hlnorm hq2 hq1)]
          | Left =>
            have hd2 : d₂ = .Right := by
              cases d₂ with
              | Left => exact absurd rfl hd
              | Right => rfl
            subst hd2
            rw [if_neg (Nat.not_lt_of_lt
              (NodeDirection.lt_of_covers hplev hlnorm hxlev.2 hq1 hq2))]
        have hd1leaf := covers_trans hq1 hnormcov
        have hplne : p ≠ leaf := by
          rintro rfl
          exact NodeDirection.not_childIndex_covers hppos hd1leaf
        simp only [horder, insertNode, List.length_append, List.length_singleton,
          Nat.add_sub_cancel, List.append_assoc, List.singleton_append]
        obtain ⟨s, hs⟩ : ∃ s : Node, s = Node.mk (depth p) p
            (d₁.orderElements (some t.nodes.length) (some nextRef)).1
            (d₁.orderElements (some t.nodes.length) (some nextRef)).2 := ⟨_, rfl⟩
        have hsp : s.index = p := by rw [hs]
        have hsd : s.depth = depth p := by rw [hs]
        rw [← hs]
        refine ⟨_, addChildNode_eq rfl hr dir (t.nodes.length + 1), ?_, ?_⟩
        · refine inserted_splitNode s ?_ hr (by rw [hsp]; exact hpleaf)
            (by rw [hsp]; exact hplne) (by rw [hsp]; exact herased)
          have hslev : InLevel s.depth s.index := by
            rw [hsd, hsp]
            exact hplev
          rw [← hsp] at hd1leaf hq2 hpdir
          refine splitNode_ok hok hr hleaf hchild hnext hd hslev hd1leaf hq2 hpdir ?_ ?_
          · rw [hs]
            cases d₁ <;> rfl
          · rw [hs]
            cases d₁ <;> cases d₂ <;> first | rfl | exact absurd rfl hd
        · intro hshape hclear a ha
          have hpc := hwipe hshape hclear
          by_contra hnn
          obtain ⟨v, hv⟩ := Option.ne_none_iff_exists'.mp hnn
          have hold : t.cache.lookup a = some v := by
            rcases herased.sub a with h | h
            · exact absurd h hnn
            · rw [← h]
              exact hv
          rcases covers_total ha hpleaf with hx | hx
          · exact hnn (hpc a hx)
          · by_cases hpa : p = a
            · exact hnn (hpc a (by rw [hpa]; exact covers_refl a))
            -- below the split node on the side of the leaf nothing is stored
            obtain ⟨d, hda⟩ := NodeDirection.exists_covers hx hpa
            have hdd : d = d₁ :=
              NodeDirection.covers_unique hppos (covers_trans hda ha) hd1leaf
            subst hdd
            obtain ⟨i, m, hi, hm⟩ := hshape.occupied a v hold
            have hdm := covers_trans hda hm
            obtain ⟨c, k, hc, hk, hkm⟩ := hok.cover r n dir i m hr hi
              (covers_trans hpdir (covers_trans (d.covers_childIndex _) hdm))
            rw [hchild] at hc
            obtain rfl := Option.some.inj hc
            rw [hnext] at hk
            obtain rfl := Option.some.inj hk
            exact hd (NodeDirection.covers_unique hppos hdm (covers_trans hq2 hkm))

end SparseMerkleTree

end ZkSync
