import ZkSync.Lib.HeapIndex
import ZkSync.Crypto.ParallelSmt

/-!
# The sparse Merkle tree — the node vector

`NodesOk` is the shape of the node vector that `insert` keeps: the root node
stands first, no two nodes share an index, a child pointer leads to a node
below the direction it hangs in, and — `cover` — everything occupied below a
direction is below the child stored there. The last one is what hashing needs:
what no child covers is empty.

Inserting an item changes the vector in one place: one or two nodes are
appended and one child pointer is redirected. `graft_ok` proves once that such
a change keeps `NodesOk`, from facts about the appended nodes alone;
`hangLeaf_ok` and `splitNode_ok` are the two ways `insert` does it.
-/

namespace ZkSync.Smt

open HeapIndex

/-! ## Directions -/

namespace NodeDirection

theorem childIndex_half (dir : NodeDirection) (a : Nat) : dir.childIndex a / 2 = a := by
  cases dir <;> simp only [childIndex] <;> omega

theorem covers_childIndex (dir : NodeDirection) (a : Nat) :
    Covers a (dir.childIndex a) :=
  ⟨1, by rw [Nat.pow_one, childIndex_half]⟩

theorem inLevel_childIndex (dir : NodeDirection) {d : Nat} {a : Nat}
    (h : InLevel d a) : InLevel (d + 1) (dir.childIndex a) := by
  cases dir
  · exact h.left
  · exact h.right

theorem childIndex_ne (dir : NodeDirection) {a : Nat} (h : 0 < a) :
    dir.childIndex a ≠ a := by
  cases dir <;> simp only [childIndex] <;> omega

theorem childIndex_inj {dir dir' : NodeDirection} {a b : Nat}
    (h : dir.childIndex a = dir'.childIndex b) : a = b ∧ dir = dir' := by
  cases dir <;> cases dir' <;> simp only [childIndex] at h <;>
    first
    | exact ⟨by omega, rfl⟩
    | omega

/-- Strictly below a position one goes in some direction. -/
theorem exists_covers {a m : Nat} (h : Covers a m) (hne : a ≠ m) :
    ∃ dir : NodeDirection, Covers (dir.childIndex a) m := by
  rcases covers_child h hne with h | h
  · exact ⟨.Left, h⟩
  · exact ⟨.Right, h⟩

/-- In only one. -/
theorem covers_unique {dir dir' : NodeDirection} {a m : Nat} (ha : 0 < a)
    (h : Covers (dir.childIndex a) m) (h' : Covers (dir'.childIndex a) m) : dir = dir' := by
  cases dir <;> cases dir' <;>
    first
    | rfl
    | exact absurd h' (fun h' => not_covers_both ha h h')
    | exact absurd h' (fun h' => not_covers_both ha h' h)

/-- No position covers itself from below. -/
theorem not_childIndex_covers {dir : NodeDirection} {a : Nat} (ha : 0 < a) :
    ¬ Covers (dir.childIndex a) a := fun h =>
  dir.childIndex_ne ha (covers_antisymm h (dir.covers_childIndex a))

/-- Positions of one level lie left and right of a common ancestor in their
order. -/
theorem lt_of_covers {p a b : Nat} {d e : Nat} (hp : InLevel d p)
    (ha : InLevel e a) (hb : InLevel e b) (hl : Covers (childIndex .Left p) a)
    (hr : Covers (childIndex .Right p) b) : a < b := by
  have h1 := (hl.eq_div (inLevel_childIndex _ hp) ha).2
  have h2 := (hr.eq_div (inLevel_childIndex _ hp) hb).2
  by_contra hle
  have : b / 2 ^ (e - (d + 1)) ≤ a / 2 ^ (e - (d + 1)) :=
    Nat.div_le_div_right (Nat.le_of_not_lt hle)
  simp only [childIndex] at h1 h2
  omega

end NodeDirection

theorem Node.child_setChild (n : Node) (dir d : NodeDirection) (c : Nat) :
    (n.setChild dir c).child d = if d = dir then some c else n.child d := by
  cases dir <;> cases d <;> rfl

@[simp] theorem Node.setChild_index (n : Node) (dir : NodeDirection) (c : Nat) :
    (n.setChild dir c).index = n.index := by
  cases dir <;> rfl

@[simp] theorem Node.setChild_depth (n : Node) (dir : NodeDirection) (c : Nat) :
    (n.setChild dir c).depth = n.depth := by
  cases dir <;> rfl

/-! ## The shape of the node vector -/

structure NodesOk (depth : Nat) (nodes : List Node) : Prop where
  root : ∃ n, nodes[0]? = some n ∧ n.index = 1
  level : ∀ (r : Nat) (n : Node), nodes[r]? = some n → n.depth ≤ depth ∧ InLevel n.depth n.index
  unique : ∀ (r r' : Nat) (n n' : Node), nodes[r]? = some n → nodes[r']? = some n' → n.index = n'.index → r = r'
  child : ∀ (r : Nat) (n : Node) (dir : NodeDirection) (c : Nat), nodes[r]? = some n → n.child dir = some c →
    ∃ m, nodes[c]? = some m ∧ Covers (dir.childIndex n.index) m.index
  cover : ∀ (r : Nat) (n : Node) (dir : NodeDirection) (r' : Nat) (m : Node), nodes[r]? = some n → nodes[r']? = some m →
    Covers (dir.childIndex n.index) m.index →
    ∃ c k, n.child dir = some c ∧ nodes[c]? = some k ∧ Covers k.index m.index

/-- The tree of one node, the root. -/
theorem nodesOk_root (depth : Nat) :
    NodesOk depth [{ index := 1, depth := 0, left := none, right := none }] := by
  have hget : ∀ (r : Nat) (n : Node), [({ index := 1, depth := 0, left := none, right := none } : Node)][r]? =
      some n → r = 0 ∧ n = { index := 1, depth := 0, left := none, right := none } := by
    intro r n h
    cases r with
    | zero => exact ⟨rfl, (Option.some.inj h).symm⟩
    | succ r => cases h
  refine ⟨⟨_, rfl, rfl⟩, ?_, ?_, ?_, ?_⟩
  · intro r n hr
    obtain ⟨-, rfl⟩ := hget r n hr
    exact ⟨Nat.zero_le _, inLevel_zero.mpr rfl⟩
  · intro r r' n n' hr hr' _
    rw [(hget r n hr).1, (hget r' n' hr').1]
  · intro r n dir c hr hc
    obtain ⟨-, rfl⟩ := hget r n hr
    cases dir <;> cases hc
  · intro r n dir r' m hr hr' hcov
    obtain ⟨-, rfl⟩ := hget r n hr
    obtain ⟨-, rfl⟩ := hget r' m hr'
    exact absurd hcov (NodeDirection.not_childIndex_covers Nat.one_pos)

/-! ## Grafting nodes -/

/-- The vector with `ext` appended and the child of node `r` in direction `dir`
redirected to `c`. -/
def graft (nodes ext : List Node) (r : Nat) (n : Node) (dir : NodeDirection) (c : Nat) :
    List Node :=
  (nodes ++ ext).set r (n.setChild dir c)

section Graft

variable {depth : Nat} {nodes ext : List Node} {r c : Nat} {n : Node}
  {dir : NodeDirection}

/-- Old nodes keep their place, index, depth and other children. -/
theorem graft_old (ext : List Node) (dir : NodeDirection) (c : Nat)
    (hr : nodes[r]? = some n) {i : Nat} {m : Node} (hi : nodes[i]? = some m) :
    ∃ m', (graft nodes ext r n dir c)[i]? = some m' ∧ m'.index = m.index ∧
      m'.depth = m.depth ∧
      ∀ d, m'.child d = if i = r ∧ d = dir then some c else m.child d := by
  have hlt : i < nodes.length := (List.getElem?_eq_some_iff.mp hi).1
  have happ : (nodes ++ ext)[i]? = some m := by rw [List.getElem?_append_left hlt, hi]
  unfold graft
  by_cases hir : i = r
  · subst hir
    have hmn : n = m := by rw [hr] at hi; exact Option.some.inj hi
    subst hmn
    refine ⟨n.setChild dir c, ?_, by simp, by simp, ?_⟩
    · rw [List.getElem?_set, if_pos rfl, if_pos]
      exact (List.getElem?_eq_some_iff.mp happ).1
    · intro d
      rw [Node.child_setChild]
      simp
  · refine ⟨m, ?_, rfl, rfl, ?_⟩
    · rw [List.getElem?_set, if_neg (fun h => hir h.symm), happ]
    · intro d
      rw [if_neg (fun h => hir h.1)]

/-- New nodes stand behind the old ones. -/
theorem graft_new (hr : nodes[r]? = some n) {j : Nat} {m : Node} (hj : ext[j]? = some m) :
    (graft nodes ext r n dir c)[nodes.length + j]? = some m := by
  have hlt : r < nodes.length := (List.getElem?_eq_some_iff.mp hr).1
  unfold graft
  rw [List.getElem?_set, if_neg (by omega), List.getElem?_append_right (by omega),
    Nat.add_sub_cancel_left, hj]

/-- A node of the grafted vector is old or new. -/
theorem graft_cases (hr : nodes[r]? = some n) {i : Nat} {m' : Node}
    (hi : (graft nodes ext r n dir c)[i]? = some m') :
    (∃ m, nodes[i]? = some m ∧ m'.index = m.index ∧ m'.depth = m.depth ∧
      ∀ d, m'.child d = if i = r ∧ d = dir then some c else m.child d) ∨
    (∃ j, i = nodes.length + j ∧ ext[j]? = some m') := by
  by_cases hlt : i < nodes.length
  · obtain ⟨m'', h1, h2, h3, h4⟩ := graft_old ext dir c hr
      (List.getElem?_eq_getElem hlt)
    rw [hi] at h1
    obtain rfl := Option.some.inj h1
    exact Or.inl ⟨_, List.getElem?_eq_getElem hlt, h2, h3, h4⟩
  · have hrlt : r < nodes.length := (List.getElem?_eq_some_iff.mp hr).1
    refine Or.inr ⟨i - nodes.length, by omega, ?_⟩
    unfold graft at hi
    rw [List.getElem?_set, if_neg (by omega), List.getElem?_append_right (by omega)] at hi
    exact hi

/-- A graft keeps the shape, if the new nodes are well placed below the
redirected child and no old node there lies above a new one. -/
theorem graft_ok (h : NodesOk depth nodes) (hr : nodes[r]? = some n)
    (hlevel : ∀ m ∈ ext, m.depth ≤ depth ∧ InLevel m.depth m.index)
    (huniq : ∀ (i j : Nat) (a b : Node), ext[i]? = some a → ext[j]? = some b → a.index = b.index → i = j)
    (hunder : ∀ m ∈ ext, Covers (dir.childIndex n.index) m.index)
    (hfresh : ∀ (r' : Nat) (m' : Node), nodes[r']? = some m' → Covers (dir.childIndex n.index) m'.index →
      ∀ m ∈ ext, ¬ Covers m'.index m.index)
    (hchild : ∀ m ∈ ext, ∀ d c', m.child d = some c' →
      ∃ k, (graft nodes ext r n dir c)[c']? = some k ∧ Covers (d.childIndex m.index) k.index)
    (hcover : ∀ m ∈ ext, ∀ (d : NodeDirection) (r' : Nat) (k : Node), (graft nodes ext r n dir c)[r']? = some k →
      Covers (d.childIndex m.index) k.index →
      ∃ c' k', m.child d = some c' ∧ (graft nodes ext r n dir c)[c']? = some k' ∧
        Covers k'.index k.index)
    (htop : ∃ k, (graft nodes ext r n dir c)[c]? = some k ∧
      Covers (dir.childIndex n.index) k.index ∧
      ∀ (r' : Nat) (m : Node), (graft nodes ext r n dir c)[r']? = some m →
        Covers (dir.childIndex n.index) m.index → Covers k.index m.index) :
    NodesOk depth (graft nodes ext r n dir c) := by
  -- an old and a new node never share an index
  have hold : ∀ (i j : Nat) (a b : Node), nodes[i]? = some a → ext[j]? = some b → a.index ≠ b.index := by
    intro i j a b hi hj heq
    have hb := List.mem_of_getElem? hj
    exact hfresh i a hi (by rw [heq]; exact hunder b hb) b hb (by rw [heq]; exact covers_refl _)
  obtain ⟨k, hk, hkcov, hkall⟩ := htop
  refine ⟨?_, ?_, ?_, ?_, ?_⟩
  · obtain ⟨n0, h0, h1⟩ := h.root
    obtain ⟨m', hm', hidx, -, -⟩ := graft_old ext dir c hr h0
    exact ⟨m', hm', by rw [hidx, h1]⟩
  · intro i m hi
    rcases graft_cases hr hi with ⟨m0, h0, hidx, hdep, -⟩ | ⟨j, -, hj⟩
    · rw [hidx, hdep]
      exact h.level i m0 h0
    · exact hlevel m (List.mem_of_getElem? hj)
  · intro i i' m m' hi hi' heq
    rcases graft_cases hr hi with ⟨a, ha, hidx, -, -⟩ | ⟨j, rfl, hj⟩ <;>
      rcases graft_cases hr hi' with ⟨b, hb, hidx', -, -⟩ | ⟨j', rfl, hj'⟩
    · exact h.unique i i' a b ha hb (by rw [← hidx, ← hidx', heq])
    · exact absurd (by rw [← hidx, heq]) (hold i j' a m' ha hj')
    · exact absurd (by rw [← hidx', ← heq]) (hold i' j b m hb hj)
    · rw [huniq j j' m m' hj hj' heq]
  · intro i m d c' hi hc'
    rcases graft_cases hr hi with ⟨a, ha, hidx, -, hchild'⟩ | ⟨j, -, hj⟩
    · rw [hchild' d] at hc'
      by_cases hid : i = r ∧ d = dir
      · rw [if_pos hid] at hc'
        obtain rfl := Option.some.inj hc'
        obtain ⟨rfl, rfl⟩ := hid
        rw [hr] at ha
        obtain rfl := Option.some.inj ha
        exact ⟨k, hk, by rw [hidx]; exact hkcov⟩
      · rw [if_neg hid] at hc'
        obtain ⟨m0, hm0, hcov⟩ := h.child i a d c' ha hc'
        obtain ⟨m', hm', hidx', -, -⟩ := graft_old ext dir c hr hm0
        exact ⟨m', hm', by rw [hidx, hidx']; exact hcov⟩
    · exact hchild m (List.mem_of_getElem? hj) d c' hc'
  · intro i m d r' m' hi hr' hcov
    rcases graft_cases hr hi with ⟨a, ha, hidx, -, hchild'⟩ | ⟨j, -, hj⟩
    · rw [hidx] at hcov
      by_cases hid : i = r ∧ d = dir
      · obtain ⟨rfl, rfl⟩ := hid
        rw [hr] at ha
        obtain rfl := Option.some.inj ha
        exact ⟨c, k, by rw [hchild' d, if_pos ⟨rfl, rfl⟩], hk, hkall r' m' hr' hcov⟩
      · rw [hchild' d, if_neg hid]
        -- an old child that covers an old node still does
        have hlift : ∀ (r0 : Nat) (b : Node), nodes[r0]? = some b → Covers (d.childIndex a.index) b.index →
            ∃ c0 k0, a.child d = some c0 ∧ (graft nodes ext r n dir c)[c0]? = some k0 ∧
              Covers k0.index b.index := by
          intro r0 b hb hab
          obtain ⟨c0, k0, hc0, hk0, hcov0⟩ := h.cover i a d r0 b ha hb hab
          obtain ⟨k', hk', hidx', -, -⟩ := graft_old ext dir c hr hk0
          exact ⟨c0, k', hc0, hk', by rw [hidx']; exact hcov0⟩
        rcases graft_cases hr hr' with ⟨b, hb, hidx', -, -⟩ | ⟨j', -, hj'⟩
        · rw [hidx'] at hcov ⊢
          exact hlift r' b hb hcov
        · have hmem := List.mem_of_getElem? hj'
          have hnm : Covers n.index m'.index :=
            covers_trans (dir.covers_childIndex n.index) (hunder m' hmem)
          have hnpos : 0 < n.index := (h.level r n hr).2.pos
          -- compare the redirecting node with the direction asked about
          have habove : Covers (d.childIndex a.index) n.index := by
            rcases covers_total hcov hnm with hx | hx
            · exact hx
            · by_cases hxe : n.index = d.childIndex a.index
              · rw [hxe]
                exact covers_refl _
              exfalso
              obtain ⟨dd, hdd⟩ := NodeDirection.exists_covers hx hxe
              have hdir : dd = dir :=
                NodeDirection.covers_unique hnpos (covers_trans hdd hcov) (hunder m' hmem)
              subst hdir
              by_cases heq : dd.childIndex n.index = d.childIndex a.index
              · obtain ⟨hna, hdd'⟩ := NodeDirection.childIndex_inj heq
                exact hid ⟨(h.unique r i n a hr ha hna).symm, hdd'.symm⟩
              · have hax := hdd.half heq
                rw [NodeDirection.childIndex_half] at hax
                exact hfresh i a ha hax m' hmem
                  (covers_trans (d.covers_childIndex a.index) hcov)
          obtain ⟨c0, k0, hc0, hk0, hcov0⟩ := hlift r n hr habove
          exact ⟨c0, k0, hc0, hk0, covers_trans hcov0 hnm⟩
    · exact hcover m (List.mem_of_getElem? hj) d r' m' hr' hcov

end Graft

/-! ## The two grafts of `insert` -/

/-- The node `insert` appends for an item. -/
def leafNode (depth leaf : Nat) : Node :=
  { index := leaf, depth := depth, left := none, right := none }

theorem leafNode_child (depth leaf : Nat) (d : NodeDirection) :
    (leafNode depth leaf).child d = none := by
  cases d <;> rfl

section Insert

variable {depth leaf r : Nat} {nodes : List Node} {n : Node} {dir : NodeDirection}

/-- Nothing lies below a leaf. -/
theorem NodesOk.not_below_leaf (h : NodesOk depth nodes) (hleaf : InLevel depth leaf)
    {i : Nat} {m : Node} (hi : nodes[i]? = some m) {d : NodeDirection} :
    ¬ Covers (d.childIndex leaf) m.index := by
  intro hcov
  obtain ⟨hle, hlev⟩ := h.level i m hi
  have := (hcov.eq_div (d.inLevel_childIndex hleaf) hlev).1
  omega

/-- Where no child hangs, the leaf is hung. -/
theorem hangLeaf_ok (h : NodesOk depth nodes) (hr : nodes[r]? = some n)
    (hleaf : InLevel depth leaf) (hdir : Covers (dir.childIndex n.index) leaf)
    (hnone : n.child dir = none) :
    NodesOk depth (graft nodes [leafNode depth leaf] r n dir nodes.length) := by
  have hempty : ∀ (r' : Nat) (m' : Node), nodes[r']? = some m' →
      ¬ Covers (dir.childIndex n.index) m'.index := by
    intro r' m' hr' hcov
    obtain ⟨c, k, hc, -, -⟩ := h.cover r n dir r' m' hr hr' hcov
    rw [hnone] at hc
    cases hc
  -- the new leaf stands behind the old nodes
  have hnew : (graft nodes [leafNode depth leaf] r n dir nodes.length)[nodes.length]? =
      some (leafNode depth leaf) :=
    graft_new (j := 0) hr rfl
  have hmem : ∀ m ∈ [leafNode depth leaf], m = leafNode depth leaf := fun m hm =>
    List.mem_singleton.mp hm
  refine graft_ok h hr ?_ ?_ ?_ ?_ ?_ ?_ ?_
  · intro m hm
    rw [hmem m hm]
    exact ⟨Nat.le_refl _, hleaf⟩
  · intro i j a b hi hj _
    cases i with
    | zero =>
      cases j with
      | zero => rfl
      | succ j => cases hj
    | succ i => cases hi
  · intro m hm
    rw [hmem m hm]
    exact hdir
  · intro r' m' hr' hcov
    exact absurd hcov (hempty r' m' hr')
  · intro m hm d c' hc'
    rw [hmem m hm, leafNode_child] at hc'
    cases hc'
  · intro m hm d r' k hk hcov
    rw [hmem m hm] at hcov
    rcases graft_cases hr hk with ⟨a, ha, hidx, -, -⟩ | ⟨j, -, hj⟩
    · rw [hidx] at hcov
      exact absurd hcov (h.not_below_leaf hleaf ha)
    · rw [hmem k (List.mem_of_getElem? hj)] at hcov
      exact absurd hcov (NodeDirection.not_childIndex_covers hleaf.pos)
  · refine ⟨_, hnew, hdir, ?_⟩
    intro r' m hm hcov
    rcases graft_cases hr hm with ⟨a, ha, hidx, -, -⟩ | ⟨j, -, hj⟩
    · rw [hidx] at hcov
      exact absurd hcov (hempty r' a ha)
    · rw [hmem m (List.mem_of_getElem? hj)]
      exact covers_refl _

/-- Where the child `next` lies beside the way to the leaf, a split node is hung
at the position where the two ways part; the leaf and `next` become its
children. -/
theorem splitNode_ok (h : NodesOk depth nodes) (hr : nodes[r]? = some n)
    (hleaf : InLevel depth leaf) {nextRef : Nat} {next : Node}
    (hchild : n.child dir = some nextRef) (hnext : nodes[nextRef]? = some next)
    {s : Node} {d₁ d₂ : NodeDirection} (hd : d₁ ≠ d₂) (hslev : InLevel s.depth s.index)
    (hs1 : Covers (d₁.childIndex s.index) leaf)
    (hs2 : Covers (d₂.childIndex s.index) next.index)
    (hdirs : Covers (dir.childIndex n.index) s.index)
    (hc1 : s.child d₁ = some nodes.length) (hc2 : s.child d₂ = some nextRef) :
    NodesOk depth (graft nodes [leafNode depth leaf, s] r n dir (nodes.length + 1)) := by
  have hspos := hslev.pos
  have hsleaf : Covers s.index leaf := covers_trans (d₁.covers_childIndex _) hs1
  have hsnext : Covers s.index next.index := covers_trans (d₂.covers_childIndex _) hs2
  have hbelow : ∀ (r' : Nat) (m' : Node), nodes[r']? = some m' →
      Covers (dir.childIndex n.index) m'.index → Covers next.index m'.index := by
    intro r' m' hr' hcov
    obtain ⟨c, k, hc, hk, hcov'⟩ := h.cover r n dir r' m' hr hr' hcov
    rw [hchild] at hc
    obtain rfl := Option.some.inj hc
    rw [hnext] at hk
    rw [Option.some.inj hk]
    exact hcov'
  have hnleaf : ¬ Covers next.index leaf := fun hcov =>
    hd (NodeDirection.covers_unique hspos hs1 (covers_trans hs2 hcov))
  have hns : ¬ Covers next.index s.index := fun hcov =>
    NodeDirection.not_childIndex_covers hspos (covers_trans hs2 hcov)
  have hleaf_new : (graft nodes [leafNode depth leaf, s] r n dir (nodes.length + 1))[nodes.length]? =
      some (leafNode depth leaf) :=
    graft_new (j := 0) hr rfl
  have hs_new : (graft nodes [leafNode depth leaf, s] r n dir
      (nodes.length + 1))[nodes.length + 1]? = some s :=
    graft_new (j := 1) hr rfl
  have hmem : ∀ m ∈ [leafNode depth leaf, s], m = leafNode depth leaf ∨ m = s := fun m hm => by
    simpa using hm
  refine graft_ok h hr ?_ ?_ ?_ ?_ ?_ ?_ ?_
  · intro m hm
    rcases hmem m hm with rfl | rfl
    · exact ⟨Nat.le_refl _, hleaf⟩
    · exact ⟨(hsleaf.eq_div hslev hleaf).1, hslev⟩
  · intro i j a b hi hj heq
    have hne : leaf ≠ s.index := fun he => by
      rw [he] at hs1
      exact NodeDirection.not_childIndex_covers hspos hs1
    match i, j with
    | 0, 0 => rfl
    | 1, 1 => rfl
    | 0, 1 =>
      obtain rfl := Option.some.inj hi
      obtain rfl := Option.some.inj hj
      exact absurd heq hne
    | 1, 0 =>
      obtain rfl := Option.some.inj hi
      obtain rfl := Option.some.inj hj
      exact absurd heq.symm hne
    | i + 2, _ => cases hi
    | _, j + 2 => cases hj
  · intro m hm
    rcases hmem m hm with rfl | rfl
    · exact covers_trans hdirs hsleaf
    · exact hdirs
  · intro r' m' hr' hcov m hm
    have hnm := hbelow r' m' hr' hcov
    rcases hmem m hm with rfl | rfl
    · exact fun hc => hnleaf (covers_trans hnm hc)
    · exact fun hc => hns (covers_trans hnm hc)
  · intro m hm d c' hc'
    rcases hmem m hm with rfl | rfl
    · rw [leafNode_child] at hc'
      cases hc'
    · by_cases hd1 : d = d₁
      · subst hd1
        rw [hc1] at hc'
        obtain rfl := Option.some.inj hc'
        exact ⟨_, hleaf_new, hs1⟩
      · have hd2 : d = d₂ := by
          cases d <;> cases d₁ <;> cases d₂ <;> simp_all
        subst hd2
        rw [hc2] at hc'
        obtain rfl := Option.some.inj hc'
        obtain ⟨m', hm', hidx, -, -⟩ :=
          graft_old [leafNode depth leaf, m] dir (nodes.length + 1) hr hnext
        exact ⟨m', hm', by rw [hidx]; exact hs2⟩
  · intro m hm d r' k hk hcov
    rcases hmem m hm with rfl | rfl
    · rcases graft_cases hr hk with ⟨a, ha, hidx, -, -⟩ | ⟨j, -, hj⟩
      · rw [hidx] at hcov
        exact absurd hcov (h.not_below_leaf hleaf ha)
      · rcases hmem k (List.mem_of_getElem? hj) with rfl | rfl
        · exact absurd hcov (NodeDirection.not_childIndex_covers hleaf.pos)
        · have hcov' := covers_trans (d.covers_childIndex _) hcov
          have := covers_antisymm hcov' hsleaf
          exact absurd hs1 (by
            rw [← this]
            exact NodeDirection.not_childIndex_covers hleaf.pos)
    · rcases graft_cases hr hk with ⟨a, ha, hidx, -, -⟩ | ⟨j, -, hj⟩
      · rw [hidx] at hcov ⊢
        -- an old node below the split node is below `next`
        have hda : Covers (dir.childIndex n.index) a.index :=
          covers_trans hdirs (covers_trans (d.covers_childIndex _) hcov)
        have hna := hbelow r' a ha hda
        have hd2 : d = d₂ := NodeDirection.covers_unique hspos hcov (covers_trans hs2 hna)
        subst hd2
        obtain ⟨m', hm', hidx', -, -⟩ :=
          graft_old [leafNode depth leaf, m] dir (nodes.length + 1) hr hnext
        exact ⟨nextRef, m', hc2, hm', by rw [hidx']; exact hna⟩
      · rcases hmem k (List.mem_of_getElem? hj) with rfl | rfl
        · have hd1 : d = d₁ := NodeDirection.covers_unique hspos hcov hs1
          subst hd1
          exact ⟨_, _, hc1, hleaf_new, covers_refl _⟩
        · exact absurd hcov (NodeDirection.not_childIndex_covers hspos)
  · refine ⟨s, hs_new, hdirs, ?_⟩
    intro r' m hm hcov
    rcases graft_cases hr hm with ⟨a, ha, hidx, -, -⟩ | ⟨j, -, hj⟩
    · rw [hidx] at hcov ⊢
      exact covers_trans hsnext (hbelow r' a ha hcov)
    · rcases hmem m (List.mem_of_getElem? hj) with rfl | rfl
      · exact hsleaf
      · exact covers_refl _

end Insert

end ZkSync.Smt
