import ZkSync.Crypto.SmtRuns
import ZkSync.Lib.Related

/-!
# The sparse Merkle tree — a tree whose item table is not its own

Hashing reads the item table at a leaf only when nothing on the way to the leaf
is cached. So a tree with a foreign item table — as after `set_internals`, which
replaces the nodes and the cache but not the items — hashes like the tree the
nodes came from, as long as the two tables agree at the leaves that are not
cached.

* `GapsCached` — where a position is cached and its parent covers nothing more,
  the parent is cached too. With `CacheShape.closed` this says that the hash of
  a stored leaf is cached exactly if the hash of the direction it hangs in is,
  so a cached leaf is never read;
* `Backed` — the foreign table agrees at the leaves that are not cached;
* `Backed.call` — every call keeps this, and answers alike;
* `rootHash_missing` — the other side: a leaf with neither a cached hash nor an
  item makes `root_hash` panic.
-/

namespace ZkSync

open HeapIndex Smt TreeCall

namespace SparseMerkleTree

variable {T Hash : Type}

/-! ## What an insertion leaves cached -/

/-- Exactly the hashes on the way to the leaf go. -/
theorem insert_cache {t t' : SparseMerkleTree T Hash} (h : TreeOk t)
    (hshape : CacheShape t.nodes t.cache) {i : Nat} {item : T} (heq : t.insert i item = .ok t')
    (a : Nat) :
    (Covers a (2 ^ t.treeDepth + i) → t'.cache.lookup a = none) ∧
      (¬ Covers a (2 ^ t.treeDepth + i) → t'.cache.lookup a = t.cache.lookup a) := by
  have hi := insert_lt heq
  obtain ⟨t'', h1, -, -, -, hins, hclear⟩ := insert_ok h hi item
  rw [heq] at h1
  obtain rfl := Except.ok.inj h1
  refine ⟨hclear hshape a, fun ha => ?_⟩
  have hsame : t'.cache.lookup a = (t.cache.erase 1).lookup a := hins.erased.same a ha
  rw [hsame, Finmap.lookup_erase_if, if_neg]
  rintro rfl
  exact ha (one_covers h hi)

/-! ## Gaps -/

/-- A cached position that covers everything its parent covers has a cached
parent. -/
def GapsCached (t : SparseMerkleTree T Hash) : Prop :=
  ∀ x v, t.cache.lookup x = some v → 1 < x →
    (∀ (r : Nat) (m : Node), t.nodes[r]? = some m → Covers (x / 2) m.index → Covers x m.index) →
    ∃ w, t.cache.lookup (x / 2) = some w

theorem gapsCached_new (P : TreeParams T Hash) {depth : Nat} (hdepth : 1 < depth) :
    GapsCached (new P depth hdepth) :=
  fun _ _ hx => (by cases hx)

/-- Up to where something else branches off, the ancestors of a cached position
are cached. -/
theorem GapsCached.up {t : SparseMerkleTree T Hash} (hg : GapsCached t) {a : Nat} (ha : 0 < a) :
    ∀ (k x : Nat) (v : Hash), x / 2 ^ k = a →
    t.cache.lookup x = some v →
    (∀ (r : Nat) (m : Node), t.nodes[r]? = some m → Covers a m.index → Covers x m.index) →
    ∃ w, t.cache.lookup a = some w := by
  intro k
  induction k with
  | zero =>
    intro x v hx hcached _
    rw [Nat.pow_zero, Nat.div_one] at hx
    exact ⟨v, hx ▸ hcached⟩
  | succ k ih =>
    intro x v hx hcached hall
    have hhalf : x / 2 / 2 ^ k = a := by rw [Nat.div_div_eq_div_mul, ← Nat.pow_succ', hx]
    have hxlt : 1 < x := by
      have := Nat.div_le_self (x / 2) (2 ^ k)
      omega
    have hall' : ∀ (r : Nat) (m : Node), t.nodes[r]? = some m → Covers (x / 2) m.index →
        Covers x m.index :=
      fun r m hr hm => hall r m hr (covers_trans ⟨k, hhalf⟩ hm)
    obtain ⟨w, hw⟩ := hg x v hcached hxlt hall'
    exact ih (x / 2) w hhalf hw fun r m hr hm => covers_trans (covers_half x) (hall r m hr hm)

theorem gapsCached_insert {t t' : SparseMerkleTree T Hash} (h : TreeOk t)
    (hshape : CacheShape t.nodes t.cache) (hg : GapsCached t) {i : Nat} {item : T}
    (heq : t.insert i item = .ok t') : GapsCached t' := by
  intro x v hx hx1 hall
  obtain ⟨t'', h1, -, -, -, hins, -⟩ := insert_ok h (insert_lt heq) item
  rw [heq] at h1
  obtain rfl := Except.ok.inj h1
  have hoff : ¬ Covers x (2 ^ t.treeDepth + i) := fun hc => by
    rw [(insert_cache h hshape heq x).1 hc] at hx
    cases hx
  rw [(insert_cache h hshape heq x).2 hoff] at hx
  obtain ⟨w, hw⟩ := hg x v hx hx1 fun r m hr hm => by
    obtain ⟨m', hr', hm'⟩ := hins.kept r m hr
    rw [← hm'] at hm ⊢
    exact hall r m' hr' hm
  -- the parent does not lead to the new leaf either: all it covers is below `x`
  have hoff' : ¬ Covers (x / 2) (2 ^ t.treeDepth + i) := fun hc => by
    obtain ⟨r, m, hr, hm⟩ := hins.stored
    exact hoff (hm ▸ hall r m hr (by rw [hm]; exact hc))
  exact ⟨w, by rw [(insert_cache h hshape heq (x / 2)).2 hoff', hw]⟩

theorem gapsCached_rootHash {P : TreeParams T Hash} {t t' : SparseMerkleTree T Hash} (h : TreeOk t)
    (hh : HashOk P t) {hash : Hash} (heq : rootHash P t = .ok (hash, t')) : GapsCached t' := by
  intro x v hx hx1 _
  have hh' := rootHash_hashOk h hh heq
  have h' := rootHash_treeOk h heq
  obtain ⟨r, m, hr, hm⟩ := hh'.shape.occupied x v hx
  have hhalf : Covers (x / 2) m.index := covers_trans (covers_half x) hm
  have hone : Covers 1 m.index :=
    ⟨m.depth, inLevel_zero.mp (InLevel.div m.depth (by
      rw [Nat.zero_add]
      exact (h'.nodes.level r m hr).2))⟩
  refine rootHash_filled h hh heq _ ?_ ⟨r, m, hr, hhalf⟩
  rcases covers_total hone hhalf with hc | hc
  · exact hc
  · have := hc.le
    rw [show x / 2 = 1 by omega]
    exact covers_refl 1

/-! ## Another item table -/

/-- The loop of `insert` does not look at the items. -/
theorem insertLoop_items (items : Finmap fun _ : Nat => T) (leaf : Nat) :
    ∀ (fuel : Nat) (t : SparseMerkleTree T Hash) (r : Nat),
      insertLoop leaf fuel { t with items := items } r =
        (fun t' => { t' with items := items }) <$> insertLoop leaf fuel t r := by
  intro fuel
  -- induction on the fuel of the loop that walks down
  induction fuel with
  | zero => exact fun _ _ => rfl
  | succ fuel ih =>
    intro t r
    have hnode : ∀ (u : SparseMerkleTree T Hash) (ref : Nat),
        node { u with items := items } ref = u.node ref := fun _ _ => rfl
    have hlevel : ∀ (u : SparseMerkleTree T Hash) (d : Nat),
        calculateLevel { u with items := items } d = u.calculateLevel d := fun _ _ => rfl
    have hnew : ∀ (u : SparseMerkleTree T Hash) (index d : Nat) (lhs rhs : Option Nat),
        insertNode { u with items := items } index d lhs rhs =
          ({ (u.insertNode index d lhs rhs).1 with items := items },
            (u.insertNode index d lhs rhs).2) := fun _ _ _ _ _ => rfl
    have hadd : ∀ (u : SparseMerkleTree T Hash) (ref c : Nat) (dir : NodeDirection),
        addChildNode { u with items := items } ref dir c =
          (fun t' => { t' with items := items }) <$> addChildNode u ref dir c := by
      intro u ref c dir
      unfold addChildNode
      rw [hnode]
      cases u.node ref <;> rfl
    have hwipe : ∀ child parent : Nat, wipeCache { t with items := items } child parent =
        { t.wipeCache child parent with items := items } := by
      intro child parent
      unfold wipeCache
      split <;> rfl
    rw [insertLoop, insertLoop, hnode]
    cases t.node r with
    | error e => rfl
    | ok n =>
      simp only [Outcome.ok_bind, hlevel, hnew]
      split
      next nextRef _ =>
        rw [hnode]
        cases t.node nextRef with
        | error e => rfl
        | ok next =>
          simp only [Outcome.ok_bind, hwipe, hnew]
          split
          · split
            · rfl
            · exact ih _ _
          · exact hadd _ _ _ _
      next => exact hadd _ _ _ _

theorem insert_items (items : Finmap fun _ : Nat => T) (t : SparseMerkleTree T Hash) (i : Nat)
    (item : T) :
    insert { t with items := items } i item =
      (fun t' => { t' with items := items.insert i item }) <$> insert t i item := by
  unfold insert
  show (Outcome.assert (i < t.capacity) _ >>= _) = _ <$> (Outcome.assert (i < t.capacity) _ >>= _)
  cases Outcome.assert (i < t.capacity) "assertion failed: item_index < self.capacity()" with
  | error e => rfl
  | ok u =>
    have hloop := fun table => insertLoop_items table (shl1 t.treeDepth + i) (t.treeDepth + 1)
      { t with cache := t.cache.erase 1 } t.root
    refine (hloop (items.insert i item)).trans ?_
    rw [Outcome.ok_bind, hloop (t.items.insert i item), Functor.map_map]

/-- `t` is `t'` with an item table that has the same items at the leaves that are
neither pending nor cached. -/
structure Backed (pending : Nat → Prop) (t t' : SparseMerkleTree T Hash) : Prop where
  rest : t = { t' with items := t.items }
  agree : ∀ i, ¬ pending i → i ∈ t'.items →
    t.items.lookup i = t'.items.lookup i ∨ ∃ v, t'.cache.lookup (2 ^ t'.treeDepth + i) = some v

theorem TreeOk.inLevel_of_mem {t : SparseMerkleTree T Hash} (h : TreeOk t) {i : Nat}
    (hi : i ∈ t.items) : InLevel t.treeDepth (2 ^ t.treeDepth + i) := by
  obtain ⟨r, m, hr, hm⟩ := (h.leaves i).mp hi
  obtain ⟨hle, hlow, hup⟩ := h.nodes.level r m hr
  rw [hm] at hlow hup
  have hpow : 2 ^ t.treeDepth < 2 ^ (m.depth + 1) := by omega
  have hlt : t.treeDepth < m.depth + 1 := (Nat.pow_lt_pow_iff_right (by decide)).mp hpow
  have hdepth : m.depth = t.treeDepth := by omega
  rw [hdepth] at hlow hup
  exact ⟨hlow, hup⟩

/-- What is written agrees; a leaf that is cached stays so, unless it is written. -/
theorem Backed.insert {pending : Nat → Prop} {t t' : SparseMerkleTree T Hash}
    (hb : Backed pending t t') (h : TreeOk t') (hshape : CacheShape t'.nodes t'.cache) (i : Nat)
    (item : T) :
    Outcome.Related (Backed fun j => pending j ∧ j ≠ i) (t.insert i item) (t'.insert i item) := by
  have hins : t.insert i item =
      (fun u' => { u' with items := t.items.insert i item }) <$> t'.insert i item := by
    conv_lhs => rw [hb.rest]
    exact insert_items t.items t' i item
  rw [hins]
  cases heq : t'.insert i item with
  | error e => exact .error e
  | ok u' =>
    obtain ⟨-, hitems, hdepth⟩ := insert_eq_ok h heq
    refine .ok ⟨rfl, fun j hj hmem => ?_⟩
    show (t.items.insert i item).lookup j = _ ∨ _
    rw [hitems, hdepth, Finmap.lookup_insert_if, Finmap.lookup_insert_if]
    by_cases hji : j = i
    · rw [if_pos hji, if_pos hji]
      exact Or.inl rfl
    rw [if_neg hji, if_neg hji]
    have hold : j ∈ t'.items := by
      rw [hitems, Finmap.mem_insert] at hmem
      exact hmem.resolve_left hji
    rcases hb.agree j (fun hp => hj ⟨hp, hji⟩) hold with hsame | ⟨v, hv⟩
    · exact Or.inl hsame
    · have hoff : ¬ Covers (2 ^ t'.treeDepth + j) (2 ^ t'.treeDepth + i) := fun hc => by
        have heq' := (hc.eq_div (h.inLevel_of_mem hold) (inLevel_leaf h (insert_lt heq))).2
        rw [Nat.sub_self, Nat.pow_zero, Nat.div_one] at heq'
        omega
      exact Or.inr ⟨v, by rw [(insert_cache h hshape heq _).2 hoff, hv]⟩

section Hashing

variable {P : TreeParams T Hash} {t t' : SparseMerkleTree T Hash}

/-- Nothing is pending. -/
abbrev Settled (t t' : SparseMerkleTree T Hash) : Prop := Backed (fun _ => False) t t'

theorem node_eq_ok {r : Nat} {n : Node} (hr : t.nodes[r]? = some n) : t.node r = .ok n := by
  unfold node
  rw [hr]
  rfl

/-- A child hangs below all there is in its direction: if it is cached, so is
the direction. -/
theorem cached_direction (h : TreeOk t) (hg : GapsCached t) {r c : Nat} {n k : Node}
    {dir : NodeDirection} (hr : t.nodes[r]? = some n) (hchild : n.child dir = some c)
    (hk : t.nodes[c]? = some k) {v : Hash} (hv : t.cache.lookup k.index = some v) :
    ∃ w, t.cache.lookup (dir.childIndex n.index) = some w := by
  obtain ⟨k', hk', hcov⟩ := h.nodes.child r n dir c hr hchild
  rw [hk] at hk'
  obtain rfl := Option.some.inj hk'
  have hlev := dir.inLevel_childIndex (h.nodes.level r n hr).2
  obtain ⟨steps, hsteps⟩ := hcov
  refine hg.up hlev.pos steps k.index v hsteps hv fun i m hi hm => ?_
  obtain ⟨c', k'', hc', hk'', hcov'⟩ := h.nodes.cover r n dir i m hr hi hm
  rw [hchild] at hc'
  obtain rfl := Option.some.inj hc'
  rw [hk] at hk''
  obtain rfl := Option.some.inj hk''
  exact hcov'

/-- Filling a gap reads no items. -/
theorem fillGaps_items (items : Finmap fun _ : Nat => T) (parentDepth : Nat) :
    ∀ (curDepth curIdx : Nat) (acc : HashAndUpdates Hash),
      fillGaps P { t with items := items } parentDepth curDepth curIdx acc =
        fillGaps P t parentDepth curDepth curIdx acc := by
  intro curDepth
  induction curDepth with
  | zero => exact fun _ _ => rfl
  | succ curDepth ih =>
    intro curIdx acc
    rw [fillGaps, fillGaps]
    split
    · show (Outcome.expect t.prehashed[curDepth + 2]? _ >>= _) = _
      cases Outcome.expect t.prehashed[curDepth + 2]? "index out of bounds" with
      | error e => rfl
      | ok supplement => exact ih _ _
    · rfl

/-- Hashing reads the items of leaves that are not cached, so the foreign table
does as well. The induction is on the bound. -/
theorem Backed.getHash_eq (hb : Settled t t') (h : TreeOk t') (hg : GapsCached t') :
    ∀ (fuel r : Nat) (n : Node), t'.nodes[r]? = some n →
      (n.depth = t'.treeDepth → t'.cache.lookup n.index = none) →
      getHash P t fuel r = getHash P t' fuel r := by
  rw [hb.rest]
  intro fuel
  -- induction on the fuel: a subtree is hashed alike if its leaves are
  induction fuel with
  | zero => exact fun _ _ _ _ => rfl
  | succ fuel ih =>
    intro r n hr hleaf
    have hnode : node { t' with items := t.items } r = .ok n := node_eq_ok hr
    rw [getHash, getHash, hnode, node_eq_ok hr]
    simp only [Outcome.ok_bind]
    split
    next hdepth =>
      have hlow := (h.nodes.level r n hr).2.1
      rw [hdepth] at hlow
      have hmem : n.index - 2 ^ t'.treeDepth ∈ t'.items :=
        (h.leaves _).mpr ⟨r, n, hr, (Nat.add_sub_cancel' hlow).symm⟩
      have hitem : t.items.lookup (n.index - shl1 t'.treeDepth) =
          t'.items.lookup (n.index - shl1 t'.treeDepth) := by
        rw [shl1_eq h.word]
        rcases hb.agree _ not_false hmem with hsame | ⟨v, hv⟩
        · exact hsame
        · rw [Nat.add_sub_cancel' hlow, hleaf hdepth] at hv
          cases hv
      rw [hitem]
    next hdepth =>
      have hdir : ∀ dir : NodeDirection,
          getChildHash P { t' with items := t.items }
              (getHash P { t' with items := t.items } fuel) n dir =
            getChildHash P t' (getHash P t' fuel) n dir := by
        intro dir
        unfold getChildHash
        dsimp only
        cases hcached : t'.cache.lookup (dir.childIndex n.index) with
        | some cached => rfl
        | none =>
          cases hchild : n.child dir with
          | none => rfl
          | some c =>
            obtain ⟨k, hk, -⟩ := h.nodes.child r n dir c hr hchild
            have hrec := ih c k hk fun _ => by
              by_contra hne
              obtain ⟨v, hv⟩ := Option.ne_none_iff_exists'.mp hne
              obtain ⟨w, hw⟩ := cached_direction h hg hr hchild hk hv
              rw [hcached] at hw
              cases hw
            have hnode' : node { t' with items := t.items } c = .ok k := node_eq_ok hk
            simp only [hnode', node_eq_ok hk, Outcome.ok_bind, hrec, fillGaps_items]
      rw [hdir, hdir]
      rfl

theorem Backed.rootHash (hb : Settled t t') (h : TreeOk t') (hg : GapsCached t') :
    Outcome.Related (fun a b => a.1 = b.1 ∧ Settled a.2 b.2) (rootHash P t) (rootHash P t') := by
  obtain ⟨n, hn, hn1⟩ := h.nodes.root
  have hdep : n.depth = 0 :=
    ((h.nodes.level 0 n hn).2).unique (by rw [hn1]; exact inLevel_zero.mpr rfl)
  have hroot := hb.getHash_eq (P := P) h hg (t'.treeDepth + 1) 0 n hn fun hd => by
    have := h.depth
    omega
  have hdepth : t.treeDepth = t'.treeDepth := by rw [hb.rest]
  have hcache : t.cache = t'.cache := by rw [hb.rest]
  unfold SparseMerkleTree.rootHash
  rw [hdepth, hroot, hcache]
  refine .same _ fun res => .ok ⟨rfl, by rw [hb.rest], fun i hi hmem => ?_⟩
  rcases hb.agree i hi hmem with hsame | ⟨v, hv⟩
  · exact Or.inl hsame
  · exact Or.inr ((lookup_foldl_insert res.2 t'.cache _).2 (Or.inr ⟨v, hv⟩))

theorem collectPath_items (items : Finmap fun _ : Nat => T) :
    ∀ d index : Nat, collectPath { t with items := items } d index = collectPath t d index := by
  intro d
  induction d with
  | zero => exact fun _ => rfl
  | succ d ih =>
    intro index
    rw [collectPath, collectPath, ih]
    rfl

theorem Backed.merklePath (hb : Settled t t') (h : TreeOk t') (hg : GapsCached t') (index : Nat) :
    Outcome.Related (fun a b => a.1 = b.1 ∧ Settled a.2 b.2) (merklePath P t index)
      (merklePath P t' index) := by
  unfold SparseMerkleTree.merklePath
  have hcap : t.capacity = t'.capacity := by rw [hb.rest]; rfl
  rw [hcap]
  refine .same _ fun _ => (hb.rootHash h hg).bind ?_
  rintro ⟨_, u⟩ ⟨_, u'⟩ ⟨-, hu⟩
  change Settled u u' at hu
  have hpath : ∀ d index : Nat, u.collectPath d index = u'.collectPath d index := fun d index => by
    rw [hu.rest]
    exact collectPath_items u.items d index
  have hdepth : u.treeDepth = u'.treeDepth := by rw [hu.rest]
  simp only [hdepth, hpath]
  exact .same _ fun _ => .ok ⟨rfl, hu⟩

/-- Every call answers alike and keeps the trees alike. -/
theorem Backed.call (hb : Settled t t') (h : TreeOk t') (hh : HashOk P t') (hg : GapsCached t')
    (c : TreeCall T) : Outcome.Related Settled (call P t c) (call P t' c) := by
  have hinsert : ∀ (i : Nat) (item : T),
      Outcome.Related Settled (t.insert i item) (t'.insert i item) := fun i item =>
    (hb.insert h hh.shape i item).mono fun _ _ hu =>
      ⟨hu.rest, fun j _ => hu.agree j fun hp => hp.1⟩
  cases c with
  | insert itemIndex item => exact hinsert _ _
  | remove index =>
    show Outcome.Related Settled (Prod.snd <$> remove P.default t _)
      (Prod.snd <$> remove P.default t' _)
    rw [remove_eq, remove_eq]
    exact Outcome.Related.map ((hinsert _ P.default).bind (Q := fun a b => Settled a.2 b.2)
      fun _ _ hu => .ok hu) fun _ _ hu => hu
  | rootHash => exact (hb.rootHash h hg).map fun _ _ hu => hu.2
  | merklePath index => exact (hb.merklePath h hg index.toNat).map fun _ _ hu => hu.2

/-! ## A leaf without an item -/

/-- A leaf with neither a cached hash nor an item makes `root_hash` panic. The
induction is on the bound of `get_hash`; nothing above the leaf is cached
either, so the leaf is reached. -/
theorem rootHash_missing (h : TreeOk t') (hshape : CacheShape t'.nodes t'.cache)
    (hrest : t = { t' with items := t.items }) {i : Nat} (hi : i ∈ t'.items)
    (hcache : t'.cache.lookup (2 ^ t'.treeDepth + i) = none) (hitem : t.items.lookup i = none)
    (res : Hash × SparseMerkleTree T Hash) : rootHash P t ≠ .ok res := by
  obtain ⟨rl, ml, hrl, hml⟩ := (h.leaves i).mp hi
  have hleaf := h.inLevel_of_mem hi
  -- whatever the fuel, the way down to the item ends at the missing hash
  have hget : ∀ (fuel r : Nat) (n : Node), t'.nodes[r]? = some n →
      Covers n.index (2 ^ t'.treeDepth + i) →
      ∀ hashed, getHash P t fuel r ≠ .ok hashed := by
    rw [hrest]
    intro fuel
    induction fuel with
    | zero => exact fun _ _ _ _ _ he => (by cases he)
    | succ fuel ih =>
      intro r n hr hcov hashed he
      have hlev := h.nodes.level r n hr
      have hnode : node { t' with items := t.items } r = .ok n := node_eq_ok hr
      rw [getHash, hnode, Outcome.ok_bind] at he
      split at he
      next hdepth =>
        have hdepth' : n.depth = t'.treeDepth := hdepth
        rw [hdepth'] at hlev
        have hidx := (hcov.eq_div hlev.2 hleaf).2
        rw [Nat.sub_self, Nat.pow_zero, Nat.div_one] at hidx
        have hkey : n.index - shl1 t'.treeDepth = i := by
          rw [shl1_eq h.word, hidx, Nat.add_sub_cancel_left]
        have hlookup : t.items.lookup (n.index - shl1 t'.treeDepth) = none := by
          rw [hkey, hitem]
        rw [show (Outcome.expect (t.items.lookup (n.index - shl1 t'.treeDepth)) _ : Outcome T) =
          .error (.panic "no entry found for key") by rw [hlookup]; rfl] at he
        cases he
      next hdepth =>
        have hdepth' : n.depth ≠ t'.treeDepth := hdepth
        have hne : n.index ≠ 2 ^ t'.treeDepth + i := fun heq =>
          hdepth' (hlev.2.unique (by rw [heq]; exact hleaf))
        obtain ⟨dir, hdir⟩ := NodeDirection.exists_covers hcov hne
        have hchild : ∀ hashed, getChildHash P { t' with items := t.items }
            (getHash P { t' with items := t.items } fuel) n dir ≠ .ok hashed := by
          intro hashed' he'
          obtain ⟨c, k, hc, hk, hkcov⟩ := h.nodes.cover r n dir rl ml hr hrl (by rw [hml]; exact hdir)
          unfold getChildHash at he'
          have hnone : t'.cache.lookup (dir.childIndex n.index) = none := by
            by_contra hsome
            obtain ⟨v, hv⟩ := Option.ne_none_iff_exists'.mp hsome
            obtain ⟨w, hw⟩ := hshape.closed _ v _ rl ml hv hdir hrl (by rw [hml]; exact covers_refl _)
            rw [hcache] at hw
            cases hw
          simp only [hnone, hc, Outcome.bind_eq_ok] at he'
          obtain ⟨_, -, hashed'', hrec, -⟩ := he'
          exact ih c k hk (by rw [← hml]; exact hkcov) hashed'' hrec
        simp only [Outcome.bind_eq_ok] at he
        obtain ⟨left, hleft, right, hright, -⟩ := he
        cases dir with
        | Left => exact hchild left hleft
        | Right => exact hchild right hright
  obtain ⟨n, hn, hn1⟩ := h.nodes.root
  intro he
  unfold SparseMerkleTree.rootHash at he
  rw [Outcome.bind_eq_ok] at he
  obtain ⟨hashed, hroot, -⟩ := he
  refine hget _ 0 n hn ?_ hashed hroot
  rw [hn1]
  exact ⟨t'.treeDepth, inLevel_zero.mp (InLevel.div t'.treeDepth (by rw [Nat.zero_add]; exact hleaf))⟩

end Hashing

end SparseMerkleTree

end ZkSync
