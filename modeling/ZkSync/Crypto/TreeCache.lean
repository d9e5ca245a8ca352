import ZkSync.Crypto.SmtBacked
import ZkSync.Lib.Bytes
import ZkSync.Types.AccountLeaf

/-!
# Restoring a tree from a cache

`get_internals` hands out the nodes and the cached hashes of a tree of field
elements, for the database; `set_internals` puts them into a tree whose items
were loaded elsewhere. The witness generator and the state keeper restore the
account tree so, and then write the accounts that changed since.

* `setInternals_getInternals` — the hashes survive their 32 bytes;
* `AlikeTrees` — two trees that every call leaves alike: one is backed by a tree
  with the assignment of the other (`AlikeTrees.call`);
* `restored_alike` — when the restored tree is like a fresh one. A leaf of the
  cached tree that the new items lack and no later write fills has no item, so
  its hash must be in the cache: `remove` leaves such leaves behind.
-/

namespace ZkSync

open Bytes HeapIndex Smt TreeCall

namespace Fr

/-- `into_repr` and `write_be`. -/
def toBytes (x : Fr) : Bytes := toBytesBE 32 x.val

/-- `read_be` and `from_repr`. -/
def ofBytes (bytes : Bytes) : Outcome Fr :=
  if h : ofBytesBE bytes < FR_MODULUS then .ok ⟨ofBytesBE bytes, h⟩
  else .error (.panic "Fr decode error")

/-- A hash is read back from its bytes. -/
theorem ofBytes_toBytes (x : Fr) : ofBytes x.toBytes = .ok x := by
  have hlt : x.val < 256 ^ 32 := Nat.lt_trans x.isLt (by decide)
  have hval : ofBytesBE x.toBytes = x.val := ofBytesBE_toBytesBE_of_lt hlt
  unfold ofBytes
  simp only [hval, x.isLt, dif_pos]

end Fr

/-- `SparseMerkleTreeSerializableCacheBN256`. -/
structure SparseMerkleTreeSerializableCacheBN256 where
  root : Nat
  nodes : List Node
  cache : List (Nat × Bytes)

namespace SparseMerkleTree

variable {T Hash : Type}

/-! ## Definitions -/

/-- `get_internals`; `order` is the order in which the cache, a hash table, is
iterated. -/
def getInternals (t : SparseMerkleTree T Fr) (order : AList fun _ : Nat => Fr) :
    SparseMerkleTreeSerializableCacheBN256 where
  root := t.root
  nodes := t.nodes
  cache := order.entries.map fun e => (e.1, Fr.toBytes e.2)

/-- `set_internals`: root, nodes and hashes are replaced, the items stay. -/
def setInternals (t : SparseMerkleTree T Fr) (internals : SparseMerkleTreeSerializableCacheBN256) :
    Outcome (SparseMerkleTree T Fr) := do
  let cache ← internals.cache.foldlM (fun cache (idx, frBytes) => do
    let fr ← Fr.ofBytes frBytes
    return cache.insert idx fr) ∅
  return { t with root := internals.root, nodes := internals.nodes, cache := cache }

/-- Insert one item after the other. -/
def insertAll (t : SparseMerkleTree T Hash) (items : List (Sigma fun _ : UInt32 => T)) :
    Outcome (SparseMerkleTree T Hash) :=
  items.foldlM (fun t e => t.insert e.1.toNat e.2) t

/-- A new tree over a table of items, inserted in the order of `items`. -/
def build (P : TreeParams T Hash) {depth : Nat} (hdepth : 1 < depth)
    (items : AList fun _ : UInt32 => T) : Outcome (SparseMerkleTree T Hash) :=
  insertAll (new P depth hdepth) items.entries

/-- The restore of `load_account_tree`: a new tree over the items, the internals
of the cached one, and the items at the updated indices once more. -/
def restore (P : TreeParams T Fr) {depth : Nat} (hdepth : 1 < depth)
    (items : AList fun _ : UInt32 => T) (internals : SparseMerkleTreeSerializableCacheBN256)
    (updated : List UInt32) : Outcome (SparseMerkleTree T Fr) := do
  let t ← build P hdepth items
  let t ← t.setInternals internals
  t.insertAll (updated.map fun idx => ⟨idx, (items.lookup idx).getD P.default⟩)

/-- The same root hash and the same Merkle paths, now and after any calls. -/
def SameHashes (P : TreeParams T Hash) (t u : SparseMerkleTree T Hash) : Prop :=
  ∀ calls : List (TreeCall T),
    (callAll P t calls >>= fun t => Prod.fst <$> rootHash P t) =
        (callAll P u calls >>= fun u => Prod.fst <$> rootHash P u) ∧
      ∀ index : UInt32,
        (callAll P t calls >>= fun t => Prod.fst <$> merklePath P t index.toNat) =
          (callAll P u calls >>= fun u => Prod.fst <$> merklePath P u index.toNat)

/-- The tree holds the items of a table; an index without an item holds the
default one. -/
def Holds (P : TreeParams T Hash) (t : SparseMerkleTree T Hash)
    (items : Finmap fun _ : UInt32 => T) : Prop :=
  ∀ i : UInt32, (t.items.lookup i.toNat).getD P.default = (items.lookup i).getD P.default

/-- What is taken from one tree and given to another is the same there. -/
theorem setInternals_getInternals {t t' : SparseMerkleTree T Fr} {order : AList fun _ : Nat => Fr}
    (h : order.toFinmap = t.cache) :
    t'.setInternals (t.getInternals order) =
      .ok { t' with root := t.root, nodes := t.nodes, cache := t.cache } := by
  have hread : ∀ (l : List (Sigma fun _ : Nat => Fr)) (cache : Finmap fun _ : Nat => Fr),
      (l.map fun e => (e.1, Fr.toBytes e.2)).foldlM (fun cache (idx, frBytes) => do
        let fr ← Fr.ofBytes frBytes
        return cache.insert idx fr) cache =
      (.ok (l.foldl (fun cache e => cache.insert e.1 e.2) cache) : Outcome _) := by
    intro l
    induction l with
    | nil => exact fun _ => rfl
    | cons e l ih =>
      intro cache
      rw [List.map_cons, List.foldlM_cons]
      simp only [Fr.ofBytes_toBytes, Outcome.ok_bind, Outcome.pure_eq]
      exact ih _
  unfold setInternals getInternals
  simp only [hread, Outcome.ok_bind, Finmap.foldl_insert_entries, h]
  rfl

/-! ## Two trees with one assignment -/

section Alike

variable {P : TreeParams T Hash} {depth : Nat} {leaf : Nat → T} {t t' u : SparseMerkleTree T Hash}

/-- An index beyond the capacity is a panic. -/
theorem insert_of_ge {i : Nat} (hi : ¬ i < t.capacity) (item : T) :
    t.insert i item = .error (.panic "assertion failed: item_index < self.capacity()") := by
  unfold insert Outcome.assert
  rw [if_neg hi]
  rfl

/-- Right hashes make one path, whatever is cached. -/
theorem collectPath_congr (h : SmtInv P depth leaf t) (h' : SmtInv P depth leaf u)
    (hf : Filled t) (hf' : Filled u) {root : Hash}
    (hroot : fullRoot P t.treeDepth t.items = .ok root) :
    ∀ d index : Nat, d ≤ depth → InLevel d index → t.collectPath d index = u.collectPath d index := by
  have hleaves : ∀ i, leafHash P (t.items.lookup i) = leafHash P (u.items.lookup i) := fun i => by
    unfold leafHash
    rw [h.items, h'.items]
  intro d
  induction d with
  | zero => exact fun _ _ _ => rfl
  | succ d ih =>
    intro index hd hlev
    have hslev := inLevel_xor_one (Nat.succ_pos d) hlev
    have hdt : d + 1 ≤ t.treeDepth := by rw [h.depth]; exact hd
    have hdu : d + 1 ≤ u.treeDepth := by rw [h'.depth]; exact hd
    obtain ⟨sibling, hs⟩ := subtreeHash_of_root hroot (d + 1) (index ^^^ 1) hdt hslev
    have hs' : subtreeHash P u.treeDepth u.items (u.treeDepth - (d + 1)) (index ^^^ 1) =
        .ok sibling := by
      rw [h'.depth, ← h.depth, ← hs]
      exact (subtreeHash_congr _ _ (Nat.sub_le _ _) (by rwa [Nat.sub_sub_self hdt]) fun _ _ _ =>
        hleaves _).symm
    rw [collectPath, collectPath,
      getCalculatedNodeHash_spec h.tree h.hash hf hdt (Nat.succ_pos d) hlev hs,
      getCalculatedNodeHash_spec h'.tree h'.hash hf' hdu (Nat.succ_pos d) hlev hs',
      ih (index / 2) (by omega) hlev.half]

/-- Trees with the same items stay so, or panic both. -/
theorem SmtInv.insert_related (h : SmtInv P depth leaf t) (h' : SmtInv P depth leaf u) (i : Nat)
    (item : T) :
    Outcome.Related (fun a b => ∃ leaf', SmtInv P depth leaf' a ∧ SmtInv P depth leaf' b)
      (t.insert i item) (u.insert i item) := by
  by_cases hi : i < 2 ^ depth
  · obtain ⟨t₁, ht⟩ := h.insert_returns hi item
    obtain ⟨u₁, hu⟩ := h'.insert_returns hi item
    rw [ht, hu]
    exact .ok ⟨_, h.insert ht, h'.insert hu⟩
  · rw [insert_of_ge (by rwa [h.capacity_eq]), insert_of_ge (by rwa [h'.capacity_eq])]
    exact .error _

/-- They have the same root. -/
theorem SmtInv.rootHash_related (h : SmtInv P depth leaf t) (h' : SmtInv P depth leaf u) :
    Outcome.Related (fun a b => a.1 = b.1 ∧ SmtInv P depth leaf a.2 ∧ SmtInv P depth leaf b.2)
      (SparseMerkleTree.rootHash P t) (SparseMerkleTree.rootHash P u) := by
  have hroot := h.rootHash_eq
  have hroot' := h'.rootHash_eq
  rw [← hroot'] at hroot
  cases ht : SparseMerkleTree.rootHash P t with
  | error e =>
    cases hu : SparseMerkleTree.rootHash P u with
    | error e' =>
      rw [ht, hu] at hroot
      obtain rfl : e = e' := Except.error.inj hroot
      exact .error e
    | ok b =>
      rw [ht, hu] at hroot
      cases hroot
  | ok a =>
    cases hu : SparseMerkleTree.rootHash P u with
    | error e' =>
      rw [ht, hu] at hroot
      cases hroot
    | ok b =>
      rw [ht, hu] at hroot
      exact .ok ⟨Except.ok.inj hroot, h.rootHash ht, h'.rootHash hu⟩

/-- They have the same paths. -/
theorem SmtInv.merklePath_related (h : SmtInv P depth leaf t) (h' : SmtInv P depth leaf u)
    (index : Nat) :
    Outcome.Related (fun a b => a.1 = b.1 ∧ SmtInv P depth leaf a.2 ∧ SmtInv P depth leaf b.2)
      (merklePath P t index) (merklePath P u index) := by
  have hcap : t.capacity = u.capacity := by rw [h.capacity_eq, h'.capacity_eq]
  have hrel := h.rootHash_related h'
  have hroot := SparseMerkleTree.rootHash_eq h.tree h.hash
  unfold SparseMerkleTree.merklePath
  rw [hcap]
  by_cases hindex : index < u.capacity
  · rw [Outcome.assert_ok _ hindex, Outcome.ok_bind, Outcome.ok_bind]
    cases ht : SparseMerkleTree.rootHash P t with
    | error e =>
      rw [hrel.of_error ht]
      exact .error e
    | ok a =>
      obtain ⟨b, hu, heq, ha, hb⟩ := hrel.of_ok ht
      obtain ⟨root, t₁⟩ := a
      obtain ⟨root', u₁⟩ := b
      obtain rfl : root = root' := heq
      rw [ht] at hroot
      rw [hu]
      have hrt : fullRoot P t₁.treeDepth t₁.items = .ok root := by
        rw [rootHash_frame ht]
        exact hroot.symm
      have ht₁ : t₁.treeDepth = depth := ha.depth
      have hu₁ : u₁.treeDepth = depth := hb.depth
      have hpath := collectPath_congr ha hb (rootHash_filled h.tree h.hash ht)
        (rootHash_filled h'.tree h'.hash hu) hrt depth (2 ^ depth + index) (Nat.le_refl depth)
        (by
          rw [← h'.depth]
          exact inLevel_leaf h'.tree hindex)
      have hword : depth < 64 := h.depth ▸ h.tree.word
      simp only [Outcome.ok_bind, ht₁, hu₁, shl1_eq hword, hpath]
      exact .same _ fun _ => .ok ⟨rfl, ha, hb⟩
  · unfold Outcome.assert
    rw [if_neg hindex]
    exact .error _

/-- Whatever is called, the answers agree. -/
theorem SmtInv.call_related (h : SmtInv P depth leaf t) (h' : SmtInv P depth leaf u)
    (c : TreeCall T) :
    Outcome.Related (fun a b => ∃ leaf', SmtInv P depth leaf' a ∧ SmtInv P depth leaf' b)
      (call P t c) (call P u c) := by
  cases c with
  | insert itemIndex item => exact h.insert_related h' _ item
  | remove index =>
    show Outcome.Related _ (Prod.snd <$> remove P.default t _) (Prod.snd <$> remove P.default u _)
    rw [remove_eq, remove_eq]
    exact Outcome.Related.map ((h.insert_related h' _ P.default).bind
      (Q := fun a b => ∃ leaf', SmtInv P depth leaf' a.2 ∧ SmtInv P depth leaf' b.2)
      fun _ _ hu => .ok hu) fun _ _ hu => hu
  | rootHash => exact (h.rootHash_related h').map fun _ _ hu => ⟨leaf, hu.2⟩
  | merklePath index => exact (h.merklePath_related h' _).map fun _ _ hu => ⟨leaf, hu.2⟩

/-- A call leaves no gap in the hashes. -/
theorem call_gaps (h : SmtInv P depth leaf t) (hg : GapsCached t) {c : TreeCall T}
    (hstep : Step P t c t') : GapsCached t' := by
  rcases step_cases hstep with ⟨i, item, hins, -⟩ | ⟨hash, hroot, -⟩
  · exact gapsCached_insert h.tree h.hash.shape hg hins
  · exact gapsCached_rootHash h.tree h.hash hroot

/-- So no run does. -/
theorem run_gaps {calls : List (TreeCall T)} (hrun : Run (Step P) t calls t') :
    ∀ {leaf : Nat → T}, SmtInv P depth leaf t → GapsCached t → GapsCached t' := by
  induction hrun with
  | nil => exact fun _ hg => hg
  | cons hstep _ ih => exact fun h hg => ih (call_inv h hstep) (call_gaps h hg hstep)

/-- `t` is backed by a tree with the assignment of `u`. -/
def AlikeTrees (P : TreeParams T Hash) (depth : Nat) (t u : SparseMerkleTree T Hash) : Prop :=
  ∃ t' leaf, Settled t t' ∧ GapsCached t' ∧ SmtInv P depth leaf t' ∧ SmtInv P depth leaf u

/-- Alike trees answer alike and stay alike. -/
theorem AlikeTrees.call (h : AlikeTrees P depth t u) (c : TreeCall T) :
    Outcome.Related (AlikeTrees P depth) (call P t c) (call P u c) := by
  obtain ⟨t', leaf, hb, hg, ht, hu⟩ := h
  have hback := hb.call (P := P) ht.tree ht.hash hg c
  have hinv := ht.call_related hu c
  have hgaps : ∀ t₁', SparseMerkleTree.call P t' c = .ok t₁' → GapsCached t₁' :=
    fun _ => call_gaps ht hg
  generalize SparseMerkleTree.call P t' c = y at hback hinv hgaps
  generalize SparseMerkleTree.call P t c = x at hback
  generalize SparseMerkleTree.call P u c = z at hinv
  cases hback with
  | error e =>
    cases hinv
    exact .error e
  | ok hs =>
    cases hinv with
    | ok hi =>
      obtain ⟨leaf', h1, h2⟩ := hi
      exact .ok ⟨_, leaf', hs, hgaps _ rfl, h1, h2⟩

/-- So they do through any calls. -/
theorem AlikeTrees.callAll (h : AlikeTrees P depth t u) (calls : List (TreeCall T)) :
    Outcome.Related (AlikeTrees P depth) (callAll P t calls) (callAll P u calls) := by
  induction calls generalizing t u with
  | nil => exact .ok h
  | cons c calls ih => exact (h.call c).bind fun _ _ h' => ih h'

/-- Related answers are equal ones. -/
theorem related_fst {α β : Type} {x : Outcome (α × β)} {y : Outcome (α × β)} {R : β → β → Prop}
    (h : Outcome.Related (fun a b => a.1 = b.1 ∧ R a.2 b.2) x y) :
    Prod.fst <$> x = Prod.fst <$> y := by
  cases h with
  | ok h => exact congrArg Except.ok h.1
  | error e => rfl

/-- That is what it means to have the same hashes. -/
theorem AlikeTrees.sameHashes (h : AlikeTrees P depth t u) : SameHashes P t u := by
  intro calls
  have hafter := h.callAll calls
  have hall : ∀ {α : Type} (answer : SparseMerkleTree T Hash → Outcome α),
      (∀ a b, AlikeTrees P depth a b → answer a = answer b) →
      (SparseMerkleTree.callAll P t calls >>= answer) =
        (SparseMerkleTree.callAll P u calls >>= answer) := by
    intro α answer hanswer
    generalize SparseMerkleTree.callAll P t calls = x at hafter
    generalize SparseMerkleTree.callAll P u calls = y at hafter
    cases hafter with
    | ok hab => exact hanswer _ _ hab
    | error e => rfl
  refine ⟨hall _ ?_, fun index => hall _ ?_⟩
  · rintro a b ⟨a', leaf, hb, hg, ha, hu⟩
    exact (related_fst (R := Settled) (hb.rootHash ha.tree hg)).trans
      (related_fst (R := fun a b => SmtInv P depth leaf a ∧ SmtInv P depth leaf b)
        (ha.rootHash_related hu))
  · rintro a b ⟨a', leaf, hb, hg, ha, hu⟩
    exact (related_fst (R := Settled) (hb.merklePath ha.tree hg _)).trans
      (related_fst (R := fun a b => SmtInv P depth leaf a ∧ SmtInv P depth leaf b)
        (ha.merklePath_related hu _))

/-! ## Insertions one after the other -/

/-- Filling a tree is a row of calls. -/
theorem callAll_insert (t : SparseMerkleTree T Hash) (l : List (Sigma fun _ : UInt32 => T)) :
    callAll P t (l.map fun e => .insert e.1 e.2) = insertAll t l := by
  induction l generalizing t with
  | nil => rfl
  | cons e l ih =>
    show (t.insert e.1.toNat e.2 >>= _) = (t.insert e.1.toNat e.2 >>= _)
    exact congrArg _ (funext ih)

/-- It is a run of the tree. -/
theorem run_insertAll {l : List (Sigma fun _ : UInt32 => T)} (h : insertAll t l = .ok t') :
    Run (Step P) t (l.map fun e => .insert e.1 e.2) t' :=
  run_callAll (by rw [callAll_insert, h])

/-- Filling a tree within its capacity never panics. -/
theorem insertAll_returns {l : List (Sigma fun _ : UInt32 => T)}
    (hl : ∀ e ∈ l, e.1.toNat < 2 ^ depth) (h : SmtInv P depth leaf t) :
    ∃ t' leaf', insertAll t l = .ok t' ∧ SmtInv P depth leaf' t' := by
  induction l generalizing t leaf with
  | nil => exact ⟨t, leaf, rfl, h⟩
  | cons e l ih =>
    obtain ⟨t₁, h1⟩ := h.insert_returns (hl e List.mem_cons_self) e.2
    obtain ⟨t', leaf', h2, h3⟩ := ih (fun e' he' => hl e' (List.mem_cons_of_mem _ he')) (h.insert h1)
    exact ⟨t', leaf', by rw [insertAll, List.foldlM_cons, h1]; exact h2, h3⟩

/-- The item written last at an index, or `o`. -/
def lastItem (l : List (Sigma fun _ : UInt32 => T)) (i : Nat) (o : Option T) : Option T :=
  l.foldl (fun o e => if e.1.toNat = i then some e.2 else o) o

/-- The last item at an index is the one that stays. -/
theorem lookup_insertAll {l : List (Sigma fun _ : UInt32 => T)} (h : TreeOk t)
    (heq : insertAll t l = .ok t') (i : Nat) :
    t'.items.lookup i = lastItem l i (t.items.lookup i) := by
  induction l generalizing t with
  | nil =>
    cases heq
    rfl
  | cons e l ih =>
    unfold insertAll at heq
    rw [List.foldlM_cons, Outcome.bind_eq_ok] at heq
    obtain ⟨t₁, h1, h2⟩ := heq
    obtain ⟨htree, hitems, -⟩ := insert_eq_ok h h1
    rw [ih htree h2, hitems, Finmap.lookup_insert_if]
    show lastItem l i _ = lastItem l i (if e.1.toNat = i then some e.2 else _)
    by_cases hi : i = e.1.toNat
    · rw [if_pos hi, if_pos hi.symm]
    · rw [if_neg hi, if_neg fun he => hi he.symm]

theorem lastItem_of_notMem {l : List (Sigma fun _ : UInt32 => T)} {i : Nat}
    (h : ∀ e ∈ l, e.1.toNat ≠ i) (o : Option T) : lastItem l i o = o := by
  induction l generalizing o with
  | nil => rfl
  | cons e l ih =>
    show lastItem l i (if e.1.toNat = i then _ else o) = o
    rw [if_neg (h e List.mem_cons_self), ih fun e' he' => h e' (List.mem_cons_of_mem _ he')]

theorem lastItem_of_mem {l : List (Sigma fun _ : UInt32 => T)} {i : Nat} {x : T}
    (hmem : ∃ e ∈ l, e.1.toNat = i) (hall : ∀ e ∈ l, e.1.toNat = i → e.2 = x) (o : Option T) :
    lastItem l i o = some x := by
  induction l generalizing o with
  | nil =>
    obtain ⟨e, he, -⟩ := hmem
    cases he
  | cons e l ih =>
    have hall' : ∀ e' ∈ l, e'.1.toNat = i → e'.2 = x :=
      fun e' he' => hall e' (List.mem_cons_of_mem _ he')
    show lastItem l i (if e.1.toNat = i then some e.2 else o) = some x
    by_cases hlater : ∃ e' ∈ l, e'.1.toNat = i
    · exact ih hlater hall' _
    · have hi : e.1.toNat = i := by
        obtain ⟨e', he', hi⟩ := hmem
        rcases List.mem_cons.mp he' with rfl | he'
        · exact hi
        · exact absurd ⟨e', he', hi⟩ hlater
      rw [lastItem_of_notMem fun e' he' hi' => hlater ⟨e', he', hi'⟩, if_pos hi,
        hall e List.mem_cons_self hi]

/-- Read in any order, a table holds its items. -/
theorem lastItem_entries (items : AList fun _ : UInt32 => T) (i : UInt32) :
    lastItem items.entries i.toNat none = items.lookup i := by
  cases hi : items.lookup i with
  | none =>
    refine lastItem_of_notMem (fun e he heq => ?_) none
    have hmem := AList.mem_lookup_iff.mpr he
    rw [UInt32.toNat_inj.mp heq, hi] at hmem
    cases hmem
  | some x =>
    refine lastItem_of_mem ⟨⟨i, x⟩, AList.mem_lookup_iff.mp hi, rfl⟩ (fun e he heq => ?_) none
    have hmem := AList.mem_lookup_iff.mpr he
    rw [UInt32.toNat_inj.mp heq, hi] at hmem
    exact (Option.some.inj hmem).symm

/-- After the insertions only what was pending and not written is pending. -/
theorem Backed.insertAll {pending : Nat → Prop} (l : List (Sigma fun _ : UInt32 => T))
    (hb : Backed pending t t') (h : SmtInv P depth leaf t') :
    Outcome.Related (Backed fun i => pending i ∧ ∀ e ∈ l, e.1.toNat ≠ i) (t.insertAll l)
      (t'.insertAll l) := by
  induction l generalizing t t' leaf pending with
  | nil => exact .ok ⟨hb.rest, fun i hi => hb.agree i fun hp => hi ⟨hp, fun _ he => (by cases he)⟩⟩
  | cons e l ih =>
    have hins := hb.insert h.tree h.hash.shape e.1.toNat e.2
    unfold SparseMerkleTree.insertAll
    rw [List.foldlM_cons, List.foldlM_cons]
    cases hu : t'.insert e.1.toNat e.2 with
    | error err =>
      rw [hu] at hins
      generalize t.insert e.1.toNat e.2 = x at hins
      cases hins
      exact .error err
    | ok u' =>
      rw [hu] at hins
      generalize t.insert e.1.toNat e.2 = x at hins
      cases hins with
      | ok hb' =>
        refine (ih hb' (h.insert hu)).mono fun _ _ hrest => ⟨hrest.rest, fun i hi => ?_⟩
        refine hrest.agree i fun hp => hi ⟨hp.1.1, fun e' he' => ?_⟩
        rcases List.mem_cons.mp he' with rfl | he'
        · exact fun heq => hp.1.2 heq.symm
        · exact hp.2 e' he'

/-- The foreign table has no item at a leaf that is not cached. -/
structure Missing (i : Nat) (t t' : SparseMerkleTree T Hash) : Prop where
  rest : t = { t' with items := t.items }
  mem : i ∈ t'.items
  cache : t'.cache.lookup (2 ^ t'.treeDepth + i) = none
  item : t.items.lookup i = none

/-- What is written elsewhere leaves it so. -/
theorem Missing.insertAll {i : Nat} {l : List (Sigma fun _ : UInt32 => T)} (hm : Missing i t t')
    (h : SmtInv P depth leaf t') (hl : ∀ e ∈ l, e.1.toNat ≠ i) :
    Outcome.Related (Missing i) (t.insertAll l) (t'.insertAll l) := by
  induction l generalizing t t' leaf with
  | nil => exact .ok hm
  | cons e l ih =>
    have hins : t.insert e.1.toNat e.2 =
        (fun u' => { u' with items := t.items.insert e.1.toNat e.2 }) <$>
          t'.insert e.1.toNat e.2 := by
      conv_lhs => rw [hm.rest]
      exact insert_items t.items t' e.1.toNat e.2
    have hne := hl e List.mem_cons_self
    unfold SparseMerkleTree.insertAll
    rw [List.foldlM_cons, List.foldlM_cons, hins]
    cases hu : t'.insert e.1.toNat e.2 with
    | error err => exact .error err
    | ok u' =>
      obtain ⟨-, hitems, hdepth⟩ := insert_eq_ok h.tree hu
      refine ih ⟨rfl, ?_, ?_, ?_⟩ (h.insert hu) fun e' he' => hl e' (List.mem_cons_of_mem _ he')
      · rw [hitems, Finmap.mem_insert]
        exact Or.inr hm.mem
      · rw [hdepth]
        by_cases hc : Covers (2 ^ t'.treeDepth + i) (2 ^ t'.treeDepth + e.1.toNat)
        · exact (insert_cache h.tree h.hash.shape hu _).1 hc
        · rw [(insert_cache h.tree h.hash.shape hu _).2 hc, hm.cache]
      · show (t.items.insert e.1.toNat e.2).lookup i = none
        rw [Finmap.lookup_insert_if, if_neg fun heq => hne heq.symm, hm.item]

theorem run_items {calls : List (TreeCall T)} (hrun : Run (Step P) t calls t')
    (h : SmtInv P depth leaf t) (hkeys : ∀ i ∈ t.items, i < UInt32.size) :
    ∀ i ∈ t'.items, i < UInt32.size := by
  induction hrun generalizing leaf with
  | nil => exact hkeys
  | cons hstep _ ih =>
    refine ih (call_inv h hstep) fun i hi => ?_
    rcases step_cases hstep with ⟨j, item, hins, -⟩ | ⟨hash, hroot, -⟩
    · rw [(insert_eq_ok h.tree hins).2.1, Finmap.mem_insert] at hi
      rcases hi with rfl | hi
      · exact j.toNat_lt
      · exact hkeys i hi
    · rw [rootHash_frame hroot] at hi
      exact hkeys i hi

end Alike

/-! ## The restored tree -/

section Restore

variable {P : TreeParams T Hash} {depth : Nat} {hdepth : 1 < depth} {t : SparseMerkleTree T Hash}

/-- Building a tree over a table whose indices fit returns, and the tree has
exactly the items of the table. -/
theorem build_returns (hword : depth < 64) {items : AList fun _ : UInt32 => T}
    (hitems : ∀ i ∈ items.toFinmap, i.toNat < 2 ^ depth) :
    ∃ t leaf, build P hdepth items = .ok t ∧ SmtInv P depth leaf t ∧
      (∀ i : UInt32, t.items.lookup i.toNat = items.toFinmap.lookup i) ∧
      ∀ i ∈ t.items, i < UInt32.size := by
  have hnew := smtInv_new (P := P) hdepth hword
  obtain ⟨t, leaf, h1, h2⟩ := insertAll_returns (l := items.entries) (fun e he =>
    hitems e.1 (Finmap.mem_iff.mpr ⟨e.2, AList.mem_lookup_iff.mpr he⟩)) hnew
  refine ⟨t, leaf, h1, h2, fun i => ?_, run_items (run_insertAll (P := P) h1) hnew fun i hi => ?_⟩
  · rw [lookup_insertAll hnew.tree h1]
    exact lastItem_entries items i
  · exact absurd hi Finmap.notMem_empty

/-- The tree whose internals are set is the cached tree with the new items. -/
theorem SmtInv.internals_eq {leaf leaf' : Nat → T} {u : SparseMerkleTree T Hash}
    (h : SmtInv P depth leaf t) (h' : SmtInv P depth leaf' u) :
    ({ u with root := t.root, nodes := t.nodes, cache := t.cache } : SparseMerkleTree T Hash) =
      { t with items := u.items } := by
  have hpre : u.prehashed = t.prehashed := by
    rw [h.hash.prehashed, h'.hash.prehashed, h.depth, h'.depth]
  rw [h'.depth, hpre, ← h.depth]

theorem SmtInv.congr {leaf leaf' : Nat → T} (h : SmtInv P depth leaf t)
    (hleaf : ∀ i, leaf i = leaf' i) : SmtInv P depth leaf' t :=
  ⟨h.tree, h.hash, h.depth, fun i => by rw [h.items, hleaf]⟩

theorem SmtInv.rootHash_returns {leaf : Nat → T} (h : SmtInv P depth leaf t)
    (hleaf : ∀ i, leaf i = P.default) : ∃ root t', SparseMerkleTree.rootHash P t = .ok (root, t') := by
  have hroot := (h.congr hleaf).rootHash_eq
  rw [treeHash_default] at hroot
  obtain ⟨⟨root, t'⟩, hok, -⟩ := Outcome.map_eq_ok.mp hroot
  exact ⟨root, t', hok⟩

/-- A missing item shows: once every item of the table is overwritten with the
default one, the fresh tree has a root hash and the restored one does not. -/
theorem not_sameHashes_of_missing {restored t' fresh : SparseMerkleTree T Hash}
    {leaf leaf' : Nat → T} {i : UInt32} {items : AList fun _ : UInt32 => T}
    (hm : Missing i.toNat restored t') (h' : SmtInv P depth leaf' t')
    (hfresh : SmtInv P depth leaf fresh)
    (hlookup : ∀ j : UInt32, fresh.items.lookup j.toNat = items.toFinmap.lookup j)
    (hsize : ∀ j ∈ fresh.items, j < UInt32.size)
    (hfit : ∀ j ∈ items.toFinmap, j.toNat < 2 ^ depth) (hi : i ∉ items.toFinmap) :
    ¬ SameHashes P restored fresh := by
  intro hsame
  let clear : List (Sigma fun _ : UInt32 => T) := items.entries.map fun e => ⟨e.1, P.default⟩
  have hclear : ∀ e ∈ clear, e.1 ∈ items.toFinmap ∧ e.2 = P.default := by
    intro e he
    obtain ⟨e', he', rfl⟩ := List.mem_map.mp he
    exact ⟨Finmap.mem_iff.mpr ⟨e'.2, AList.mem_lookup_iff.mpr he'⟩, rfl⟩
  have hreturn := fun e he => hfit (Sigma.fst e) (hclear e he).1
  obtain ⟨fresh₁, leaf₁, h1, hinv⟩ := insertAll_returns hreturn hfresh
  -- the fresh tree holds nothing but default items now
  have hdefault : ∀ j, leaf₁ j = P.default := by
    intro j
    rw [← hinv.items, lookup_insertAll hfresh.tree h1]
    by_cases hmem : ∃ e ∈ clear, e.1.toNat = j
    · rw [lastItem_of_mem hmem (fun e he _ => (hclear e he).2)]
      rfl
    · rw [lastItem_of_notMem fun e he hj => hmem ⟨e, he, hj⟩]
      by_cases hj : j < UInt32.size
      · have hval : (UInt32.ofNat j).toNat = j := UInt32.toNat_ofNat_of_lt' hj
        have hnone : items.toFinmap.lookup (UInt32.ofNat j) = none := by
          by_contra hne
          obtain ⟨x, hx⟩ := Option.ne_none_iff_exists'.mp hne
          exact hmem ⟨⟨UInt32.ofNat j, P.default⟩,
            List.mem_map.mpr ⟨⟨UInt32.ofNat j, x⟩, AList.mem_lookup_iff.mp hx, rfl⟩, hval⟩
        rw [← hval, hlookup, hnone]
        rfl
      · rw [Finmap.lookup_eq_none.mpr fun hmem' => hj (hsize j hmem')]
        rfl
  obtain ⟨root, fresh₂, hroot⟩ := hinv.rootHash_returns hdefault
  have hcalls := (hsame (clear.map fun e => .insert e.1 e.2)).1
  rw [callAll_insert, callAll_insert, h1, Outcome.ok_bind, hroot] at hcalls
  obtain ⟨t₁, leaf₁', h2, hinv'⟩ := insertAll_returns hreturn h'
  have hrel := hm.insertAll h' (l := clear) fun e he heq => hi (by
    rw [← UInt32.toNat_inj.mp heq]
    exact (hclear e he).1)
  rw [h2] at hrel
  generalize restored.insertAll clear = x at hrel hcalls
  cases hrel with
  | ok hm₁ =>
    obtain ⟨res, hres, -⟩ := Outcome.map_eq_ok.mp hcalls
    exact rootHash_missing hinv'.tree hinv'.hash.shape hm₁.rest hm₁.mem hm₁.cache hm₁.item res hres

end Restore

/-- After a restore the tree is like a fresh one over the same items, now and
after any calls, exactly if each index with a leaf in the cached tree has an
item, is updated, or has its hash in the cache. -/
theorem restored_alike (P : TreeParams T Fr) {depth : Nat} (hdepth : 1 < depth)
    (hword : depth < 64) {calls : List (TreeCall T)} {t : SparseMerkleTree T Fr}
    (hrun : Run (Step P) (new P depth hdepth) calls t) {old items : Finmap fun _ : UInt32 => T}
    (hold : Holds P t old) (hitems : ∀ i ∈ items, i.toNat < 2 ^ depth)
    {cacheOrder : AList fun _ : Nat => Fr} (hcache : cacheOrder.toFinmap = t.cache)
    {order order' : AList fun _ : UInt32 => T} (horder : order.toFinmap = items)
    (horder' : order'.toFinmap = items) {updated : List UInt32}
    (hupdated : ∀ i ∈ updated, i.toNat < 2 ^ depth)
    (hdiff : ∀ i, (items.lookup i).getD P.default ≠ (old.lookup i).getD P.default → i ∈ updated) :
    ∃ restored fresh, restore P hdepth order (t.getInternals cacheOrder) updated = .ok restored ∧
      build P hdepth order' = .ok fresh ∧
      (SameHashes P restored fresh ↔ ∀ i : UInt32, i.toNat ∈ t.items →
        i ∈ items ∨ i ∈ updated ∨ (t.cache.lookup (2 ^ depth + i.toNat)).isSome) := by
  have hnew := smtInv_new (P := P) hdepth hword
  have hinv := run_inv hrun hnew
  have hgaps := run_gaps hrun hnew (gapsCached_new P hdepth)
  have hsize := run_items hrun hnew fun i hi => absurd hi Finmap.notMem_empty
  obtain ⟨loaded, leaf₁, hload, hloaded, hlookup, -⟩ :=
    build_returns (P := P) hword (by rwa [horder])
  obtain ⟨fresh, leaf₂, hbuild, hfresh, hlookup', hsize'⟩ :=
    build_returns (P := P) hword (by rwa [horder'])
  rw [horder] at hlookup
  rw [horder'] at hlookup'
  -- the writes behind `set_internals`, on the cached tree and on the loaded one
  have hitem : ∀ i, (order.lookup i).getD P.default = (items.lookup i).getD P.default := fun i => by
    rw [← horder]
    rfl
  let writes : List (Sigma fun _ : UInt32 => T) :=
    updated.map fun idx => ⟨idx, (order.lookup idx).getD P.default⟩
  have hwrites : ∀ e ∈ writes, e.1 ∈ updated ∧ e.2 = (items.lookup e.1).getD P.default := by
    intro e he
    obtain ⟨idx, hidx, rfl⟩ := List.mem_map.mp he
    exact ⟨hidx, hitem idx⟩
  obtain ⟨t', leaf', hwrite, hinv'⟩ := insertAll_returns (l := writes)
    (fun e he => hupdated e.1 (hwrites e he).1) hinv
  have hrestore : restore P hdepth order (t.getInternals cacheOrder) updated =
      insertAll { t with items := loaded.items } writes := by
    unfold restore
    rw [hload, Outcome.ok_bind, setInternals_getInternals hcache, Outcome.ok_bind,
      hinv.internals_eq hloaded]
  -- an index without update has the same item in both
  have hsame : ∀ i : UInt32, i ∉ updated →
      (t.items.lookup i.toNat).getD P.default = (items.lookup i).getD P.default := by
    intro i hi
    by_contra hne
    exact hi (hdiff i fun heq => hne (by rw [hold, heq]))
  have hofNat : ∀ i, i < UInt32.size → (UInt32.ofNat i).toNat = i :=
    fun i hi => UInt32.toNat_ofNat_of_lt' hi
  have hback : Backed (fun i => (∃ u ∈ updated, u.toNat = i) ∨
      t.cache.lookup (2 ^ t.treeDepth + i) = none ∧ loaded.items.lookup i = none)
      { t with items := loaded.items } t := by
    refine ⟨rfl, fun i hi hmem => ?_⟩
    show loaded.items.lookup i = t.items.lookup i ∨ _
    cases hv : t.cache.lookup (2 ^ t.treeDepth + i) with
    | some v => exact Or.inr ⟨v, rfl⟩
    | none =>
      refine Or.inl ?_
      have hval := hofNat i (hsize i hmem)
      obtain ⟨x, hx⟩ := Option.ne_none_iff_exists'.mp fun hnone => hi (Or.inr ⟨hv, hnone⟩)
      obtain ⟨y, hy⟩ := Finmap.mem_iff.mp hmem
      have heq := hsame (UInt32.ofNat i) fun hmem' => hi (Or.inl ⟨_, hmem', hval⟩)
      rw [← hlookup, hval, hx, hy, Option.getD_some, Option.getD_some] at heq
      rw [hx, hy, heq]
  obtain ⟨restored, hres, hrel⟩ := (hback.insertAll writes hinv).of_ok_right hwrite
  rw [hrestore]
  refine ⟨restored, fresh, hres, hbuild, fun hsame' i hmem => ?_, fun hcond => ?_⟩
  · by_contra hno
    obtain ⟨hitem', hrest⟩ := not_or.mp hno
    obtain ⟨hupd, hcached⟩ := not_or.mp hrest
    have hmissing : Missing i.toNat { t with items := loaded.items } t := by
      refine ⟨rfl, hmem, ?_, ?_⟩
      · rw [hinv.depth]
        exact Option.not_isSome_iff_eq_none.mp hcached
      · show loaded.items.lookup i.toNat = none
        rw [hlookup]
        exact Finmap.lookup_eq_none.mpr hitem'
    obtain ⟨restored', hres', hm⟩ := (hmissing.insertAll hinv (l := writes) fun e he heq =>
      hupd (UInt32.toNat_inj.mp heq ▸ (hwrites e he).1)).of_ok_right hwrite
    rw [hres] at hres'
    obtain rfl := Except.ok.inj hres'
    exact not_sameHashes_of_missing hm hinv' hfresh (by rwa [horder']) hsize' (by rwa [horder'])
      (by rwa [horder']) hsame'
  · have hrun' := run_insertAll (P := P) hwrite
    refine AlikeTrees.sameHashes ⟨t', leaf', ⟨hrel.rest, fun i _ hmem => ?_⟩,
      run_gaps hrun' hinv hgaps, hinv', hfresh.congr fun i => ?_⟩
    · -- with the condition nothing is left pending
      refine hrel.agree i (fun ⟨hp, hnot⟩ => ?_) hmem
      have hlast := lookup_insertAll hinv.tree hwrite i
      rw [lastItem_of_notMem hnot] at hlast
      have hmem' : i ∈ t.items := by
        obtain ⟨x, hx⟩ := Finmap.mem_iff.mp hmem
        exact Finmap.mem_iff.mpr ⟨x, by rw [← hlast, hx]⟩
      have hval := hofNat i (hsize i hmem')
      rcases hp with ⟨u, hu, rfl⟩ | ⟨hcached, hnone⟩
      · exact hnot ⟨u, _⟩ (List.mem_map.mpr ⟨u, hu, rfl⟩) rfl
      · rcases hcond (UInt32.ofNat i) (by rwa [hval]) with h1 | h1 | h1
        · rw [← hval, hlookup] at hnone
          exact Finmap.lookup_eq_none.mp hnone h1
        · exact hnot ⟨UInt32.ofNat i, _⟩ (List.mem_map.mpr ⟨_, h1, rfl⟩) hval
        · rw [hval, ← hinv.depth, hcached] at h1
          cases h1
    · -- the two assignments agree everywhere
      rw [← hfresh.items, ← hinv'.items, lookup_insertAll hinv.tree hwrite]
      by_cases hi : i < UInt32.size
      · have hval := hofNat i hi
        rw [← hval, hlookup']
        by_cases hupd : UInt32.ofNat i ∈ updated
        · rw [lastItem_of_mem ⟨_, List.mem_map.mpr ⟨_, hupd, rfl⟩, rfl⟩ fun e he heq => by
            rw [(hwrites e he).2, UInt32.toNat_inj.mp heq], Option.getD_some]
        · have hnot : ∀ e ∈ writes, e.1.toNat ≠ (UInt32.ofNat i).toNat := fun e he heq =>
            hupd (UInt32.toNat_inj.mp heq ▸ (hwrites e he).1)
          rw [lastItem_of_notMem hnot, hsame _ hupd]
      · have hnot : ∀ e ∈ writes, e.1.toNat ≠ i := fun e _ heq => hi (heq ▸ e.1.toNat_lt)
        rw [Finmap.lookup_eq_none.mpr fun hmem => hi (hsize' i hmem), lastItem_of_notMem hnot,
          Finmap.lookup_eq_none.mpr fun hmem => hi (hsize i hmem)]

/-- The condition holds when the internals are taken right after `root_hash`, as
both callers do: every leaf is cached then. -/
theorem leaf_cached_of_rootHash {P : TreeParams T Fr} {depth : Nat} {leaf : Nat → T}
    {t t' : SparseMerkleTree T Fr} (h : SmtInv P depth leaf t) {root : Fr}
    (hroot : rootHash P t = .ok (root, t')) {i : Nat} (hi : i ∈ t'.items) :
    (t'.cache.lookup (2 ^ depth + i)).isSome := by
  have h' := h.rootHash hroot
  obtain ⟨r, m, hr, hm⟩ := (h'.tree.leaves i).mp hi
  have hlev := h'.tree.inLevel_of_mem hi
  rw [h'.depth] at hm hlev
  obtain ⟨v, hv⟩ := rootHash_filled h.tree h.hash hroot (2 ^ depth + i)
    ⟨depth, inLevel_zero.mp (InLevel.div depth (by rwa [Nat.zero_add]))⟩
    ⟨r, m, hr, by rw [hm]; exact covers_refl _⟩
  rw [hv]
  rfl

theorem getBitsLe_false : (fun item : Bool => (.ok [item] : Outcome (List Bool))) false =
    .ok [false] := rfl

/-- Booleans as items, and the left child's hash as the parent's. -/
def keepLeftFr : TreeParams Bool Fr where
  hasher :=
    { hashBits := fun bits => if bits.headD false then 1 else 0
      hashElements := fun hashes => hashes.headD 0
      compress := fun lhs _ _ => lhs }
  default := false
  getBitsLe := fun item => .ok [item]
  defaultBits := [false]
  getBitsLe_default := getBitsLe_false

/-- One item, at index 0. -/
def oneItem : AList fun _ : UInt32 => Bool := AList.singleton 0 true

theorem holds_oneItem {t : SparseMerkleTree Bool Fr} (h : t.items = Finmap.singleton 0 true) :
    Holds keepLeftFr t oneItem.toFinmap := by
  intro i
  rw [h]
  by_cases hi : i = 0
  · subst hi
    rfl
  · have hnot : i ∉ oneItem.toFinmap := fun hmem => hi ((Finmap.mem_singleton _ _ _).mp hmem)
    have hnot' : i.toNat ∉ (Finmap.singleton 0 true : Finmap fun _ : Nat => Bool) := fun hmem =>
      hi (UInt32.toNat_inj.mp ((Finmap.mem_singleton _ _ _).mp hmem))
    rw [Finmap.lookup_eq_none.mpr hnot, Finmap.lookup_eq_none.mpr hnot']

/-- Another item was inserted behind the cached block. -/
def laterItems : AList fun _ : UInt32 => Bool :=
  ⟨[⟨2, true⟩, ⟨0, true⟩], show [(2 : UInt32), 0].Nodup by decide⟩

/-- What the cache holds after one item and one `root_hash`. -/
def shallowCache : AList fun _ : Nat => Fr :=
  ⟨[⟨1, 1⟩, ⟨2, 1⟩, ⟨4, 1⟩], show [1, 2, 4].Nodup by decide⟩

/-- The item that was inserted later is written into the restored tree. -/
theorem restored_alike_keepLeft : ∃ t restored fresh,
    Run (Step keepLeftFr) (new keepLeftFr 2 (by decide)) [.insert 0 true, .rootHash] t ∧
      t.cache = shallowCache.toFinmap ∧
      restore keepLeftFr (show 1 < 2 by decide) laterItems (t.getInternals shallowCache) [2] =
        .ok restored ∧
      build keepLeftFr (show 1 < 2 by decide) laterItems = .ok fresh ∧
      SameHashes keepLeftFr restored fresh := by
  obtain ⟨t, ht⟩ : ∃ t, callAll keepLeftFr (new keepLeftFr 2 (by decide))
      [.insert 0 true, .rootHash] = .ok t := ⟨_, rfl⟩
  -- the cache behind the first two calls, computed
  have hafter : (fun t => (t.cache, t.items)) <$>
      callAll keepLeftFr (new keepLeftFr 2 (by decide)) [.insert 0 true, .rootHash] =
      .ok (shallowCache.toFinmap, Finmap.singleton 0 true) := by decide +kernel
  rw [ht] at hafter
  obtain ⟨hcache, hitems⟩ := Prod.mk.inj (Except.ok.inj hafter)
  have hmem : ∀ i ∈ laterItems.toFinmap, i = 2 ∨ i = 0 := fun i hi => by
    have hkeys : i ∈ [(2 : UInt32), 0] := hi
    rcases List.mem_cons.mp hkeys with h2 | h0
    · exact Or.inl h2
    · exact Or.inr (List.mem_singleton.mp h0)
  have hfit : ∀ i ∈ laterItems.toFinmap, i.toNat < 2 ^ 2 := fun i hi => by
    rcases hmem i hi with rfl | rfl <;> decide
  -- the items differ where something was inserted later
  have hdiff : ∀ i, (laterItems.toFinmap.lookup i).getD keepLeftFr.default ≠
      (oneItem.toFinmap.lookup i).getD keepLeftFr.default → i ∈ [(2 : UInt32)] := by
    intro i hne
    by_cases h0 : i = 0
    · subst h0
      exact absurd rfl hne
    by_contra h2
    have hlater : i ∉ laterItems.toFinmap := fun hi =>
      (hmem i hi).elim (fun h => h2 (List.mem_singleton.mpr h)) h0
    have hone : i ∉ oneItem.toFinmap := fun hi => h0 ((Finmap.mem_singleton _ _ _).mp hi)
    rw [Finmap.lookup_eq_none.mpr hlater, Finmap.lookup_eq_none.mpr hone] at hne
    exact hne rfl
  obtain ⟨restored, fresh, h1, h2, h3⟩ := restored_alike keepLeftFr (by decide) (by decide)
    (run_callAll ht) (holds_oneItem hitems) hfit hcache.symm rfl rfl
    (fun i hi => by
      rw [List.mem_singleton.mp hi]
      decide) hdiff
  refine ⟨t, restored, fresh, run_callAll ht, hcache, h1, h2, h3.mpr fun i hi => Or.inl ?_⟩
  have hi' : i.toNat ∈ (Finmap.singleton 0 true : Finmap fun _ : Nat => Bool) := hitems ▸ hi
  obtain rfl : i = 0 := UInt32.toNat_inj.mp ((Finmap.mem_singleton _ _ _).mp hi')
  exact List.mem_cons_of_mem _ List.mem_cons_self

/-- What the cache holds after one item and one `root_hash` at depth 65. -/
def deepCache : AList fun _ : Nat => Fr := ⟨[⟨1, 0⟩, ⟨0, 0⟩, ⟨2, 1⟩], show [1, 0, 2].Nodup by decide⟩

/-- Where the restored tree differs. Above depth 63 the gap between the root and
a leaf is hashed once with positions that leave the word, and read from the
cache afterwards; and the leaf that `remove` leaves behind has no item. -/
theorem restored_differs :
    (∃ t cacheOrder restored fresh,
      Run (Step keepLeftFr) (new keepLeftFr 65 (by decide)) [.insert 0 true, .rootHash] t ∧
        Holds keepLeftFr t oneItem.toFinmap ∧ cacheOrder.toFinmap = t.cache ∧
        restore keepLeftFr (show 1 < 65 by decide) oneItem (t.getInternals cacheOrder) [] =
          .ok restored ∧
        build keepLeftFr (show 1 < 65 by decide) oneItem = .ok fresh ∧
        Prod.fst <$> rootHash keepLeftFr restored = .ok 1 ∧
        Prod.fst <$> rootHash keepLeftFr fresh = .ok 0) ∧
    ∃ t restored fresh,
      Run (Step keepLeftFr) (new keepLeftFr 2 (by decide)) [.insert 0 true, .remove 0] t ∧
        Holds keepLeftFr t ∅ ∧ (∅ : AList fun _ : Nat => Fr).toFinmap = t.cache ∧
        restore keepLeftFr (show 1 < 2 by decide) ∅ (t.getInternals ∅) [] = .ok restored ∧
        build keepLeftFr (show 1 < 2 by decide) ∅ = .ok fresh ∧
        Prod.fst <$> rootHash keepLeftFr restored = .error (.panic "no entry found for key") ∧
        Prod.fst <$> rootHash keepLeftFr fresh = .ok 0 := by
  constructor
  -- one item below 65 levels: the cache was taken behind its root hash
  · have hafter : (fun t => (t.cache, t.items)) <$>
        callAll keepLeftFr (new keepLeftFr 65 (by decide)) [.insert 0 true, .rootHash] =
        .ok (deepCache.toFinmap, Finmap.singleton 0 true) := by decide +kernel
    have hroot : (do
        let t ← callAll keepLeftFr (new keepLeftFr 65 (by decide)) [.insert 0 true, .rootHash]
        let restored ← restore keepLeftFr (show 1 < 65 by decide) oneItem (t.getInternals deepCache) []
        Prod.fst <$> rootHash keepLeftFr restored) = .ok 1 := by decide +kernel
    have hfresh : (do
        let fresh ← build keepLeftFr (show 1 < 65 by decide) oneItem
        Prod.fst <$> rootHash keepLeftFr fresh) = .ok 0 := by decide +kernel
    obtain ⟨t, ht, hroot⟩ := Outcome.bind_eq_ok.mp hroot
    obtain ⟨restored, hrestored, hroot⟩ := Outcome.bind_eq_ok.mp hroot
    obtain ⟨fresh, hbuild, hfresh⟩ := Outcome.bind_eq_ok.mp hfresh
    rw [ht] at hafter
    obtain ⟨hcache, hitems⟩ := Prod.mk.inj (Except.ok.inj hafter)
    exact ⟨t, deepCache, restored, fresh, run_callAll ht, holds_oneItem hitems, Eq.symm hcache,
      hrestored, hbuild, hroot, hfresh⟩
  -- a removed item in a small tree, which was never hashed
  · have hafter : (fun t => (t.cache, t.items)) <$>
        callAll keepLeftFr (new keepLeftFr 2 (by decide)) [.insert 0 true, .remove 0] =
        .ok (∅, Finmap.singleton 0 false) := by decide +kernel
    obtain ⟨t, ht, hpair⟩ := Outcome.map_eq_ok.mp hafter
    obtain ⟨hcache, hitems⟩ := Prod.mk.inj hpair
    have hroot : (do
        let t ← callAll keepLeftFr (new keepLeftFr 2 (by decide)) [.insert 0 true, .remove 0]
        let restored ← restore keepLeftFr (show 1 < 2 by decide) ∅ (t.getInternals ∅) []
        return Prod.fst <$> rootHash keepLeftFr restored) =
        .ok (.error (.panic "no entry found for key")) := by decide +kernel
    have hfresh : (do
        let fresh ← build keepLeftFr (show 1 < 2 by decide) ∅
        Prod.fst <$> rootHash keepLeftFr fresh) = .ok 0 := by decide +kernel
    rw [ht, Outcome.ok_bind] at hroot
    obtain ⟨restored, hrestored, hroot⟩ := Outcome.bind_eq_ok.mp hroot
    obtain ⟨fresh, hbuild, hfresh⟩ := Outcome.bind_eq_ok.mp hfresh
    refine ⟨t, restored, fresh, run_callAll ht, fun i => ?_, Eq.symm hcache, hrestored, hbuild,
      Except.ok.inj hroot, hfresh⟩
    rw [hitems, Finmap.lookup_empty]
    by_cases hi : i.toNat = 0
    · rw [hi]
      rfl
    · rw [Finmap.lookup_eq_none.mpr fun hmem => hi ((Finmap.mem_singleton _ _ _).mp hmem)]

end SparseMerkleTree

end ZkSync
