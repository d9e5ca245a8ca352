import Mathlib.Data.Nat.Bitwise
import ZkSync.Crypto.SmtHash

/-!
# The sparse Merkle tree — Merkle paths

`merkle_path` asks for the root hash first, and then reads the path off the
cache: the hash of a neighbour is the cached one, or the hash of an empty
subtree. That is right because hashing the root leaves nothing out: every
position above a stored node is in the cache afterwards (`rootHash_filled`), so
a neighbour that is not cached has no item below it.

`foldPath` folds the hash of a leaf with such a path, from the leaf to the
root. Folding the path of an index gives the root of the full tree
(`collectPath_spec`).
-/

namespace ZkSync

open HeapIndex Smt

namespace SparseMerkleTree

variable {T Hash : Type}

/-! ## Definitions -/

/-- `get_calculated_node_hash`: the hash of the neighbour of a node, and whether
the node is the right one of the two. -/
def getCalculatedNodeHash (t : SparseMerkleTree T Hash) (depth nodeIndex : Nat) :
    Outcome (Hash × Bool) := do
  let neighborIndex := nodeIndex ^^^ 1
  let goingRight : Bool := nodeIndex % 2 ≠ 0
  match t.cache.lookup neighborIndex with
  | some hash => return (hash, goingRight)
  | none =>
    let hash ← Outcome.expect t.prehashed[depth]? "index out of bounds"
    return (hash, goingRight)

/-- The loop of `merkle_path`, from depth `depth` to the root. -/
def collectPath (t : SparseMerkleTree T Hash) : Nat → Nat → Outcome (List (Hash × Bool))
  | 0, _ => .ok []
  | depth + 1, curIndex => do
    let step ← t.getCalculatedNodeHash (depth + 1) curIndex
    let rest ← t.collectPath depth (curIndex / 2)
    return step :: rest

def merklePath (P : TreeParams T Hash) (t : SparseMerkleTree T Hash) (index : Nat) :
    Outcome (List (Hash × Bool) × SparseMerkleTree T Hash) := do
  Outcome.assert (index < t.capacity) "assertion failed: (index as ItemIndex) < self.capacity()"
  let (_, t) ← rootHash P t
  let proof ← t.collectPath t.treeDepth (shl1 t.treeDepth + index)
  return (proof, t)

/-- Fold a hash with a path; `level` is the level the path starts at. -/
def foldPath (H : Hasher Hash) : Nat → Hash → List (Hash × Bool) → Hash
  | _, hash, [] => hash
  | level, hash, (sibling, goingRight) :: rest =>
    foldPath H (level + 1)
      (if goingRight then H.compress sibling hash level else H.compress hash sibling level) rest

/-- The index a path belongs to, read off its directions. -/
def pathIndex : List (Hash × Bool) → Nat
  | [] => 0
  | (_, goingRight) :: rest => (if goingRight then 1 else 0) + 2 * pathIndex rest

/-! ## After hashing -/

/-- Every position above a stored node is cached. -/
def Filled (t : SparseMerkleTree T Hash) : Prop :=
  ∀ x, Covers 1 x → Occupied t x → ∃ v, t.cache.lookup x = some v

section Paths

variable {P : TreeParams T Hash} {t : SparseMerkleTree T Hash}

theorem rootHash_filled (h : TreeOk t) (hh : HashOk P t) {hash : Hash}
    {t' : SparseMerkleTree T Hash} (heq : rootHash P t = .ok (hash, t')) : Filled t' := by
  obtain ⟨n, hn, hn1⟩ := h.nodes.root
  have hdep : n.depth = 0 :=
    ((h.nodes.level 0 n hn).2).unique (by rw [hn1]; exact inLevel_zero.mpr rfl)
  have hspec := getHash_spec h hh (t.treeDepth + 1) 0 n hn (by omega)
  unfold rootHash at heq
  rw [Outcome.bind_eq_ok] at heq
  obtain ⟨⟨hash₀, updates⟩, hres, heq⟩ := heq
  rw [hres] at hspec
  obtain ⟨-, hups⟩ := hspec
  cases heq
  rw [hn1] at hups
  intro x hx hocc
  exact (lookup_foldl_insert updates t.cache x).2 (hups.all x hx hocc).symm

/-- A position has a hash if the root has one. -/
theorem subtreeHash_of_root {depth : Nat} {items : Finmap fun _ : Nat => T} {root : Hash}
    (hroot : fullRoot P depth items = .ok root) :
    ∀ (d index : Nat), d ≤ depth → InLevel d index →
      ∃ hash, subtreeHash P depth items (depth - d) index = .ok hash := by
  intro d
  induction d with
  | zero =>
    intro index _ hlev
    obtain rfl := inLevel_zero.mp hlev
    exact ⟨root, hroot⟩
  | succ d ih =>
    intro index hle hlev
    obtain ⟨parent, hparent⟩ := ih (index / 2) (by omega) hlev.half
    have hheight : depth - d = depth - (d + 1) + 1 := by omega
    rw [hheight, subtreeHash] at hparent
    simp only [Outcome.bind_eq_ok] at hparent
    obtain ⟨lhs, hl, rhs, hr, -⟩ := hparent
    rcases Nat.mod_two_eq_zero_or_one index with hm | hm
    · rw [show index / 2 * 2 = index by omega] at hl
      exact ⟨lhs, hl⟩
    · rw [show index / 2 * 2 + 1 = index by omega] at hr
      exact ⟨rhs, hr⟩

/-- The neighbour of a position stands at the same depth. -/
theorem inLevel_xor_one {d index : Nat} (hpos : 0 < d) (hlev : InLevel d index) :
    InLevel d (index ^^^ 1) := by
  obtain ⟨hlow, hup⟩ := hlev
  obtain ⟨e, rfl⟩ : ∃ e, d = e + 1 := ⟨d - 1, by omega⟩
  rw [Nat.pow_succ] at hlow hup
  unfold InLevel
  rw [Nat.pow_succ, Nat.pow_succ 2 (e + 1)]
  rcases Nat.even_or_odd index with heven | hodd
  · rw [Nat.xor_one_of_even heven]
    obtain ⟨k, rfl⟩ := heven
    omega
  · rw [Nat.xor_one_of_odd hodd]
    obtain ⟨k, rfl⟩ := hodd
    omega

/-- The neighbour's hash is right, cached or not. -/
theorem getCalculatedNodeHash_spec (h : TreeOk t) (hh : HashOk P t) (hf : Filled t) {d index : Nat}
    (hd : d ≤ t.treeDepth) (hpos : 0 < d) (hlev : InLevel d index) {sibling : Hash}
    (hs : subtreeHash P t.treeDepth t.items (t.treeDepth - d) (index ^^^ 1) = .ok sibling) :
    t.getCalculatedNodeHash d index = .ok (sibling, decide (index % 2 ≠ 0)) := by
  have hslev := inLevel_xor_one hpos hlev
  unfold getCalculatedNodeHash
  dsimp only
  cases hc : t.cache.lookup (index ^^^ 1) with
  | some hash =>
    have hv := hh.values _ _ d hc hslev
    rw [hs] at hv
    rw [Except.ok.inj hv]
    rfl
  | none =>
    have hempty : subtreeHash P t.treeDepth t.items (t.treeDepth - d) (index ^^^ 1) =
        .ok (emptyHash P (t.treeDepth - d)) := by
      refine subtreeHash_empty _ _ (Nat.sub_le _ _)
        (by rw [Nat.sub_sub_self hd]; exact hslev) fun leaf hleaf hcov => ?_
      refine h.lookup_none hleaf fun r m hr hm => ?_
      have hone : Covers 1 (index ^^^ 1) :=
        ⟨d, inLevel_zero.mp (InLevel.div d (by rw [Nat.zero_add]; exact hslev))⟩
      obtain ⟨v, hv⟩ := hf _ hone ⟨r, m, hr, by rw [hm]; exact hcov⟩
      rw [hc] at hv
      cases hv
    rw [hs] at hempty
    rw [hh.prehashed_get hd, ← Except.ok.inj hempty]
    rfl

/-- The loop of `merkle_path` returns a path that leads from the position to the
root. The induction is on the depth: one step puts the hash beside its
neighbour's, which makes the hash of the parent. -/
theorem collectPath_spec (h : TreeOk t) (hh : HashOk P t) (hf : Filled t) {root : Hash}
    (hroot : fullRoot P t.treeDepth t.items = .ok root) :
    ∀ (d index : Nat) (hash : Hash), d ≤ t.treeDepth → InLevel d index →
      subtreeHash P t.treeDepth t.items (t.treeDepth - d) index = .ok hash →
      ∃ path, t.collectPath d index = .ok path ∧ path.length = d ∧
        2 ^ d + pathIndex path = index ∧
        foldPath P.hasher (t.treeDepth - d) hash path = root := by
  intro d
  -- induction on the levels that the path has still to climb
  induction d with
  | zero =>
    intro index hash _ hlev hval
    obtain rfl := inLevel_zero.mp hlev
    refine ⟨[], rfl, rfl, rfl, ?_⟩
    show hash = root
    unfold fullRoot at hroot
    rw [Nat.sub_zero, hroot] at hval
    exact (Except.ok.inj hval).symm
  | succ d ih =>
    intro index hash hle hlev hval
    obtain ⟨parent, hparent⟩ := subtreeHash_of_root hroot d (index / 2) (by omega) hlev.half
    obtain ⟨sibling, hs⟩ := subtreeHash_of_root hroot (d + 1) (index ^^^ 1) hle
      (inLevel_xor_one (Nat.succ_pos d) hlev)
    have hstep := getCalculatedNodeHash_spec h hh hf hle (Nat.succ_pos d) hlev hs
    obtain ⟨rest, h1, h2, h3, h4⟩ := ih (index / 2) parent (by omega) hlev.half hparent
    refine ⟨(sibling, decide (index % 2 ≠ 0)) :: rest, ?_, ?_, ?_, ?_⟩
    · rw [collectPath, hstep, Outcome.ok_bind, h1]
      rfl
    · rw [List.length_cons, h2]
    · rw [pathIndex, Nat.pow_succ]
      rcases Nat.mod_two_eq_zero_or_one index with hm | hm <;> simp [hm] <;> omega
    · -- the parent hashes the position and its neighbour, in their order
      have hheight : t.treeDepth - d = t.treeDepth - (d + 1) + 1 := by omega
      rw [hheight, subtreeHash] at hparent
      rw [foldPath, ← hheight]
      rcases Nat.even_or_odd index with heven | hodd
      · have hm : index % 2 = 0 := Nat.even_iff.mp heven
        rw [Nat.xor_one_of_even heven] at hs
        rw [show index / 2 * 2 = index by omega, hval, Outcome.ok_bind, hs] at hparent
        rw [if_neg (by simp [hm]), Except.ok.inj hparent]
        exact h4
      · have hm : index % 2 = 1 := Nat.odd_iff.mp hodd
        rw [Nat.xor_one_of_odd hodd] at hs
        rw [show index / 2 * 2 + 1 = index by omega,
          show index / 2 * 2 = index - 1 by omega, hs, Outcome.ok_bind, hval] at hparent
        rw [if_pos (by simp [hm]), Except.ok.inj hparent]
        exact h4

/-- `merkle_path` of an index in the tree: a path as long as the tree is deep
that folds the hash of the leaf to the root. -/
theorem merklePath_spec (h : TreeOk t) (hh : HashOk P t) {root : Hash}
    (hroot : fullRoot P t.treeDepth t.items = .ok root) {index : Nat}
    (hindex : index < 2 ^ t.treeDepth) :
    ∃ path t' leaf, merklePath P t index = .ok (path, t') ∧ path.length = t.treeDepth ∧
      pathIndex path = index ∧ leafHash P (t.items.lookup index) = .ok leaf ∧
      foldPath P.hasher 0 leaf path = root := by
  have hres := rootHash_eq h hh
  rw [hroot] at hres
  obtain ⟨⟨root', t'⟩, hrt, -⟩ := Outcome.map_eq_ok.mp hres
  have h' := rootHash_treeOk h hrt
  have hh' := rootHash_hashOk h hh hrt
  have hframe := rootHash_frame hrt
  have hdepth : t'.treeDepth = t.treeDepth := by rw [hframe]
  have hitems : t'.items = t.items := by rw [hframe]
  have hlev : InLevel t.treeDepth (2 ^ t.treeDepth + index) :=
    inLevel_leaf h (by rw [h.capacity_eq]; exact hindex)
  obtain ⟨leaf, hleaf⟩ := subtreeHash_of_root hroot t.treeDepth _ (Nat.le_refl _) hlev
  have hroot' : fullRoot P t'.treeDepth t'.items = .ok root := by rw [hdepth, hitems, hroot]
  obtain ⟨path, h1, h2, h3, h4⟩ := collectPath_spec h' hh' (rootHash_filled h hh hrt) hroot'
    t.treeDepth _ leaf (by rw [hdepth]) hlev (by rw [hdepth, hitems]; exact hleaf)
  refine ⟨path, t', leaf, ?_, h2, by omega, ?_, ?_⟩
  · unfold merklePath
    rw [Outcome.bind_eq_ok]
    refine ⟨(), Outcome.assert_eq_ok.mpr (by rw [h.capacity_eq]; exact hindex), ?_⟩
    simp only [hrt, Outcome.ok_bind, hdepth]
    rw [shl1_eq h.word, h1]
    rfl
  · rw [Nat.sub_self, subtreeHash, Nat.add_sub_cancel_left] at hleaf
    exact hleaf
  · rw [hdepth, Nat.sub_self] at h4
    exact h4

end Paths

end SparseMerkleTree

end ZkSync
