import ZkSync.Lib.FinMap
import ZkSync.Lib.Outcome

/-!
# The sparse Merkle tree — definitions

`zksync_crypto::merkle_tree::parallel_smt`. The tree keeps the items in a
table, a vector of `Node`s for the occupied part of the tree (a node is a leaf,
the root, or a point where two occupied subtrees meet), the hashes of the empty
subtrees of each depth (`prehashed`), and a cache of hashes by node index.

The model keeps all of it, the cache included: `insert` and `rootHash` are the
source's loops over the node vector. Vector indexing, table indexing and the
source's assertions are panics of `Outcome`; the source's `while` and `loop`
take an explicit bound (`fuel`), and running out of it is a panic as well, so
that a proof that a call returns is a proof that its loops end.

Node indices are the heap numbering: the root is 1, the children of `n` are
`2n` and `2n + 1`, the leaf of item `i` is `2 ^ depth + i`. They are `u64` in
the source. The model has naturals for them and keeps the shifts as they are on
64 bits (`shl1`, `shr`), since a depth may be above 63; no product or sum of the
source overflows. With overflow checks a shift by 64 or more panics instead.
Item indices, depths and positions in the node vector (`NodeRef`) are naturals
as well.
-/

namespace ZkSync

/-- `Hasher`: the two hash functions of the state tree, and the compression of
two child hashes into their parent's (with the level, for personalisation). -/
structure Hasher (Hash : Type) where
  hashBits : List Bool → Hash
  hashElements : List Hash → Hash
  compress : Hash → Hash → Nat → Hash

/-- What the tree asks of its items: a default item and the bits of an item
(`T: GetBits + Default`), with the hasher. Taking the bits may panic; taking
those of the default item does not. -/
structure TreeParams (T Hash : Type) where
  hasher : Hasher Hash
  default : T
  getBitsLe : T → Outcome (List Bool)
  defaultBits : List Bool
  getBitsLe_default : getBitsLe default = .ok defaultBits

namespace Smt

/-- `1 << count` on a `u64`, which takes the count modulo 64. -/
def shl1 (count : Nat) : Nat := 2 ^ (count % 64)

/-- `index >> count` on a `u64`, which takes the count modulo 64. -/
def shr (index count : Nat) : Nat := index / 2 ^ (count % 64)

theorem shl1_eq {count : Nat} (h : count < 64) : shl1 count = 2 ^ count := by
  unfold shl1
  rw [Nat.mod_eq_of_lt h]

theorem shr_eq {count : Nat} (index : Nat) (h : count < 64) :
    shr index count = index / 2 ^ count := by
  unfold shr
  rw [Nat.mod_eq_of_lt h]

/-- An occupied node: its depth and index, and where its children stand in the
node vector. -/
structure Node where
  depth : Nat
  index : Nat
  left : Option Nat
  right : Option Nat
  deriving DecidableEq, Repr

inductive NodeDirection where
  | Left
  | Right
  deriving DecidableEq, Repr

namespace NodeDirection

def childIndex : NodeDirection → Nat → Nat
  | .Left, parentIdx => parentIdx * 2
  | .Right, parentIdx => parentIdx * 2 + 1

def fromIdx (idx : Nat) : NodeDirection :=
  if idx % 2 = 0 then .Left else .Right

/-- The direction is the one of the primary element. -/
def orderElements {α : Type} (dir : NodeDirection) (primary secondary : α) : α × α :=
  match dir with
  | .Left => (primary, secondary)
  | .Right => (secondary, primary)

end NodeDirection

def Node.child (n : Node) : NodeDirection → Option Nat
  | .Left => n.left
  | .Right => n.right

def Node.setChild (n : Node) (dir : NodeDirection) (child : Nat) : Node :=
  match dir with
  | .Left => { n with left := some child }
  | .Right => { n with right := some child }

end Smt

open Smt

structure SparseMerkleTree (T Hash : Type) where
  items : Finmap fun _ : Nat => T
  treeDepth : Nat
  root : Nat
  nodes : List Node
  prehashed : List Hash
  cache : Finmap fun _ : Nat => Hash

namespace SparseMerkleTree

variable {T Hash : Type}

/-! ## Construction -/

/-- The hash of a subtree of the given height all of whose leaves are default. -/
def emptyHash (P : TreeParams T Hash) : Nat → Hash
  | 0 => P.hasher.hashBits P.defaultBits
  | i + 1 => P.hasher.compress (emptyHash P i) (emptyHash P i) i

/-- `SparseMerkleTree::new`; the source asserts that the depth is above one. -/
def new (P : TreeParams T Hash) (treeDepth : Nat) (_ : 1 < treeDepth) :
    SparseMerkleTree T Hash where
  items := ∅
  treeDepth := treeDepth
  root := 0
  nodes := [{ index := 1, depth := 0, left := none, right := none }]
  prehashed := ((List.range (treeDepth + 1)).map (emptyHash P)).reverse
  cache := ∅

def capacity (t : SparseMerkleTree T Hash) : Nat := shl1 t.treeDepth

def get (t : SparseMerkleTree T Hash) (index : Nat) : Option T := t.items.lookup index

/-- `self.nodes[ref]`. -/
def node (t : SparseMerkleTree T Hash) (ref : Nat) : Outcome Node :=
  Outcome.expect t.nodes[ref]? "index out of bounds"

/-- The level of a node, counted from the leaves, handed to the hasher. -/
def calculateLevel (t : SparseMerkleTree T Hash) (curDepth : Nat) : Nat :=
  t.treeDepth - curDepth - 1

/-- The depth of a node by its index: how often it can be halved before it is 1. -/
def depth (index : Nat) : Nat := Nat.log2 index

/-! ## Insertion -/

/-- The loop of `wipe_cache`: erase the entries from `i` up to, not including,
`parent`. -/
def wipeUp (parent : Nat) :
    Nat → Nat → (Finmap fun _ : Nat => Hash) → Finmap fun _ : Nat => Hash
  | 0, _, cache => cache
  | fuel + 1, i, cache =>
    if i > parent then wipeUp parent fuel (i / 2) (cache.erase i) else cache

/-- Removes the cached hash of `child` and, if there was one, those of its
ancestors below `parent`. -/
def wipeCache (t : SparseMerkleTree T Hash) (child parent : Nat) :
    SparseMerkleTree T Hash :=
  if (t.cache.lookup child).isSome then
    { t with cache := wipeUp parent (t.treeDepth + 1) (child / 2) (t.cache.erase child) }
  else t

/-- Appends a node; the second component is its position. -/
def insertNode (t : SparseMerkleTree T Hash) (index : Nat) (depth : Nat)
    (left right : Option Nat) : SparseMerkleTree T Hash × Nat :=
  let nodes := t.nodes ++ [{ index := index, depth := depth, left := left, right := right }]
  ({ t with nodes := nodes }, nodes.length - 1)

/-- `self.nodes[ref].left = Some(child)` or the same on the right. -/
def addChildNode (t : SparseMerkleTree T Hash) (ref : Nat) (dir : NodeDirection)
    (child : Nat) : Outcome (SparseMerkleTree T Hash) := do
  let node ← t.node ref
  return { t with nodes := t.nodes.set ref (node.setChild dir child) }

/-- The first index both indices reach by halving them together. -/
def commonParent : Nat → Nat → Nat → Nat
  | 0, first, _ => first
  | fuel + 1, first, second =>
    if first ≠ second then commonParent fuel (first / 2) (second / 2) else first

/-- The loop of `insert`: go down from `currentNodeRef` towards the leaf, and
hang the leaf (and, where two subtrees part, a split node) into the tree. -/
def insertLoop (leafIndex : Nat) :
    Nat → SparseMerkleTree T Hash → Nat → Outcome (SparseMerkleTree T Hash)
  | 0, _, _ => .error (.panic "insert does not terminate")
  | fuel + 1, t, currentNodeRef => do
    let currentNode ← t.node currentNodeRef
    let currentLevel := t.calculateLevel currentNode.depth
    -- going right where the bit of the leaf index at this level is set
    let dir : NodeDirection := if shr leafIndex currentLevel % 2 = 1 then .Right else .Left
    match currentNode.child dir with
    | some nextRef =>
      let next ← t.node nextRef
      let leafIndexNormalized := shr leafIndex (t.treeDepth - next.depth)
      if leafIndexNormalized = next.index then
        let t := t.wipeCache next.index currentNode.index
        if next.index = leafIndex then return t
        else insertLoop leafIndex fuel t nextRef
      else
        let commonParentIndex :=
          commonParent (t.treeDepth + 1) leafIndexNormalized next.index
        let t := t.wipeCache commonParentIndex currentNode.index
        let (t, leafRef) := t.insertNode leafIndex t.treeDepth none none
        let direction : NodeDirection :=
          if leafIndexNormalized > next.index then .Right else .Left
        let (lhs, rhs) := direction.orderElements (some leafRef) (some nextRef)
        let splitDepth := depth commonParentIndex
        let (t, splitNodeRef) := t.insertNode commonParentIndex splitDepth lhs rhs
        t.addChildNode currentNodeRef dir splitNodeRef
    | none =>
      let (t, leafRef) := t.insertNode leafIndex t.treeDepth none none
      t.addChildNode currentNodeRef dir leafRef

def insert (t : SparseMerkleTree T Hash) (itemIndex : Nat) (item : T) :
    Outcome (SparseMerkleTree T Hash) := do
  Outcome.assert (itemIndex < t.capacity) "assertion failed: item_index < self.capacity()"
  let leafIndex := shl1 t.treeDepth + itemIndex
  insertLoop leafIndex (t.treeDepth + 1)
    { t with items := t.items.insert itemIndex item, cache := t.cache.erase 1 } t.root

/-- Removing an item writes the default item in its place: the item table keeps
an entry for the index. -/
def remove (default : T) (t : SparseMerkleTree T Hash) (index : Nat) :
    Outcome (Option T × SparseMerkleTree T Hash) := do
  let old := t.items.lookup index
  let t ← insert { t with items := t.items.erase index } index default
  return (old, t)

/-- The erasure leaves no trace: the insertion behind it writes the entry
again. -/
theorem remove_eq (default : T) (t : SparseMerkleTree T Hash) (index : Nat) :
    remove default t index = (do
      let t' ← insert t index default
      return (t.items.lookup index, t')) := by
  unfold remove insert
  simp only [Finmap.insert_erase]
  rfl

/-! ## Hashing -/

/-- `calculate_hash`. -/
def calculateHash (P : TreeParams T Hash) (t : SparseMerkleTree T Hash) (curDepth : Nat)
    (lhs rhs : Hash) : Hash :=
  P.hasher.compress lhs rhs (t.calculateLevel curDepth)

/-- A hash together with the cache entries found while computing it. -/
abbrev HashAndUpdates (Hash : Type) := Hash × List (Nat × Hash)

/-- The loop of `calculate_child_hash`: from the child up to its parent, pair
the hash with the empty subtree beside it. `curDepth` is the depth of the
parent of `curIdx`. -/
def fillGaps (P : TreeParams T Hash) (t : SparseMerkleTree T Hash) (parentDepth : Nat) :
    Nat → Nat → HashAndUpdates Hash → Outcome (HashAndUpdates Hash)
  | 0, _, acc => .ok acc
  | curDepth + 1, curIdx, (curHash, updates) =>
    if curDepth + 1 > parentDepth then do
      let supplement ← Outcome.expect t.prehashed[curDepth + 2]? "index out of bounds"
      let (lhs, rhs) := (NodeDirection.fromIdx curIdx).orderElements curHash supplement
      let curHash := calculateHash P t (curDepth + 1) lhs rhs
      fillGaps P t parentDepth curDepth (curIdx / 2) (curHash, updates ++ [(curIdx / 2, curHash)])
    else .ok (curHash, updates)

/-- `get_child_hash`, with the recursive call to `get_hash` as an argument: the
cached hash, the hash of an empty subtree, or the computed one. -/
def getChildHash (P : TreeParams T Hash) (t : SparseMerkleTree T Hash)
    (getHash : Nat → Outcome (HashAndUpdates Hash)) (parent : Node) (dir : NodeDirection) :
    Outcome (HashAndUpdates Hash) :=
  match t.cache.lookup (dir.childIndex parent.index) with
  | some cached => .ok (cached, [])
  | none =>
    match parent.child dir with
    | some childRef => do
      let child ← t.node childRef
      let hashed ← getHash childRef
      fillGaps P t parent.depth (child.depth - 1) child.index hashed
    | none => do
      let hash ← Outcome.expect t.prehashed[parent.depth + 1]? "index out of bounds"
      return (hash, [])

def getHash (P : TreeParams T Hash) (t : SparseMerkleTree T Hash) :
    Nat → Nat → Outcome (HashAndUpdates Hash)
  | 0, _ => .error (.panic "get_hash does not terminate")
  | fuel + 1, nodeRef => do
    let node ← t.node nodeRef
    if node.depth = t.treeDepth then
      let item ← Outcome.expect (t.items.lookup (node.index - shl1 t.treeDepth))
        "no entry found for key"
      let bits ← P.getBitsLe item
      let hash := P.hasher.hashBits bits
      return (hash, [(node.index, hash)])
    else
      let (lhs, lhsUpdates) ← getChildHash P t (getHash P t fuel) node .Left
      let (rhs, rhsUpdates) ← getChildHash P t (getHash P t fuel) node .Right
      let hash := calculateHash P t node.depth lhs rhs
      return (hash, lhsUpdates ++ rhsUpdates ++ [(node.index, hash)])

/-- The root hash, and the tree with the hashes computed on the way cached. -/
def rootHash (P : TreeParams T Hash) (t : SparseMerkleTree T Hash) :
    Outcome (Hash × SparseMerkleTree T Hash) := do
  let (rootHash, intermediateHashes) ← getHash P t (t.treeDepth + 1) 0
  return (rootHash, { t with
    cache := intermediateHashes.foldl (fun cache (idx, hash) => cache.insert idx hash) t.cache })

end SparseMerkleTree

end ZkSync
