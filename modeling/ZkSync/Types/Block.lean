import ZkSync.Crypto.ParallelSmt
import ZkSync.Types.AccountLeaf
import ZkSync.Types.Tx

/-!
# Blocks

`zksync_types::block`: executed operations, and the block they are sealed into.
A block takes the smallest of the supported sizes that its operations fit;
there is no result if none fits, the source panics.

The times at which operations were executed are not modelled: nothing reads
them.
-/

namespace ZkSync

/-- A priority operation with the place it has in the contract's queue. -/
structure PriorityOp where
  serialId : UInt64
  data : ZkSyncPriorityOp
  deadlineBlock : UInt64
  ethHash : List UInt8
  ethBlock : UInt64
  deriving DecidableEq

structure ExecutedTx where
  signedTx : SignedZkSyncTx
  success : Bool
  op : Option ZkSyncOp
  failReason : Option String
  blockIndex : Option UInt32
  batchId : Option Int
  deriving DecidableEq

structure ExecutedPriorityOp where
  priorityOp : PriorityOp
  op : ZkSyncOp
  blockIndex : UInt32
  deriving DecidableEq

inductive ExecutedOperations where
  | Tx (tx : ExecutedTx)
  | PriorityOp (op : ExecutedPriorityOp)
  deriving DecidableEq

/-- The operation that was executed; a failed transaction has none. -/
def ExecutedOperations.getExecutedOp : ExecutedOperations → Option ZkSyncOp
  | .Tx execTx => execTx.op
  | .PriorityOp execOp => some execOp.op

/-- The chunks of all executed operations of a list. -/
def chunksOf (operations : List ExecutedOperations) : Nat :=
  ((operations.filterMap ExecutedOperations.getExecutedOp).map ZkSyncOp.chunks).sum

@[simp] theorem chunksOf_nil : chunksOf [] = 0 := rfl

@[simp] theorem chunksOf_append (ops ops' : List ExecutedOperations) :
    chunksOf (ops ++ ops') = chunksOf ops + chunksOf ops' := by
  unfold chunksOf
  rw [List.filterMap_append, List.map_append, List.sum_append]

/-- Operations that were not executed take no chunks. -/
theorem chunksOf_eq_zero {ops : List ExecutedOperations}
    (h : ∀ op ∈ ops, op.getExecutedOp = none) : chunksOf ops = 0 := by
  unfold chunksOf
  rw [List.filterMap_eq_nil_iff.mpr h]
  rfl

theorem chunksOf_singleton {executed : ExecutedOperations} {op : ZkSyncOp}
    (h : executed.getExecutedOp = some op) : chunksOf [executed] = op.chunks := by
  unfold chunksOf
  rw [List.filterMap_cons, h]
  rfl

/-- `smallest_block_size_for_chunks`. -/
def smallestBlockSizeForChunks (chunksUsed : Nat) (availableBlockSizes : List Nat) : Outcome Nat :=
  match availableBlockSizes.find? fun blockSize => chunksUsed ≤ blockSize with
  | some blockSize => .ok blockSize
  | none => .error (.panic ("Provided chunks amount (" ++ toString chunksUsed ++
      ") cannot fit in one block, maximum available size is " ++
      toString (availableBlockSizes.getLast?.getD 0)))

theorem smallestBlockSizeForChunks_eq_ok {chunksUsed size : Nat} {sizes : List Nat}
    (h : smallestBlockSizeForChunks chunksUsed sizes = .ok size) :
    size ∈ sizes ∧ chunksUsed ≤ size := by
  unfold smallestBlockSizeForChunks at h
  split at h
  next blockSize hfind =>
    obtain rfl : blockSize = size := Except.ok.inj h
    exact ⟨List.mem_of_find?_eq_some hfind, by simpa using List.find?_some hfind⟩
  next => cases h

/-- A size that is large enough is enough to find one. -/
theorem smallestBlockSizeForChunks_ok {chunksUsed max : Nat} {sizes : List Nat} (hmem : max ∈ sizes)
    (hle : chunksUsed ≤ max) : ∃ size, smallestBlockSizeForChunks chunksUsed sizes = .ok size := by
  unfold smallestBlockSizeForChunks
  split
  next blockSize _ => exact ⟨blockSize, rfl⟩
  next hfind =>
    have := List.find?_eq_none.mp hfind max hmem
    simp [hle] at this

structure Block where
  blockNumber : BlockNumber
  newRootHash : Fr
  feeAccount : AccountId
  blockTransactions : List ExecutedOperations
  /-- The first unprocessed priority operation before and after this block. -/
  processedPriorityOps : UInt64 × UInt64
  blockChunksSize : Nat
  commitGasLimit : Nat
  verifyGasLimit : Nat
  deriving DecidableEq

/-- `Block::chunks_used`. -/
def Block.chunksUsed (b : Block) : Nat := chunksOf b.blockTransactions

/-- `Block::new_from_available_block_sizes`. -/
def Block.newFromAvailableBlockSizes (blockNumber : BlockNumber) (newRootHash : Fr)
    (feeAccount : AccountId) (blockTransactions : List ExecutedOperations)
    (processedPriorityOps : UInt64 × UInt64) (availableBlockChunksSizes : List Nat)
    (commitGasLimit verifyGasLimit : Nat) : Outcome Block := do
  let block : Block :=
    { blockNumber := blockNumber
      newRootHash := newRootHash
      feeAccount := feeAccount
      blockTransactions := blockTransactions
      processedPriorityOps := processedPriorityOps
      blockChunksSize := 0
      commitGasLimit := commitGasLimit
      verifyGasLimit := verifyGasLimit }
  let size ← smallestBlockSizeForChunks block.chunksUsed availableBlockChunksSizes
  return { block with blockChunksSize := size }

end ZkSync
