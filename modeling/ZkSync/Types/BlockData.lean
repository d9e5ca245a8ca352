import ZkSync.Types.Block
import ZkSync.Types.PublicData

/-!
# What a block sends to the contract

`zksync_types::block`: the bytes the contract gets for a sealed block. At the commit
these are the public data of the executed operations, padded with noops to the size
of the block, and the witnesses of the key changes; at the verification, a record
for each withdrawal.
-/

namespace ZkSync

/-- The public data of operations in a row. -/
def publicDataOf : List ZkSyncOp → Outcome Bytes
  | [] => .ok []
  | op :: ops => do
    let data ← op.publicData
    let rest ← publicDataOf ops
    return data ++ rest

/-- `count` chunks of padding. -/
def noopChunks (count : Nat) : Bytes := List.replicate (count * CHUNK_BYTES) 0

theorem publicDataOf_append {ops ops' : List ZkSyncOp} {data data' : Bytes}
    (h : publicDataOf ops = .ok data) (h' : publicDataOf ops' = .ok data') :
    publicDataOf (ops ++ ops') = .ok (data ++ data') := by
  induction ops generalizing data with
  | nil =>
    cases h
    exact h'
  | cons op ops ih =>
    obtain ⟨first, hfirst, h⟩ := Outcome.bind_eq_ok.mp h
    obtain ⟨rest, hrest, h⟩ := Outcome.bind_eq_ok.mp h
    cases h
    rw [List.cons_append, publicDataOf, hfirst, ih hrest, List.append_assoc]
    rfl

/-- The data of an operation in the middle stands between the data of the others. -/
theorem publicDataOf_of_append {ops ops' : List ZkSyncOp} {op : ZkSyncOp} {bytes : Bytes}
    (h : publicDataOf (ops ++ op :: ops') = .ok bytes) :
    ∃ front, publicDataOf ops = .ok front ∧ ∃ data, op.publicData = .ok data ∧
      ∃ back, bytes = front ++ (data ++ back) := by
  induction ops generalizing bytes with
  | nil =>
    obtain ⟨data, hdata, h⟩ := Outcome.bind_eq_ok.mp h
    obtain ⟨back, -, h⟩ := Outcome.bind_eq_ok.mp h
    cases h
    exact ⟨[], rfl, data, hdata, back, rfl⟩
  | cons op' ops ih =>
    obtain ⟨first, hfirst, h⟩ := Outcome.bind_eq_ok.mp h
    obtain ⟨rest, hrest, h⟩ := Outcome.bind_eq_ok.mp h
    obtain ⟨front, hfront, data, hdata, back, rfl⟩ := ih hrest
    cases h
    refine ⟨first ++ front, ?_, data, hdata, back, (List.append_assoc _ _ _).symm⟩
    rw [publicDataOf, hfirst, hfront]
    rfl

theorem publicDataOf_replicate_noop (count : Nat) :
    publicDataOf (List.replicate count .Noop) = .ok (noopChunks count) := by
  induction count with
  | zero => rfl
  | succ count ih =>
    have hsize : (count + 1) * CHUNK_BYTES = CHUNK_BYTES + count * CHUNK_BYTES := by
      rw [Nat.succ_mul, Nat.add_comm]
    rw [List.replicate_succ, publicDataOf, ih]
    show Except.ok (NoopOp.getPublicData ++ noopChunks count) = Except.ok (noopChunks (count + 1))
    rw [noopChunks, noopChunks, hsize, ← List.replicate_append_replicate]
    rfl

theorem publicDataOf_inRange {ops : List ZkSyncOp} (h : ∀ op ∈ ops, op.InRange) :
    ∃ data, publicDataOf ops = .ok data := by
  induction ops with
  | nil => exact ⟨[], rfl⟩
  | cons op ops ih =>
    obtain ⟨first, hfirst, -⟩ := ZkSyncOp.publicData_shape (h op List.mem_cons_self)
    obtain ⟨rest, hrest⟩ := ih fun op' h' => h op' (List.mem_cons_of_mem op h')
    refine ⟨first ++ rest, ?_⟩
    rw [publicDataOf, hfirst, hrest]
    rfl

/-- The padding is a row of noops. -/
theorem publicDataOf_padded {ops : List ZkSyncOp} {data : Bytes} (h : publicDataOf ops = .ok data)
    (count : Nat) :
    publicDataOf (ops ++ List.replicate count .Noop) = .ok (data ++ noopChunks count) :=
  publicDataOf_append h (publicDataOf_replicate_noop count)

def chunksOfOps (ops : List ZkSyncOp) : Nat := (ops.map ZkSyncOp.chunks).sum

theorem length_publicDataOf {ops : List ZkSyncOp} {data : Bytes} (h : publicDataOf ops = .ok data) :
    data.length = chunksOfOps ops * CHUNK_BYTES := by
  induction ops generalizing data with
  | nil =>
    cases h
    rfl
  | cons op ops ih =>
    obtain ⟨first, hfirst, h⟩ := Outcome.bind_eq_ok.mp h
    obtain ⟨rest, hrest, h⟩ := Outcome.bind_eq_ok.mp h
    cases h
    rw [List.length_append, ih hrest, ZkSyncOp.length_publicData hfirst, chunksOfOps, chunksOfOps,
      List.map_cons, List.sum_cons, Nat.add_mul]

namespace Block

def executedOps (block : Block) : List ZkSyncOp :=
  block.blockTransactions.filterMap ExecutedOperations.getExecutedOp

/-- `get_eth_public_data`. -/
def getEthPublicData (block : Block) : Outcome Bytes := do
  let executedTxPubData ← publicDataOf block.executedOps
  return resize executedTxPubData (block.blockChunksSize * CHUNK_BIT_WIDTH / 8)

/-- `get_eth_witness_data`: the bytes, and how many each operation has. -/
def getEthWitnessData (block : Block) : Bytes × List Nat :=
  let witnesses := block.executedOps.filterMap ZkSyncOp.ethWitness
  (witnesses.flatten, witnesses.map List.length)

def withdrawalsDataOf : List ZkSyncOp → Outcome Bytes
  | [] => .ok []
  | op :: ops => do
    let first ← op.withdrawalData.getD (.ok [])
    let rest ← withdrawalsDataOf ops
    return first ++ rest

/-- `get_withdrawals_data`. -/
def getWithdrawalsData (block : Block) : Outcome Bytes := withdrawalsDataOf block.executedOps

/-- The public data of a block that fits its size: what was executed, and noops. -/
theorem getEthPublicData_eq {block : Block} {publicData : Bytes}
    (hsize : block.chunksUsed ≤ block.blockChunksSize)
    (h : block.getEthPublicData = .ok publicData) :
    publicDataOf (block.executedOps ++
      List.replicate (block.blockChunksSize - block.chunksUsed) .Noop) = .ok publicData ∧
        publicData.length = block.blockChunksSize * CHUNK_BYTES := by
  obtain ⟨data, hdata, h⟩ := Outcome.bind_eq_ok.mp h
  have hlen : data.length = block.chunksUsed * CHUNK_BYTES := length_publicDataOf hdata
  have hbytes : block.blockChunksSize * CHUNK_BIT_WIDTH / 8 = block.blockChunksSize * CHUNK_BYTES :=
    Nat.mul_div_assoc _ (by decide)
  have hle := Nat.mul_le_mul_right CHUNK_BYTES hsize
  cases h
  rw [hbytes]
  refine ⟨?_, length_resize _ _⟩
  rw [publicDataOf_padded hdata, resize_eq (hlen ▸ hle), hlen, ← Nat.sub_mul, noopChunks]

end Block

end ZkSync
