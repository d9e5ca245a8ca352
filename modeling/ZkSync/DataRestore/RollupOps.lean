import Mathlib.Data.UInt
import ZkSync.Types.BlockData

/-!
# Reading a block's operations back

`data_restore::rollup_ops`: the restorer splits the public data of a block into
operations, by the opcode at the front of each, and parses them. The parser has no
list of the operations to go by: that it stays in step with the writer is
`getRollupOpsFromData_publicData`, by induction over the operations, with what was
parsed already in front of the pointer.
-/

namespace ZkSync

open Bytes (slice)

theorem publicDataLength_pos {opType : UInt8} {size : Nat}
    (h : ZkSyncOp.publicDataLength opType = .ok size) : 0 < size := by
  unfold ZkSyncOp.publicDataLength at h
  obtain ⟨chunks, hchunks, rfl⟩ := Outcome.map_eq_ok.mp h
  have hpos : 0 < chunks := by
    repeat' split at hchunks
    all_goals cases hchunks
    all_goals exact Nat.succ_pos _
  exact Nat.mul_pos hpos (by decide)

/-- The loop of `get_rollup_ops_from_data`. -/
def rollupOpsLoop (data : Bytes) (currentPointer : Nat) : Outcome (List ZkSyncOp) :=
  if h : currentPointer < data.length then
    let opType := data[currentPointer]
    match hsize : ZkSyncOp.publicDataLength opType with
    | .error e => .error e
    | .ok pubDataSize => do
      let post := currentPointer + pubDataSize
      Outcome.assert (post ≤ data.length) "range end index out of range for slice"
      let op ← ZkSyncOp.fromPublicData (slice data currentPointer pubDataSize)
      let ops ← rollupOpsLoop data post
      return op :: ops
  else .ok []
  termination_by data.length - currentPointer
  decreasing_by
    have := publicDataLength_pos hsize
    omega

def getRollupOpsFromData (data : Bytes) : Outcome (List ZkSyncOp) := rollupOpsLoop data 0

theorem publicDataOf_visible (ops : List ZkSyncOp) :
    publicDataOf (ops.map ZkSyncOp.visible) = publicDataOf ops := by
  induction ops with
  | nil => rfl
  | cons op ops ih => rw [List.map_cons, publicDataOf, ih, ZkSyncOp.publicData_visible, publicDataOf]

/-! ## The parser stays in step -/

/-- One round of the loop: the operation at the pointer is read and stepped over. -/
theorem rollupOpsLoop_step {op : ZkSyncOp} (hop : op.InRange) {data : Bytes}
    (hdata : op.publicData = .ok data) (front rest : Bytes) :
    rollupOpsLoop (front ++ (data ++ rest)) front.length = (do
      let ops ← rollupOpsLoop (front ++ (data ++ rest)) (front.length + data.length)
      return op.visible :: ops) := by
  obtain ⟨data', hdata', hlen, hhead⟩ := ZkSyncOp.publicData_shape hop
  obtain rfl : data' = data := Except.ok.inj (hdata'.symm.trans hdata)
  have hpos : 0 < data'.length := List.length_pos_iff.mpr fun h => by
    rw [h] at hhead
    cases hhead
  have hin : front.length < (front ++ (data' ++ rest)).length := by
    rw [List.length_append, List.length_append]
    omega
  have hopType : (front ++ (data' ++ rest))[front.length] = op.opCode := by
    rw [List.getElem_append_right (Nat.le_refl _)]
    simp only [Nat.sub_self]
    rw [List.getElem_append_left hpos, ← List.head_eq_getElem_zero (List.length_pos_iff.mp hpos)]
    exact Option.some.inj ((List.head?_eq_some_head _).symm.trans hhead)
  have hslice : slice (front ++ (data' ++ rest)) front.length (op.chunks * CHUNK_BYTES) = data' := by
    rw [Bytes.slice_append_skip (Nat.le_refl _), Nat.sub_self, Bytes.slice_append_here hlen]
  have hpost : front.length + op.chunks * CHUNK_BYTES ≤ (front ++ (data' ++ rest)).length := by
    rw [List.length_append, List.length_append]
    omega
  rw [rollupOpsLoop, dif_pos hin]
  dsimp only
  rw [hopType]
  split
  next e hsize =>
    rw [ZkSyncOp.publicDataLength_opCode] at hsize
    cases hsize
  next size hsize =>
    rw [ZkSyncOp.publicDataLength_opCode] at hsize
    obtain rfl := Except.ok.inj hsize
    rw [Outcome.assert_ok _ hpost, hslice, ZkSyncOp.fromPublicData_publicData hop hdata, hlen]
    rfl

theorem rollupOpsLoop_end (data : Bytes) : rollupOpsLoop data data.length = .ok [] := by
  rw [rollupOpsLoop, dif_neg (Nat.lt_irrefl _)]

/-- Everything that is written from the pointer on is read, and nothing else. -/
theorem rollupOpsLoop_publicData {ops : List ZkSyncOp} (h : ∀ op ∈ ops, op.InRange) {data : Bytes}
    (hdata : publicDataOf ops = .ok data) (front : Bytes) :
    rollupOpsLoop (front ++ data) front.length = .ok (ops.map ZkSyncOp.visible) := by
  induction ops generalizing data front with
  | nil =>
    cases hdata
    rw [List.append_nil]
    exact rollupOpsLoop_end front
  | cons op ops ih =>
    obtain ⟨first, hfirst, hdata⟩ := Outcome.bind_eq_ok.mp hdata
    obtain ⟨rest, hrest, hdata⟩ := Outcome.bind_eq_ok.mp hdata
    cases hdata
    have hstep := rollupOpsLoop_step (h op List.mem_cons_self) hfirst front rest
    have hnext := ih (fun op' h' => h op' (List.mem_cons_of_mem op h')) hrest (front ++ first)
    rw [List.append_assoc, List.length_append] at hnext
    rw [hstep, hnext]
    rfl

theorem getRollupOpsFromData_publicData {ops : List ZkSyncOp} (h : ∀ op ∈ ops, op.InRange)
    {data : Bytes} (hdata : publicDataOf ops = .ok data) :
    getRollupOpsFromData data = .ok (ops.map ZkSyncOp.visible) :=
  rollupOpsLoop_publicData h hdata []

/-! ## What the data carries -/

/-- The fields of an operation that its public data carries. -/
inductive CarriedFields where
  | deposit (accountId : AccountId) (token : TokenId) (amount : Nat) (toAddress : Address)
  | transferToNew (fromId : AccountId) (token : TokenId) (amount : Nat) (toAddress : Address)
      (toId : AccountId) (fee : Nat)
  | withdraw (accountId : AccountId) (token : TokenId) (amount fee : Nat) (toAddress : Address)
  | close (accountId : AccountId)
  | transfer (fromId : AccountId) (token : TokenId) (toId : AccountId) (amount fee : Nat)
  | fullExit (accountId : AccountId) (ethAddress : Address) (token : TokenId) (amount : Nat)
  | changePubKey (accountId : AccountId) (newPkHash : PubKeyHash) (account : Address)
      (nonce : Nonce) (feeToken : TokenId) (fee : Nat)
  | forcedExit (initiatorAccountId targetAccountId : AccountId) (token : TokenId)
      (amount fee : Nat) (target : Address)
  | noop
  deriving DecidableEq

def ZkSyncOp.carried : ZkSyncOp → CarriedFields
  | .Deposit op =>
    .deposit op.accountId op.priorityOp.token op.priorityOp.amount op.priorityOp.toAddress
  | .TransferToNew op =>
    .transferToNew op.fromId op.tx.token op.tx.amount op.tx.toAddress op.toId op.tx.fee
  | .Withdraw op => .withdraw op.accountId op.tx.token op.tx.amount op.tx.fee op.tx.toAddress
  | .Close op => .close op.accountId
  | .Transfer op => .transfer op.fromId op.tx.token op.toId op.tx.amount op.tx.fee
  | .FullExit op =>
    .fullExit op.priorityOp.accountId op.priorityOp.ethAddress op.priorityOp.token
      (op.withdrawAmount.getD 0)
  | .ChangePubKeyOffchain op =>
    .changePubKey op.accountId op.tx.newPkHash op.tx.account op.tx.nonce op.tx.feeToken op.tx.fee
  | .ForcedExit op =>
    .forcedExit op.tx.initiatorAccountId op.targetAccountId op.tx.token (op.withdrawAmount.getD 0)
      op.tx.fee op.tx.target
  | .Noop => .noop

theorem carried_visible (op : ZkSyncOp) : op.visible.carried = op.carried := by
  cases op <;> rfl

/-- The codec: operations in range, with any padding behind them, are parsed into
operations that carry the same fields, and these are written to the same bytes. -/
theorem publicData_roundTrip {ops : List ZkSyncOp} (h : ∀ op ∈ ops, op.InRange) (padding : Nat) :
    (∀ op ∈ ops, ∃ data, op.publicData = .ok data ∧ data.length = op.chunks * CHUNK_BYTES) ∧
      ∃ data parsed, publicDataOf ops = .ok data ∧
        getRollupOpsFromData (data ++ noopChunks padding) = .ok parsed ∧
        parsed.map ZkSyncOp.carried =
          ops.map ZkSyncOp.carried ++ List.replicate padding CarriedFields.noop ∧
        publicDataOf parsed = .ok (data ++ noopChunks padding) := by
  refine ⟨fun op hop => ?_, ?_⟩
  · obtain ⟨data, hdata, hlen, -⟩ := ZkSyncOp.publicData_shape (h op hop)
    exact ⟨data, hdata, hlen⟩
  · obtain ⟨data, hdata⟩ := publicDataOf_inRange h
    have hpadded := publicDataOf_append hdata (publicDataOf_replicate_noop padding)
    have hall : ∀ op ∈ ops ++ List.replicate padding ZkSyncOp.Noop, op.InRange := by
      intro op hop
      rcases List.mem_append.mp hop with hop | hop
      · exact h op hop
      · rw [List.eq_of_mem_replicate hop]
        trivial
    refine ⟨data, _, hdata, getRollupOpsFromData_publicData hall hpadded, ?_, ?_⟩
    · rw [List.map_map, List.map_append, List.map_replicate]
      congr 1
      exact List.map_congr_left fun op _ => carried_visible op
    · rw [publicDataOf_visible]
      exact hpadded

set_option maxRecDepth 2000 in
theorem packable_thousand : IsTokenAmountPackable 1000 :=
  ⟨[0, 0, 0, 0x7d, 0], rfl, by decide +kernel⟩

/-- A block of a deposit, a transfer and a key change, padded with three chunks. -/
theorem publicData_roundTrip_block :
    ∃ data parsed, getRollupOpsFromData (data ++ noopChunks 3) = .ok parsed ∧
      parsed.map ZkSyncOp.carried =
        [.deposit 1 0 (2 ^ 100) 7, .transfer 1 300 2 1000 5, .changePubKey 2 9 7 (2 ^ 31) 0 0,
          .noop, .noop, .noop] := by
  have hlarge : 2 ^ 100 < u128Bound := Nat.pow_lt_pow_right (by decide) (by decide)
  obtain ⟨-, data, parsed, -, hparsed, hcarried, -⟩ := publicData_roundTrip
    (show ∀ op ∈ [ZkSyncOp.Deposit ⟨⟨3, 0, 2 ^ 100, 7⟩, 1⟩,
        .Transfer ⟨⟨1, 7, 8, 300, 1000, 5, 4, ⟨1, 1⟩⟩, 1, 2⟩,
        .ChangePubKeyOffchain ⟨⟨2, 7, 9, 0, 0, 2 ^ 31, ⟨1, 1⟩, none⟩, 2⟩], op.InRange by
      simp only [List.forall_mem_cons, List.not_mem_nil, false_implies, implies_true, and_true]
      exact ⟨hlarge, ⟨packable_thousand, packable_five⟩, packable_zero⟩) 3
  exact ⟨data, parsed, hparsed, hcarried⟩

end ZkSync
