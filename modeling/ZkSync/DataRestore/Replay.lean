import ZkSync.Core.Recovery
import ZkSync.Core.SealedBlocks
import ZkSync.DataRestore.TreeState

/-!
# The restorer follows the server

The restorer executes the operations of a block on the tree it has restored so far.
Between it and the server `Replayed` holds at every call of the state keeper: what
was executed since the last block, executed again from its public data, gives a
state that is alike, the same updates, fees and counters. A transaction that fails
is not in the data and leaves no trace; a batch that fails may leave one
(`KeeperCall.LeavesNoTrace`), and then the restorer gives a new account another id
(`restored_elsewhere`).
-/

namespace ZkSync

/-! ## One operation -/

namespace OpsBlockUpdate

variable {env : Env} {u : OpsBlockUpdate} {s₁ : ZkSyncState} {r : OpSuccess}

/-- An operation that can be applied is collected like the keeper collected it. -/
theorem updateFromApplied_ok {text : String} {applied : Outcome Applied} {fee : Option CollectedFee}
    {updates : AccountUpdates} (happly : applied = .ok ((fee, updates), s₁)) (tx : ZkSyncTx)
    (op : ZkSyncOp) :
    u.updateFromApplied env text applied tx op =
      (u.withState s₁).updateFromTx env tx ⟨fee, updates, op⟩ := by
  rw [happly]
  rfl

/-- An operation that was executed is executed again, up to what its public data
leaves out. -/
def ExecutedAgain (env : Env) (u : OpsBlockUpdate) (r : OpSuccess) (s₁ : ZkSyncState) : Prop :=
  ∃ tx op, op.chunks = r.executedOp.chunks ∧ u.executeOperation env r.executedOp.visible =
    (u.withState s₁).updateFromTx env tx { r with executedOp := op }

/-- A transfer is replayed on the account that the id leads to. -/
theorem executedAgain_transfer {op : TransferOp} {a b : Account} {fee : Option CollectedFee}
    {updates : AccountUpdates} (ha : u.tree.state.getAccount op.fromId = some a)
    (hb : u.tree.state.getAccount op.toId = some b) (hnonce : op.tx.nonce = a.nonce)
    (happly : Transfer.applyOp env u.tree.state (.Transfer op) = .ok ((fee, updates), s₁)) :
    ExecutedAgain env u ⟨fee, updates, .Transfer op⟩ s₁ := by
  let op' : TransferOp := { op with tx := { op.visible.tx with
    fromAddress := a.address, toAddress := b.address, nonce := a.nonce } }
  have happly' : Transfer.applyOp env u.tree.state (.Transfer op') = .ok ((fee, updates), s₁) := by
    rw [← happly]
    dsimp only [op']
    rw [← hnonce]
    rfl
  refine ⟨.Transfer op'.tx, .Transfer op', rfl, ?_⟩
  show u.executeOperation env (.Transfer op.visible) = _
  unfold executeOperation
  dsimp only [TransferOp.visible]
  rw [ha, hb]
  exact updateFromApplied_ok happly' _ _

/-- The receiver is created again, at the id in the data. -/
theorem executedAgain_transferToNew {op : TransferToNewOp} {a : Account} {fee : Option CollectedFee}
    {updates : AccountUpdates} (ha : u.tree.state.getAccount op.fromId = some a)
    (hnonce : op.tx.nonce = a.nonce)
    (happly : Transfer.applyOp env u.tree.state (.TransferToNew op) = .ok ((fee, updates), s₁)) :
    ExecutedAgain env u ⟨fee, updates, .TransferToNew op⟩ s₁ := by
  let op' : TransferToNewOp := { op with tx := { op.visible.tx with
    fromAddress := a.address, nonce := a.nonce } }
  have happly' : Transfer.applyOp env u.tree.state (.TransferToNew op') =
      .ok ((fee, updates), s₁) := by
    rw [← happly]
    dsimp only [op']
    rw [← hnonce]
    rfl
  refine ⟨.Transfer op'.tx, .TransferToNew op', rfl, ?_⟩
  show u.executeOperation env (.TransferToNew op.visible) = _
  unfold executeOperation
  dsimp only [TransferToNewOp.visible]
  rw [ha]
  exact updateFromApplied_ok happly' _ _

/-- A withdrawal is replayed with the amount in the data. -/
theorem executedAgain_withdraw {op : WithdrawOp} {a : Account} {fee : Option CollectedFee}
    {updates : AccountUpdates} (ha : u.tree.state.getAccount op.accountId = some a)
    (hnonce : op.tx.nonce = a.nonce)
    (happly : Withdraw.applyOp env u.tree.state op = .ok ((fee, updates), s₁)) :
    ExecutedAgain env u ⟨fee, updates, .Withdraw op⟩ s₁ := by
  let op' : WithdrawOp := { op with tx := { op.visible.tx with
    fromAddress := a.address, nonce := a.nonce } }
  have happly' : Withdraw.applyOp env u.tree.state op' = .ok ((fee, updates), s₁) := by
    rw [← happly]
    dsimp only [op']
    rw [← hnonce]
    rfl
  refine ⟨.Withdraw op'.tx, .Withdraw op', rfl, ?_⟩
  show u.executeOperation env (.Withdraw op.visible) = _
  unfold executeOperation
  dsimp only [WithdrawOp.visible]
  rw [ha]
  exact updateFromApplied_ok happly' _ _

theorem executedAgain_changePubKey {op : ChangePubKeyOp} {a : Account} {fee : Option CollectedFee}
    {updates : AccountUpdates} (ha : u.tree.state.getAccount op.accountId = some a)
    (hnonce : op.tx.nonce = a.nonce)
    (happly : ChangePubKey.applyOp env u.tree.state op = .ok ((fee, updates), s₁)) :
    ExecutedAgain env u ⟨fee, updates, .ChangePubKeyOffchain op⟩ s₁ := by
  let op' : ChangePubKeyOp := { op with tx := { op.visible.tx with
    account := a.address, nonce := a.nonce } }
  have happly' : ChangePubKey.applyOp env u.tree.state op' = .ok ((fee, updates), s₁) := by
    rw [← happly]
    dsimp only [op']
    rw [← hnonce]
    rfl
  refine ⟨.ChangePubKey op'.tx, .ChangePubKeyOffchain op', rfl, ?_⟩
  show u.executeOperation env (.ChangePubKeyOffchain op.visible) = _
  unfold executeOperation
  dsimp only [ChangePubKeyOp.visible]
  rw [ha]
  exact updateFromApplied_ok happly' _ _

/-- A forced exit is replayed for the target in the data. -/
theorem executedAgain_forcedExit {op : ForcedExitOp} {a : Account} {fee : Option CollectedFee}
    {updates : AccountUpdates} (ha : u.tree.state.getAccount op.tx.initiatorAccountId = some a)
    (hnonce : op.tx.nonce = a.nonce)
    (happly : ForcedExit.applyOp env u.tree.state op = .ok ((fee, updates), s₁)) :
    ExecutedAgain env u ⟨fee, updates, .ForcedExit op⟩ s₁ := by
  let op' : ForcedExitOp := { op.visible with tx := { op.visible.tx with nonce := a.nonce } }
  have happly' : ForcedExit.applyOp env u.tree.state op' = .ok ((fee, updates), s₁) := by
    rw [← happly]
    dsimp only [op']
    rw [← hnonce]
    rfl
  refine ⟨.ForcedExit op'.tx, .ForcedExit op', rfl, ?_⟩
  show u.executeOperation env (.ForcedExit op.visible) = _
  unfold executeOperation
  dsimp only [ForcedExitOp.visible]
  rw [ha]
  exact updateFromApplied_ok happly' _ _

/-- Every transaction is executed again. -/
theorem executedAgain {tx : ZkSyncTx} (hexec : u.tree.state.executeTx env tx = .ok (r, s₁)) :
    ExecutedAgain env u r s₁ := by
  have heff := executeTx_effect hexec
  cases tx with
  | Transfer tx =>
    obtain ⟨op, -, h⟩ := Outcome.bind_eq_ok.mp hexec
    obtain ⟨⟨⟨fee, updates⟩, s'⟩, happly, h⟩ := Outcome.bind_eq_ok.mp h
    cases h
    cases op with
    | Transfer op =>
      dsimp only [TransferOutcome.intoFranklinOp] at heff
      cases heff with
      | transfer sender notZero target targetAccount =>
        exact executedAgain_transfer sender.account targetAccount sender.nonce_eq happly
      | transferToSelf sender notZero target =>
        exact executedAgain_transfer sender.account sender.account sender.nonce_eq happly
    | TransferToNew op =>
      dsimp only [TransferOutcome.intoFranklinOp] at heff
      cases heff with
      | transferToNew sender => exact executedAgain_transferToNew sender.account sender.nonce_eq happly
  | Withdraw tx =>
    obtain ⟨op, -, h⟩ := Outcome.bind_eq_ok.mp hexec
    obtain ⟨⟨⟨fee, updates⟩, s'⟩, happly, h⟩ := Outcome.bind_eq_ok.mp h
    cases h
    cases heff with
    | withdraw sender => exact executedAgain_withdraw sender.account sender.nonce_eq happly
  | Close tx => cases hexec
  | ChangePubKey tx =>
    obtain ⟨op, -, h⟩ := Outcome.bind_eq_ok.mp hexec
    obtain ⟨⟨⟨fee, updates⟩, s'⟩, happly, h⟩ := Outcome.bind_eq_ok.mp h
    cases h
    cases heff with
    | changePubKey index account ethSigned signed id_le nonce_eq =>
      exact executedAgain_changePubKey account nonce_eq happly
  | ForcedExit tx =>
    obtain ⟨op, -, h⟩ := Outcome.bind_eq_ok.mp hexec
    obtain ⟨⟨⟨fee, updates⟩, s'⟩, happly, h⟩ := Outcome.bind_eq_ok.mp h
    cases h
    cases heff with
    | forcedExit account signed token_le target targetAccount locked amount id_le nonce_eq =>
      exact executedAgain_forcedExit account nonce_eq happly

/-- A priority operation is executed again as well. The caller of a deposit is not
known, and does not matter. -/
def PriorityExecutedAgain (env : Env) (u : OpsBlockUpdate) (r : OpSuccess) (s₁ : ZkSyncState) : Prop :=
  ∃ priorityOp op, op.chunks = r.executedOp.chunks ∧ u.executeOperation env r.executedOp.visible =
    (u.withState s₁).updateFromPriorityOperation env priorityOp { r with executedOp := op }

/-- Nothing depends on the sender of a deposit. -/
theorem createOp_fromAddress {s : ZkSyncState} {op : Deposit} {depositOp : DepositOp}
    (h : Deposit.createOp s op = .ok depositOp) :
    Deposit.createOp s { op with fromAddress := 0 } = .ok depositOp.visible := by
  obtain ⟨_, htoken, h⟩ := Outcome.bind_eq_ok.mp h
  obtain ⟨found, hfound, h⟩ := Outcome.bind_eq_ok.mp h
  cases h
  unfold Deposit.createOp
  dsimp only
  rw [Outcome.assert_ok _ (Outcome.assert_eq_ok.mp htoken), Outcome.ok_bind, hfound]
  rfl

/-- Only an error is turned into a panic. -/
theorem executePriorityOp_eq_ok {s : ZkSyncState} {op : ZkSyncPriorityOp}
    {success : OpSuccess × ZkSyncState} : s.executePriorityOp op = .ok success ↔
      (match op with
        | .Deposit op => Deposit.applyTx s op
        | .FullExit op => FullExit.applyTx s op) = .ok success := by
  unfold ZkSyncState.executePriorityOp
  cases op with
  | Deposit op =>
    dsimp only
    cases Deposit.applyTx s op with
    | ok a => exact Iff.rfl
    | error e => cases e <;> exact ⟨fun h => (by cases h), fun h => (by cases h)⟩
  | FullExit op =>
    dsimp only
    cases FullExit.applyTx s op with
    | ok a => exact Iff.rfl
    | error e => cases e <;> exact ⟨fun h => (by cases h), fun h => (by cases h)⟩

/-- A priority operation does the same once more. -/
theorem priorityExecutedAgain {op : ZkSyncPriorityOp}
    (hexec : u.tree.state.executePriorityOp op = .ok (r, s₁)) : PriorityExecutedAgain env u r s₁ := by
  have hresult := executePriorityOp_eq_ok.mp hexec
  cases op with
  | Deposit op =>
    obtain ⟨depositOp, hcreate, h⟩ := Outcome.bind_eq_ok.mp hresult
    obtain ⟨⟨⟨fee, updates⟩, s'⟩, happly, h⟩ := Outcome.bind_eq_ok.mp h
    cases h
    obtain rfl : depositOp.priorityOp = op := by
      obtain ⟨-, i, rfl, -⟩ := Deposit.createOp_eq_ok hcreate
      rfl
    have happly' : Deposit.applyOp u.tree.state depositOp.visible = .ok ((fee, updates), s₁) := happly
    have hagain : u.tree.state.executePriorityOp (.Deposit depositOp.visible.priorityOp) =
        .ok (⟨fee, updates, .Deposit depositOp.visible⟩, s₁) := by
      refine executePriorityOp_eq_ok.mpr ?_
      dsimp only [DepositOp.visible]
      unfold Deposit.applyTx
      rw [createOp_fromAddress hcreate, Outcome.ok_bind, happly']
      rfl
    refine ⟨.Deposit depositOp.visible.priorityOp, .Deposit depositOp.visible, rfl, ?_⟩
    show u.executePriorityOp env (.Deposit depositOp.visible.priorityOp) = _
    unfold executePriorityOp
    rw [hagain]
    rfl
  | FullExit op =>
    obtain ⟨fullExitOp, hcreate, h⟩ := Outcome.bind_eq_ok.mp hresult
    obtain ⟨⟨⟨fee, updates⟩, s'⟩, happly, h⟩ := Outcome.bind_eq_ok.mp h
    cases h
    obtain ⟨_, -, hcreate⟩ := Outcome.bind_eq_ok.mp hcreate
    cases hcreate
    refine ⟨.FullExit op, _, rfl, ?_⟩
    show u.executePriorityOp env (.FullExit op) = _
    unfold executePriorityOp
    rw [hexec]
    rfl

end OpsBlockUpdate

/-! ## Packable operations -/

/-- What `check_correctness` asks of the amounts that are packed. -/
def ZkSyncTx.Packable : ZkSyncTx → Prop
  | .Transfer tx => IsTokenAmountPackable tx.amount ∧ IsFeeAmountPackable tx.fee
  | .Withdraw tx => IsFeeAmountPackable tx.fee
  | .Close _ => True
  | .ChangePubKey tx => IsFeeAmountPackable tx.fee
  | .ForcedExit tx => IsFeeAmountPackable tx.fee

/-- The amounts of a call can be packed. -/
def KeeperCall.Packable : KeeperCall → Prop
  | .tx request => request.tx.Packable
  | .batch txs _ => ∀ request ∈ txs, request.tx.Packable
  | _ => True

/-- The packed amounts of an operation come back. -/
def ZkSyncOp.Packable : ZkSyncOp → Prop
  | .TransferToNew op => (ZkSyncTx.Transfer op.tx).Packable
  | .Transfer op => (ZkSyncTx.Transfer op.tx).Packable
  | .Withdraw op => (ZkSyncTx.Withdraw op.tx).Packable
  | .ChangePubKeyOffchain op => (ZkSyncTx.ChangePubKey op.tx).Packable
  | .ForcedExit op => (ZkSyncTx.ForcedExit op.tx).Packable
  | _ => True

/-- What is executed has the amounts of its transaction. -/
theorem TxEffect.packable {env : Env} {s s' : ZkSyncState} {tx : ZkSyncTx} {r : OpSuccess}
    (h : TxEffect env s tx r s') (htx : tx.Packable) : r.executedOp.Packable := by
  cases h <;> exact htx

theorem PriorityEffect.packable {s s' : ZkSyncState} {op : ZkSyncPriorityOp} {r : OpSuccess}
    (h : PriorityEffect s op r s') : r.executedOp.Packable := by
  cases h <;> exact trivial

/-- What can be written, and is packable, can be read. -/
theorem ZkSyncOp.Packable.inRange {op : ZkSyncOp} (h : op.Packable) {data : Bytes}
    (hdata : op.publicData = .ok data) : op.InRange := by
  cases op with
  | Noop => exact trivial
  | Deposit op =>
    obtain ⟨_, hamount, -⟩ := Outcome.bind_eq_ok.mp hdata
    exact (u128Bytes_eq_ok hamount).1
  | TransferToNew op => exact h
  | Withdraw op =>
    obtain ⟨_, hamount, -⟩ := Outcome.bind_eq_ok.mp hdata
    exact ⟨(u128Bytes_eq_ok hamount).1, h⟩
  | Close op => exact trivial
  | Transfer op => exact h
  | FullExit op =>
    obtain ⟨_, hamount, -⟩ := Outcome.bind_eq_ok.mp hdata
    exact (u128Bytes_eq_ok hamount).1
  | ChangePubKeyOffchain op => exact h
  | ForcedExit op =>
    obtain ⟨_, hamount, -⟩ := Outcome.bind_eq_ok.mp hdata
    exact ⟨(u128Bytes_eq_ok hamount).1, h⟩

/-- Operations that could be written have amounts in range. -/
theorem inRange_of_publicDataOf {ops : List ZkSyncOp} (h : ∀ op ∈ ops, op.Packable) {data : Bytes}
    (hdata : publicDataOf ops = .ok data) : ∀ op ∈ ops, op.InRange := by
  intro op hop
  obtain ⟨front, back, rfl⟩ := List.append_of_mem hop
  obtain ⟨_, -, opData, hopData, -⟩ := publicDataOf_of_append hdata
  exact (h op hop).inRange hopData

/-! ## The pending block -/

/-- The restorer stands where the server stands, in the middle of a block. -/
structure Abreast (env : Env) (s : ZkSyncState) (p : PendingBlock) (u : OpsBlockUpdate) : Prop where
  state : Alike s u.tree.state
  fits : AllFit s ↔ AllFit u.tree.state
  hashed : Hashed env.hasher u.tree.state
  updates : u.accountsUpdated = p.accountUpdates
  fees : u.fees = p.collectedFees
  index : u.currentOpBlockIndex = p.pendingOpBlockIndex
  chunks : chunksOf u.ops = chunksOf p.successOperations
  /-- The restorer counts from the block before. -/
  number : u32Increment env.overflowChecks u.tree.state.blockNumber = .ok s.blockNumber

/-- The restored tree `t` belongs to the last sealed block. The operations executed
since then, read from their public data and executed again, lead to where the server
stands with the pending block `p`. -/
structure Replayed (env : Env) (t : TreeState) (s : ZkSyncState) (p : PendingBlock) (next : UInt64) :
    Prop where
  before : t.currentUnprocessedPriorityOp = p.unprocessedPriorityOpBefore
  packable : ∀ op ∈ p.executedOps, op.Packable
  failed : ∀ tx ∈ p.failedTxs, tx.op = none
  replay : ∃ u, OpsBlockUpdate.executeOperations env { tree := t }
      (p.executedOps.map ZkSyncOp.visible) = .ok u ∧ Abreast env s p u ∧
    u.tree.currentUnprocessedPriorityOp = next ∧
    u.tree.availableBlockChunkSizes = t.availableBlockChunkSizes

section Pending

variable {env : Env} {t : TreeState} {s s' s₁ : ZkSyncState} {p p' : PendingBlock}
  {u : OpsBlockUpdate} {r : OpSuccess} {next next' : UInt64} {chunksNeeded : Nat}
  {executed : UInt32 → ExecutedOperations} {e : ExecutedOperations}

/-- Both push the same operation. -/
theorem Abreast.push (h : Abreast env s p u) (halike : Alike s' s₁) (hfits : AllFit s' ↔ AllFit s₁)
    (hwrites : Writes env.hasher s s') (hwrites₁ : Writes env.hasher u.tree.state s₁)
    (hpush : p.pushSuccess env.overflowChecks chunksNeeded r executed = .ok (e, p'))
    (hexecuted : ∀ i, (executed i).getExecutedOp = some r.executedOp) (tree : TreeState)
    (htree : tree.state = s₁) (execResult : ExecutedOperations) {op : ZkSyncOp}
    (hresult : execResult.getExecutedOp = some op) (hop : op.chunks = r.executedOp.chunks) :
    ∃ index, u32Increment env.overflowChecks u.currentOpBlockIndex = .ok index ∧
      Abreast env s' p'
        { tree
          accountsUpdated := u.accountsUpdated ++ r.updates
          fees := u.fees ++ r.fee.toList
          ops := u.ops ++ [execResult]
          currentOpBlockIndex := index } := by
  obtain ⟨_, index, -, hindex, rfl, rfl⟩ := PendingBlock.pushSuccess_eq_ok.mp hpush
  subst htree
  refine ⟨index, h.index ▸ hindex, halike, hfits, hwrites₁.hashed h.hashed, ?_, ?_, rfl, ?_, ?_⟩
  · exact congrArg (· ++ r.updates) h.updates
  · exact congrArg (· ++ r.fee.toList) h.fees
  · show chunksOf (u.ops ++ _) = chunksOf (p.successOperations ++ _)
    rw [chunksOf_append, chunksOf_append, h.chunks, chunksOf_singleton (hexecuted _),
      chunksOf_singleton hresult, hop]
  · rw [hwrites.blockNumber, hwrites₁.blockNumber, h.number]

/-- The operation that is executed again is the last of those executed so far. -/
theorem executeOperations_push {ops : List ZkSyncOp} {op : ZkSyncOp} {u' : OpsBlockUpdate}
    (h : OpsBlockUpdate.executeOperations env { tree := t } (ops.map ZkSyncOp.visible) = .ok u)
    (hop : u.executeOperation env op.visible = .ok u') :
    OpsBlockUpdate.executeOperations env { tree := t } ((ops ++ [op]).map ZkSyncOp.visible) =
      .ok u' := by
  unfold OpsBlockUpdate.executeOperations at h ⊢
  rw [List.map_append, List.foldlM_append, h, Outcome.ok_bind, List.map_singleton,
    List.foldlM_cons, hop]
  rfl

/-- A transaction. -/
theorem Replayed.tx (h : Replayed env t s p next) {tx : ZkSyncTx}
    (hexec : s.executeTx env tx = .ok (r, s')) (hpackable : tx.Packable)
    (hpush : p.pushSuccess env.overflowChecks chunksNeeded r executed = .ok (e, p'))
    (hexecuted : ∀ i, (executed i).getExecutedOp = some r.executedOp) :
    Replayed env t s' p' next := by
  obtain ⟨u, hreplay, htracks, hnext, hsizes⟩ := h.replay
  have hops := (pushedOps_pushSuccess hexecuted hpush).ops
  obtain ⟨⟨r', s₁⟩, hexec', hr, halike⟩ := (htracks.state.executeTx tx).of_ok hexec
  obtain rfl : r = r' := hr
  obtain ⟨tx', op, hop, hagain⟩ := OpsBlockUpdate.executedAgain hexec'
  have hfits := (executeTx_effect hexec).allFit_iff.trans
    ((and_congr_left fun _ => htracks.fits).trans (executeTx_effect hexec').allFit_iff.symm)
  obtain ⟨index, hindex, htracks'⟩ := htracks.push halike hfits
    (Step.txOk hexec).writes (Step.txOk hexec').writes hpush hexecuted { u.tree with state := s₁ }
    rfl (.Tx ⟨⟨tx', none⟩, true, some op, none, some u.currentOpBlockIndex, none⟩) rfl hop
  have hupdate : (u.withState s₁).updateFromTx env tx' { r with executedOp := op } = .ok _ :=
    Outcome.bind_eq_ok.mpr ⟨index, hindex, rfl⟩
  obtain ⟨_, _, -, -, -, rfl⟩ := PendingBlock.pushSuccess_eq_ok.mp hpush
  refine ⟨h.before, ?_, h.failed, _, ?_, htracks', hnext, hsizes⟩
  · intro op hop
    rw [hops] at hop
    rcases List.mem_append.mp hop with hop | hop
    · exact h.packable op hop
    · rw [List.mem_singleton.mp hop]
      exact (executeTx_effect hexec).packable hpackable
  · rw [hops]
    exact executeOperations_push hreplay (hagain.trans hupdate)

/-- A priority operation. -/
theorem Replayed.priorityOp (h : Replayed env t s p next) {op : ZkSyncPriorityOp}
    (hexec : s.executePriorityOp op = .ok (r, s'))
    (hpush : p.pushSuccess env.overflowChecks chunksNeeded r executed = .ok (e, p'))
    (hexecuted : ∀ i, (executed i).getExecutedOp = some r.executedOp)
    (hincrement : u64Increment env.overflowChecks next = .ok next') :
    Replayed env t s' p' next' := by
  obtain ⟨u, hreplay, htracks, hnext, hsizes⟩ := h.replay
  have hops := (pushedOps_pushSuccess hexecuted hpush).ops
  obtain ⟨⟨r', s₁⟩, hexec', hr, halike⟩ := (htracks.state.executePriorityOp op).of_ok hexec
  obtain rfl : r = r' := hr
  obtain ⟨priorityOp, restored, hchunks, hagain⟩ := (OpsBlockUpdate.priorityExecutedAgain hexec' :
    OpsBlockUpdate.PriorityExecutedAgain env u r s₁)
  have hfits := (executePriorityOp_effect hexec).allFit_iff.trans
    (htracks.fits.trans (executePriorityOp_effect hexec').allFit_iff.symm)
  obtain ⟨index, hindex, htracks'⟩ := htracks.push halike hfits
    (Step.priorityOp hexec : Step env _ _ _).writes (Step.priorityOp hexec' : Step env _ _ _).writes
    hpush hexecuted
    { u.tree with state := s₁, currentUnprocessedPriorityOp := next' } rfl
    (.PriorityOp ⟨⟨0, priorityOp, 0, [], 0⟩, restored, u.currentOpBlockIndex⟩) rfl hchunks
  have hupdate : (u.withState s₁).updateFromPriorityOperation env priorityOp
      { r with executedOp := restored } = .ok _ :=
    Outcome.bind_eq_ok.mpr ⟨next', hnext ▸ hincrement, Outcome.bind_eq_ok.mpr ⟨index, hindex, rfl⟩⟩
  obtain ⟨_, _, -, -, -, rfl⟩ := PendingBlock.pushSuccess_eq_ok.mp hpush
  refine ⟨h.before, ?_, h.failed, _, ?_, htracks', rfl, hsizes⟩
  · intro op hop
    rw [hops] at hop
    rcases List.mem_append.mp hop with hop | hop
    · exact h.packable op hop
    · rw [List.mem_singleton.mp hop]
      exact (executePriorityOp_effect hexec).packable
  · rw [hops]
    exact executeOperations_push hreplay (hagain.trans hupdate)

/-- The restorer sees nothing of a failed transaction, or of the counters. -/
theorem Replayed.unseen (h : Replayed env t s p next) (halike : Alike s' s)
    (hfits : AllFit s' ↔ AllFit s) (hnumber : s'.blockNumber = s.blockNumber)
    (hfailed : ∀ tx ∈ p'.failedTxs, tx.op = none) (hp : p' = { p with
      failedTxs := p'.failedTxs
      pendingBlockIteration := p'.pendingBlockIteration
      withdrawalsAmount := p'.withdrawalsAmount
      gasCounter := p'.gasCounter
      fastProcessingRequired := p'.fastProcessingRequired
      storedAccountUpdates := p'.storedAccountUpdates }) : Replayed env t s' p' next := by
  obtain ⟨u, hreplay, htracks, hnext, hsizes⟩ := h.replay
  have hops : p'.executedOps = p.executedOps := by
    rw [hp]
    rfl
  have htracks' : Abreast env s' p' u := by
    refine ⟨halike.trans htracks.state, hfits.trans htracks.fits, htracks.hashed, ?_, ?_, ?_, ?_,
      hnumber ▸ htracks.number⟩
    · rw [hp]
      exact htracks.updates
    · rw [hp]
      exact htracks.fees
    · rw [hp]
      exact htracks.index
    · rw [hp]
      exact htracks.chunks
  refine ⟨?_, hops ▸ h.packable, hfailed, u, hops ▸ hreplay, htracks', hnext, hsizes⟩
  rw [hp]
  exact h.before

/-- Counting adds nothing that would have to be replayed. -/
theorem Replayed.counted (h : Replayed env t s p next) (hp : Counted p p') :
    Replayed env t s p' next := by
  have hfailed : p'.failedTxs = p.failedTxs := by rw [hp]
  refine h.unseen (.refl s) Iff.rfl rfl (hfailed ▸ h.failed) ?_
  rw [hp]

/-- A batch that was executed. -/
theorem Replayed.batch {es : List Executed} (hrun : Run (TxStep env) s es s') :
    ∀ {p p' : PendingBlock} {txs : List SignedZkSyncTx} {batchId : Int}
      {ops : List ExecutedOperations}, Replayed env t s p next → txs.map (·.tx) = es.map (·.1) →
      (∀ request ∈ txs, request.tx.Packable) →
      p.pushBatchResults env.overflowChecks chunksNeeded batchId
        (txs.zip (es.map fun e => .ok e.2)) = .ok (ops, p') → Replayed env t s' p' next := by
  induction hrun with
  | nil =>
    intro p p' txs batchId ops h htxs hpackable hpush
    obtain rfl := List.map_eq_nil_iff.mp htxs
    cases hpush
    exact h
  | @cons s s₁ s' e es hstep _ ih =>
    intro p p' txs batchId ops h htxs hpackable hpush
    cases txs with
    | nil => cases htxs
    | cons tx txs =>
      obtain ⟨htx, htxs⟩ := List.cons.inj htxs
      rw [List.map_cons, List.zip_cons_cons] at hpush
      unfold PendingBlock.pushBatchResults at hpush
      simp only [Outcome.bind_eq_ok] at hpush
      obtain ⟨⟨_, p₁⟩, hp₁, ⟨_, p₂⟩, hp₂, hpush⟩ := hpush
      cases hpush
      have htx : tx.tx = e.1 := htx
      have hexec : s.executeTx env tx.tx = .ok (e.2, s₁) := by
        rw [htx]
        exact hstep
      unfold PendingBlock.pushTxResult at hp₁
      exact ih (h.tx hexec (hpackable tx List.mem_cons_self) hp₁ (by exact fun _ => rfl)) htxs
        (fun request hrequest => hpackable request (List.mem_cons_of_mem _ hrequest)) hp₂

/-- A batch that failed adds failed transactions. -/
theorem pushBatchResults_error {batchId : Int} {error : String} {txs : List SignedZkSyncTx}
    {ops : List ExecutedOperations}
    (hpush : p.pushBatchResults env.overflowChecks chunksNeeded batchId
      (txs.zip (List.replicate txs.length (.error error))) = .ok (ops, p')) :
    p' = { p with failedTxs := p'.failedTxs } := by
  induction txs generalizing p ops with
  | nil =>
    cases hpush
    rfl
  | cons tx txs ih =>
    rw [List.length_cons, List.replicate_succ, List.zip_cons_cons] at hpush
    unfold PendingBlock.pushBatchResults PendingBlock.pushTxResult at hpush
    rw [Outcome.ok_bind, Outcome.bind_eq_ok] at hpush
    obtain ⟨⟨ops', p₁⟩, hrest, hpush⟩ := hpush
    cases hpush
    have hp := ih hrest
    exact hp

/-- A batch that fails is not in the data, and leaves the accounts as they were. -/
theorem Replayed.failedBatch (h : Replayed env t s p next) (hs : Hashed env.hasher s)
    (hsame : Same env.hasher s s') (hhashed : Hashed env.hasher s')
    (hnumber : s'.blockNumber = s.blockNumber) {batchId : Int} {error : String}
    {txs : List SignedZkSyncTx} {ops : List ExecutedOperations}
    (hpush : p.pushBatchResults env.overflowChecks chunksNeeded batchId
      (txs.zip (List.replicate txs.length (.error error))) = .ok (ops, p')) :
    Replayed env t s' p' next := by
  have hfits : AllFit s' ↔ AllFit s := by
    rw [allFit_iff_root hhashed, allFit_iff_root hs, hsame.root]
  have hp := pushBatchResults_error hpush
  refine h.unseen hsame.alike hfits hnumber ((pushedOps_pushBatchResults hpush).failed h.failed) ?_
  rw [hp]

end Pending

/-! ## The keeper -/

section Keeper

variable {env : Env} {t : TreeState} {k k' : ZkSyncStateKeeper}

/-- The restorer follows the keeper. -/
def ZkSyncStateKeeper.ReplayedBy (k : ZkSyncStateKeeper) (env : Env) (t : TreeState) : Prop :=
  Replayed env t k.state k.pendingBlock k.currentUnprocessedPriorityOp

/-- The end of a mini block adds nothing, either. -/
theorem replayed_countIteration (h : k.ReplayedBy env t) : k.countIteration.ReplayedBy env t := by
  unfold ZkSyncStateKeeper.countIteration
  split
  · exact Replayed.unseen h (.refl _) Iff.rfl rfl h.failed rfl
  · exact h

/-- Every call but one that seals the block. -/
theorem ZkSyncStateKeeper.ReplayedBy.step (hz : env.NoZeroSigner) (hexact : ExactState env k.state)
    (h : k.ReplayedBy env t) {e : KeeperCall × KeeperReply} (htrace : e.1.LeavesNoTrace env k)
    (hpackable : e.1.Packable) (hunsealed : ¬ e.2.IsSealed) (hstep : KeeperStep env k e k') :
    k'.ReplayedBy env t := by
  obtain ⟨call, reply⟩ := e
  have heff := hstep.effect
  dsimp only at heff htrace hpackable hunsealed
  cases heff with
  | full counted => exact Replayed.counted h counted
  | @priorityOp _ _ gasCounter _ _ _ _ _ _ _ _ executed pushed counter =>
    have hcharged : Replayed env t k.state { k.pendingBlock with gasCounter := gasCounter }
        k.currentUnprocessedPriorityOp := Replayed.counted h rfl
    exact hcharged.priorityOp executed pushed (by exact fun _ => rfl) counter
  | @tx tx _ p _ result _ _ _ _ admitted executed pushed =>
    have hcounted := Replayed.counted h (PendingBlock.counted_admitTx admitted)
    cases result with
    | ok success =>
      unfold PendingBlock.pushTxResult at pushed
      exact hcounted.tx (executeTx_of_result executed) hpackable pushed (by exact fun _ => rfl)
    | error error =>
      obtain rfl := state_of_failed executed
      have hfailed := (pushedOps_pushTxResult pushed).failed hcounted.failed
      cases pushed
      exact hcounted.unseen (.refl _) Iff.rfl rfl hfailed rfl
  | batch estimate room admitted executed pushed =>
    have hcounted := Replayed.counted h (PendingBlock.counted_admitBatch admitted)
    have hnumber := (Step.batch executed).writes.blockNumber
    rcases batch_cases hz hexact ⟨_, _, estimate, room, admitted⟩ htrace executed with
      ⟨es, htxs, run, -, rfl⟩ | ⟨hsame, hhashed, error, rfl⟩
    · exact Replayed.batch run hcounted htxs hpackable pushed
    · exact hcounted.failedBatch hexact.hashed hsame hhashed hnumber pushed
  | sealed => exact absurd trivial hunsealed
  | stored hstore =>
    have hk := replayed_countIteration h
    obtain ⟨-, -, -, rfl⟩ := storePendingBlock_eq_ok hstore
    exact Replayed.unseen hk (.refl _) Iff.rfl rfl hk.failed rfl

/-! ### Sealing -/

/-- Fees are collected in tokens that have leaves, or the account does not fit. -/
theorem collectFeeLoop_fits_iff (id : AccountId) (fees : List CollectedFee) (a : Account)
    (us : AccountUpdates) : (ZkSyncState.collectFeeLoop id fees a us).1.Fits ↔
      a.Fits ∧ ∀ fee ∈ fees, fee.amount ≠ 0 → HasLeaf fee.token := by
  induction fees generalizing a us with
  | nil => exact ⟨fun h => ⟨h, fun _ h => absurd h List.not_mem_nil⟩, And.left⟩
  | cons fee fees ih =>
    unfold ZkSyncState.collectFeeLoop
    rw [List.forall_mem_cons]
    split
    next hzero =>
      rw [ih]
      exact and_congr_right fun _ => ⟨fun h => ⟨fun hne => absurd hzero hne, h⟩, And.right⟩
    next hpos =>
      rw [ih]
      show (a.setBalance _ _).Fits ∧ _ ↔ _
      rw [Account.Fits.setBalance_iff, and_assoc]
      exact and_congr_right fun _ => and_congr_left fun _ => ⟨fun h _ => h, fun h => h hpos⟩

/-- Fees can be hashed if their tokens have leaves. -/
theorem allFit_collectFee_iff {s s' : ZkSyncState} {fees : List CollectedFee}
    {feeAccount : AccountId} {us : AccountUpdates}
    (h : s.collectFee fees feeAccount = .ok (us, s')) :
    AllFit s' ↔ AllFit s ∧ ∀ fee ∈ fees, fee.amount ≠ 0 → HasLeaf fee.token := by
  unfold ZkSyncState.collectFee at h
  simp only [Outcome.bind_eq_ok, Outcome.expect_eq_ok] at h
  obtain ⟨a, ha, h⟩ := h
  cases h
  exact allFit_over ha (collectFeeLoop_fits_iff _ _ _ _)

/-- The padding changes nothing. -/
theorem executeOperations_noops (u : OpsBlockUpdate) (ops : List ZkSyncOp) (n : Nat) :
    u.executeOperations env (ops ++ List.replicate n .Noop) = u.executeOperations env ops := by
  unfold OpsBlockUpdate.executeOperations
  rw [List.foldlM_append]
  have hnoops : ∀ u : OpsBlockUpdate, (List.replicate n ZkSyncOp.Noop).foldlM
      (OpsBlockUpdate.executeOperation env) u = .ok u := by
    intro u
    induction n with
    | zero => rfl
    | succ n ih =>
      rw [List.replicate_succ, List.foldlM_cons]
      exact ih
  cases List.foldlM (OpsBlockUpdate.executeOperation env) u ops with
  | ok u' => exact hnoops u'
  | error e => rfl

/-- Hashing keeps the states alike. -/
theorem Alike.rootHash {H : Hasher Fr} {s s' s₁ s₁' : ZkSyncState} {hash hash' : Fr}
    (h : Alike s s') (hroot : s.rootHash H = .ok (hash, s₁))
    (hroot' : s'.rootHash H = .ok (hash', s₁')) : Alike s₁ s₁' := by
  obtain ⟨hindex, hitems⟩ := Alike.items_of_rootHash hroot
  obtain ⟨hindex', hitems'⟩ := Alike.items_of_rootHash hroot'
  refine ⟨fun id => ?_, ?_, ?_⟩
  · rw [getAccount_of_rootHash hroot, getAccount_of_rootHash hroot']
    exact h.accounts id
  · rw [hindex, hindex', h.index]
  · rw [hitems, hitems', h.size]

/-- What the restorer makes of a sealed block, and of its tree. -/
structure RestoredBlock (k' : ZkSyncStateKeeper) (request : BlockCommitRequest)
    (r : Block × AccountUpdates) (t' : TreeState) : Prop where
  accounts : ∀ id, Option.Rel Account.Equiv (k'.state.getAccount id) (t'.state.getAccount id)
  index : t'.state.accountIdByAddress = k'.state.accountIdByAddress
  rootHash : r.1.newRootHash = request.block.newRootHash
  feeAccount : r.1.feeAccount = request.block.feeAccount
  accountsUpdated : r.2 = request.accountsUpdated
  processedPriorityOps : r.1.processedPriorityOps = request.block.processedPriorityOps
  unprocessed : t'.currentUnprocessedPriorityOp = k'.currentUnprocessedPriorityOp

/-- A failed transaction was not executed. -/
theorem executedOp_of_failed {txs : List ExecutedTx} (h : ∀ tx ∈ txs, tx.op = none) :
    ∀ op ∈ txs.map ExecutedOperations.Tx, op.getExecutedOp = none := by
  intro op hop
  obtain ⟨tx, htx, rfl⟩ := List.mem_map.mp hop
  exact h tx htx

section SealedBlock

variable {request : BlockCommitRequest} {updates : AppliedUpdatesRequest}
  {feeUpdates : AccountUpdates} {paid hashed : ZkSyncState}

/-- The block holds the operations that were executed. -/
theorem executedOps_of_sealed (hs : Sealed env k request updates feeUpdates paid hashed)
    (hfailed : ∀ tx ∈ k.pendingBlock.failedTxs, tx.op = none) :
    request.block.executedOps = k.pendingBlock.executedOps := by
  unfold Block.executedOps
  rw [hs.transactions, List.filterMap_append,
    List.filterMap_eq_nil_iff.mpr (executedOp_of_failed hfailed), List.append_nil]
  rfl

/-- The public data of a sealed block is read into the executed operations and padding. -/
theorem parsed_of_sealed (hs : Sealed env k request updates feeUpdates paid hashed)
    (hfailed : ∀ tx ∈ k.pendingBlock.failedTxs, tx.op = none)
    (hpackable : ∀ op ∈ k.pendingBlock.executedOps, op.Packable)
    {data : Bytes} (hdata : request.block.getEthPublicData = .ok data) :
    ∃ n, getRollupOpsFromData data =
      .ok (k.pendingBlock.executedOps.map ZkSyncOp.visible ++ List.replicate n .Noop) := by
  refine ⟨request.block.blockChunksSize - request.block.chunksUsed, ?_⟩
  obtain ⟨hpublic, -⟩ := Block.getEthPublicData_eq (smallestBlockSizeForChunks_eq_ok hs.size).2 hdata
  rw [executedOps_of_sealed hs hfailed] at hpublic
  have hpadded : ∀ op ∈ k.pendingBlock.executedOps ++ List.replicate
      (request.block.blockChunksSize - request.block.chunksUsed) ZkSyncOp.Noop, op.Packable := by
    intro op hop
    rcases List.mem_append.mp hop with hop | hop
    · exact hpackable op hop
    · rw [List.eq_of_mem_replicate hop]
      exact trivial
  rw [getRollupOpsFromData_publicData (inRange_of_publicDataOf hpadded hpublic) hpublic,
    List.map_append, List.map_replicate]
  rfl

end SealedBlock

/-- The block that is sealed is restored, and the restorer stands where the keeper
stands again. -/
theorem ZkSyncStateKeeper.ReplayedBy.seal (h : k.ReplayedBy env t) (hhashed : Hashed env.hasher k.state)
    (hsizes : t.availableBlockChunkSizes = k.availableBlockChunkSizes)
    {request : BlockCommitRequest} {updates : AppliedUpdatesRequest}
    (hseal : k.sealPendingBlock env = .ok ((request, updates), k')) {data : Bytes}
    (hdata : request.block.getEthPublicData = .ok data) :
    ∃ r t', t.restoreBlock env request.block = .ok (r, t') ∧ RestoredBlock k' request r t' ∧
      k'.ReplayedBy env t' ∧ t'.availableBlockChunkSizes = t.availableBlockChunkSizes := by
  obtain ⟨feeUpdates, paid, hashed, blockNumber, max, hs, hnumber, -, rfl⟩ :=
    sealPendingBlock_eq_ok hseal
  obtain ⟨n, hparsed⟩ := parsed_of_sealed hs h.failed h.packable hdata
  have hchunks : chunksOf k.pendingBlock.successOperations = request.block.chunksUsed := by
    unfold Block.chunksUsed
    rw [hs.transactions, chunksOf_append, chunksOf_eq_zero (executedOp_of_failed h.failed), Nat.add_zero]
  obtain ⟨u, hreplay, htracks, hnext, husizes⟩ := h.replay
  -- the fees
  obtain ⟨⟨us, paid'⟩, hpaid, hus, halike⟩ := (htracks.state.collectFee
    k.pendingBlock.collectedFees k.feeAccountId).of_ok hs.fees
  obtain rfl : feeUpdates = us := hus
  have hwrites := (Step.collectFee hs.fees : Step env _ _ _).writes
  have hwrites' := (Step.collectFee hpaid : Step env _ _ _).writes
  have hfits : AllFit paid ↔ AllFit paid' := (allFit_collectFee_iff hs.fees).trans
    ((and_congr_left fun _ => htracks.fits).trans (allFit_collectFee_iff hpaid).symm)
  obtain ⟨account, haccount⟩ : ∃ account, u.tree.state.getAccount k.feeAccountId = some account := by
    obtain ⟨account, haccount, -⟩ := Outcome.bind_eq_ok.mp hpaid
    exact ⟨account, Outcome.expect_eq_ok.mp haccount⟩
  -- the root hash
  have hroot : paid'.root env.hasher = .ok request.block.newRootHash := by
    rw [root_of_alike halike hfits (hwrites.hashed hhashed) (hwrites'.hashed htracks.hashed)]
    exact Outcome.map_eq_ok.mpr ⟨_, hs.root, rfl⟩
  obtain ⟨⟨hash, hashed'⟩, hroot, hhash⟩ := Outcome.map_eq_ok.mp hroot
  obtain rfl : hash = request.block.newRootHash := hhash
  have hlike := halike.rootHash hs.root hroot
  have hsame : hashed.blockNumber = k.state.blockNumber := by
    rw [(Step.rootHash hs.root).writes.blockNumber, hwrites.blockNumber]
  have hsame' : hashed'.blockNumber = u.tree.state.blockNumber := by
    rw [(Step.rootHash hroot : Step env _ _ _).writes.blockNumber, hwrites'.blockNumber]
  -- the block
  have hsize : smallestBlockSizeForChunks (chunksOf u.ops) u.tree.availableBlockChunkSizes =
      .ok request.block.blockChunksSize := by
    rw [htracks.chunks, hchunks, husizes, hsizes]
    exact hs.size
  let t' : TreeState := { u.tree with
    state := { hashed' with blockNumber := k.state.blockNumber }
    lastFeeAccountAddress := account.address }
  let block : Block :=
    { blockNumber := request.block.blockNumber
      newRootHash := request.block.newRootHash
      feeAccount := request.block.feeAccount
      blockTransactions := u.ops
      processedPriorityOps := (t.currentUnprocessedPriorityOp, u.tree.currentUnprocessedPriorityOp)
      blockChunksSize := request.block.blockChunksSize
      commitGasLimit := 0
      verifyGasLimit := 0 }
  refine ⟨(block, u.accountsUpdated ++ feeUpdates), t', ?_, ?_, ?_, husizes⟩
  · unfold TreeState.restoreBlock
    rw [hdata, Outcome.ok_bind, hparsed, Outcome.ok_bind]
    unfold TreeState.updateTreeStatesFromOpsBlock
    dsimp only
    rw [executeOperations_noops, hreplay, Outcome.ok_bind, hs.feeAccount, haccount, htracks.fees]
    simp only [Outcome.okOrElse, Outcome.ok_bind, hpaid, hroot]
    unfold Block.newFromAvailableBlockSizes Block.chunksUsed
    dsimp only
    rw [hsize, Outcome.ok_bind, Outcome.pure_eq, Outcome.ok_bind, hsame', htracks.number]
    dsimp only [block, t']
    rw [hs.feeAccount]
    rfl
  · refine ⟨hlike.accounts, hlike.index, rfl, rfl, ?_, ?_, hnext⟩
    · rw [hs.accounts, ← htracks.updates]
    · rw [hs.priorityOps]
      show (t.currentUnprocessedPriorityOp, u.tree.currentUnprocessedPriorityOp) = _
      rw [h.before, hnext]
  · refine ⟨hnext, fun _ h => absurd h List.not_mem_nil, fun _ h => absurd h List.not_mem_nil,
      { tree := t' }, rfl, ⟨⟨hlike.accounts, hlike.index, hlike.size⟩, ?_, ?_, rfl, rfl, rfl, rfl, ?_⟩,
      hnext, rfl⟩
    · have hall : AllFit hashed := allFit_of_rootHash (hwrites.hashed hhashed) hs.root
      have hall' : AllFit hashed' := allFit_of_rootHash (hwrites'.hashed htracks.hashed) hroot
      exact ⟨fun _ => hall', fun _ => hall⟩
    · exact (Step.rootHash hroot : Step env _ _ _).writes.hashed (hwrites'.hashed htracks.hashed)
    · show u32Increment env.overflowChecks k.state.blockNumber = .ok blockNumber
      rw [← hsame, hnumber]

end Keeper

/-! ## Runs -/

/-- The block of a commit request. -/
def sealedBlock : CommitRequest → Option Block
  | .Block request _ => some request.block
  | .PendingBlock _ _ => none

/-- The blocks that a run sealed. -/
def blocksOf (tr : List (KeeperCall × KeeperReply)) : List Block :=
  (sentBy tr).filterMap sealedBlock

/-- A call that the restorer can follow. The public data of a sealed block exists: it
was published. -/
def FollowedStep (env : Env) (k : ZkSyncStateKeeper) (e : KeeperCall × KeeperReply)
    (k' : ZkSyncStateKeeper) : Prop :=
  e.1.LeavesNoTrace env k ∧ e.1.Packable ∧
    (∀ block ∈ blocksOf [e], ∃ data, block.getEthPublicData = .ok data) ∧ KeeperStep env k e k'

section Runs

variable {env : Env} {feeAccountAddress : Address} {sizes : List Nat}
  {maxMini fastMini maxWithdrawals : Nat} {k k' : ZkSyncStateKeeper} {t : TreeState}

theorem blocksOf_append (tr tr' : List (KeeperCall × KeeperReply)) :
    blocksOf (tr ++ tr') = blocksOf tr ++ blocksOf tr' := by
  unfold blocksOf sentBy
  rw [List.flatMap_append, List.filterMap_append]

/-- Blocks are restored one behind the other. -/
theorem restoreBlocks_append {t₀ : TreeState} {blocks : List Block}
    (h : t₀.restoreBlocks env blocks = .ok t) (blocks' : List Block) :
    t₀.restoreBlocks env (blocks ++ blocks') = t.restoreBlocks env blocks' := by
  unfold TreeState.restoreBlocks at h ⊢
  rw [List.foldlM_append, h, Outcome.ok_bind]

/-- A step whose reply is no block adds none. -/
theorem blocksOf_unsealed {e : KeeperCall × KeeperReply} (h : ¬ e.2.IsSealed) : blocksOf [e] = [] := by
  obtain ⟨call, reply⟩ := e
  cases reply with
  | sealed => exact absurd trivial h
  | _ => rfl

/-- What holds of the keeper and the restorer between two calls. -/
structure Followed (env : Env) (feeAccountAddress : Address) (sizes : List Nat)
    (maxWithdrawals : Nat) (k : ZkSyncStateKeeper) (t : TreeState) : Prop where
  keeper : RunOk env feeAccountAddress sizes maxWithdrawals k
  replayed : k.ReplayedBy env t
  sizes : t.availableBlockChunkSizes = sizes

/-- A sealed block is restored. -/
theorem Followed.seal (hz : env.NoZeroSigner)
    (h : Followed env feeAccountAddress sizes maxWithdrawals k t) {call : KeeperCall}
    {request : BlockCommitRequest} {updates : AppliedUpdatesRequest}
    (hstep : FollowedStep env k (call, .sealed request updates) k') :
    ∃ r t', t.restoreBlock env request.block = .ok (r, t') ∧ RestoredBlock k' request r t' ∧
      Followed env feeAccountAddress sizes maxWithdrawals k' t' := by
  obtain ⟨htrace, -, hpublic, hstep⟩ := hstep
  obtain ⟨data, hdata⟩ := hpublic request.block List.mem_cons_self
  have hk' := h.keeper.step hz htrace hstep
  have heff := hstep.effect
  dsimp only at heff
  cases heff with
  | @sealed _ _ _ k₁ _ before hseal =>
    have hk₁ : k₁.ReplayedBy env t ∧ k₁.state = k.state ∧
        k₁.availableBlockChunkSizes = k.availableBlockChunkSizes := by
      rcases before with ⟨-, rfl⟩ | ⟨-, rfl⟩
      · exact ⟨h.replayed, rfl, rfl⟩
      · exact ⟨replayed_countIteration h.replayed, state_countIteration k,
          (config_countIteration k).1⟩
    obtain ⟨hreplayed, hstate, hconfig⟩ := hk₁
    obtain ⟨r, t', hrestore, hblock, hreplayed', hsizes'⟩ := hreplayed.seal
      (by rw [hstate]; exact h.keeper.state.hashed)
      (by rw [h.sizes, hconfig, h.keeper.sizes]) hseal hdata
    exact ⟨r, t', hrestore, hblock, hk', hreplayed', hsizes'.trans h.sizes⟩

/-- Every step: the restorer has read the blocks that were sealed. -/
theorem Followed.step (hz : env.NoZeroSigner)
    (h : Followed env feeAccountAddress sizes maxWithdrawals k t) {e : KeeperCall × KeeperReply}
    (hstep : FollowedStep env k e k') : ∃ t', t.restoreBlocks env (blocksOf [e]) = .ok t' ∧
      Followed env feeAccountAddress sizes maxWithdrawals k' t' := by
  by_cases hsealed : e.2.IsSealed
  · obtain ⟨call, reply⟩ := e
    cases reply with
    | sealed request updates =>
      obtain ⟨r, t', hrestore, -, h'⟩ := h.seal hz hstep
      refine ⟨t', ?_, h'⟩
      show t.restoreBlocks env [request.block] = .ok t'
      unfold TreeState.restoreBlocks
      rw [List.foldlM_cons, hrestore]
      rfl
    | _ => exact hsealed.elim
  · rw [blocksOf_unsealed hsealed]
    obtain ⟨htrace, hpackable, -, hstep⟩ := hstep
    exact ⟨t, rfl, h.keeper.step hz htrace hstep,
      h.replayed.step hz h.keeper.state htrace hpackable hsealed hstep, h.sizes⟩

/-- The restorer follows the keeper through any run. -/
theorem Followed.run (hz : env.NoZeroSigner) {t₀ : TreeState} {k₀ : ZkSyncStateKeeper}
    {tr : List (KeeperCall × KeeperReply)} (hrun : Run (FollowedStep env) k₀ tr k) :
    Followed env feeAccountAddress sizes maxWithdrawals k₀ t₀ →
    ∃ t, t₀.restoreBlocks env (blocksOf tr) = .ok t ∧
      Followed env feeAccountAddress sizes maxWithdrawals k t := by
  induction hrun generalizing t₀ with
  | nil => exact fun h => ⟨t₀, rfl, h⟩
  | @cons k₀ k₁ k e tr hstep _ ih =>
    intro h
    obtain ⟨t₁, ht₁, h₁⟩ := h.step hz hstep
    obtain ⟨t, ht, h'⟩ := ih h₁
    refine ⟨t, ?_, h'⟩
    show t₀.restoreBlocks env (blocksOf ([e] ++ tr)) = _
    rw [blocksOf_append, restoreBlocks_append ht₁, ht]

variable {accounts : AList fun _ : AccountId => Account} {k₀ : ZkSyncStateKeeper}

/-- Both start from the genesis. -/
theorem exists_followed (hdistinct : ∀ id id' a a', accounts.lookup id = some a →
      accounts.lookup id' = some a' → a.address = a'.address → id = id')
    (hfee : (accounts.lookup 0).isSome)
    (hnew : ZkSyncStateKeeper.new env (.fromAccMap env.hasher accounts 0 0) feeAccountAddress sizes
      maxMini fastMini maxWithdrawals = .ok k₀) :
    ∃ t₀, TreeState.load env 0 accounts 0 0 sizes = .ok t₀ ∧
      Followed env feeAccountAddress sizes maxWithdrawals k₀ t₀ := by
  obtain ⟨hk₀, hbegun⟩ := new_runOk hnew hdistinct
  obtain ⟨blockNumber, feeAccountId, max, hok, ⟨hash, hroot⟩, hk⟩ := ZkSyncStateKeeper.new_eq_ok hnew
  obtain ⟨account, haccount⟩ := Option.isSome_iff_exists.mp hfee
  let s₀ := ZkSyncState.fromAccMap env.hasher accounts 0
  have hget : k₀.state.getAccount = s₀.getAccount := by
    rw [getAccount_of_rootHash hroot]
    rfl
  obtain ⟨hindex, hitems⟩ := Alike.items_of_rootHash hroot
  -- the restorer loads the same accounts, so both begin alike
  have hload : TreeState.load env 0 accounts 0 0 sizes = .ok ⟨s₀, 0, account.address, sizes⟩ := by
    unfold TreeState.load
    dsimp only
    rw [getAccount_fromAccMap, haccount]
    rfl
  have hpending : k₀.pendingBlock = PendingBlock.new 0 max ∧ k₀.currentUnprocessedPriorityOp = 0 := by
    rw [hk]
    exact ⟨rfl, rfl⟩
  refine ⟨_, hload, hk₀, ?_, rfl⟩
  unfold ZkSyncStateKeeper.ReplayedBy
  rw [hpending.1, hpending.2]
  refine ⟨rfl, fun _ h => absurd h List.not_mem_nil, fun _ h => absurd h List.not_mem_nil,
    { tree := ⟨s₀, 0, account.address, sizes⟩ }, rfl, ⟨⟨?_, ?_, ?_⟩, ?_, ?_, rfl, rfl, rfl, rfl, ?_⟩,
    rfl, rfl⟩
  · intro id
    rw [hget]
    exact (Alike.refl s₀).accounts id
  · exact hindex.symm
  · rw [hitems]
    rfl
  · unfold AllFit
    rw [hget]
  · exact hashed_fromAccMap env.hasher accounts 0
  · show u32Increment env.overflowChecks s₀.blockNumber = .ok k₀.state.blockNumber
    rw [(Write.hash hroot).blockNumber,
      show s₀.blockNumber = 0 from (writes_fromAccMap env.hasher accounts 0).blockNumber]
    exact hok.nextBlock

/-- The restorer reproduces the server, in every run of calls it can follow: from the
blocks that were sealed it restores the tree, and from the next one the block. -/
theorem restored_of_run (hz : env.NoZeroSigner)
    (hdistinct : ∀ id id' a a', accounts.lookup id = some a → accounts.lookup id' = some a' →
      a.address = a'.address → id = id') (hfee : (accounts.lookup 0).isSome)
    (hnew : ZkSyncStateKeeper.new env (.fromAccMap env.hasher accounts 0 0) feeAccountAddress sizes
      maxMini fastMini maxWithdrawals = .ok k₀)
    {tr : List (KeeperCall × KeeperReply)} (hrun : Run (FollowedStep env) k₀ tr k)
    {call : KeeperCall} {request : BlockCommitRequest} {updates : AppliedUpdatesRequest}
    (hseal : FollowedStep env k (call, .sealed request updates) k') :
    ∃ t₀ t r t', TreeState.load env 0 accounts 0 0 sizes = .ok t₀ ∧
      t₀.restoreBlocks env (blocksOf tr) = .ok t ∧ t.restoreBlock env request.block = .ok (r, t') ∧
      RestoredBlock k' request r t' := by
  obtain ⟨t₀, hload, h₀⟩ := exists_followed hdistinct hfee hnew
  obtain ⟨t, hrestored, h⟩ := Followed.run hz hrun h₀
  obtain ⟨r, t', hrestore, hblock, -⟩ := h.seal hz hseal
  exact ⟨t₀, t, r, t', hload, hrestored, hrestore, hblock⟩

end Runs

/-! ## A transfer, and a batch that fails -/

theorem packable_sampleTransfer (toAddress : Address) (nonce : Nonce) :
    (ZkSyncTx.Transfer (sampleTransfer toAddress nonce)).Packable := by
  show IsTokenAmountPackable 3 ∧ IsFeeAmountPackable 1
  exact ⟨⟨[0, 0, 0, 0, 0x60], by decide +kernel, by decide +kernel⟩,
    ⟨[0, 0x20], by decide +kernel, by decide +kernel⟩⟩

/-- A transfer to a new account is restored. -/
theorem restored_of_run_sampleTransfer : ∃ k₀ k k' request updates t₀ t r t',
    ZkSyncStateKeeper.new (Env.built 1 false) (oneAccountParams sampleAccount) 1 [6, 30] 10 2 5 =
      .ok k₀ ∧
    FollowedStep (Env.built 1 false) k (.sealBlock, .sealed request updates) k' ∧
    request.block.executedOps = [.TransferToNew ⟨sampleTransfer 2 0, 0, 1⟩] ∧
    TreeState.load (Env.built 1 false) 0 sampleStored 0 0 [6, 30] = .ok t₀ ∧
    t₀.restoreBlocks (Env.built 1 false) [] = .ok t ∧
    t.restoreBlock (Env.built 1 false) request.block = .ok (r, t') ∧ RestoredBlock k' request r t' := by
  obtain ⟨k₀, k, k', reply, request, updates, hnew, hstep, hseal, hops⟩ :=
    exists_block (.tx ⟨.Transfer (sampleTransfer 2 0), none⟩)
      [.TransferToNew ⟨sampleTransfer 2 0, 0, 1⟩] fits_sampleAccount rfl trivial trivial
      (by decide +kernel)
  have hops : request.block.executedOps = [.TransferToNew ⟨sampleTransfer 2 0, 0, 1⟩] := hops
  have hinRange : ∀ op ∈ [ZkSyncOp.TransferToNew ⟨sampleTransfer 2 0, 0, 1⟩], op.InRange := by
    intro op hop
    rw [List.mem_singleton.mp hop]
    exact packable_sampleTransfer 2 0
  obtain ⟨data, hdata⟩ := publicDataOf_inRange hinRange
  have hpublic : ∀ block ∈ blocksOf [(.sealBlock, .sealed request updates)],
      ∃ data, block.getEthPublicData = .ok data := by
    intro block hblock
    rw [List.mem_singleton.mp hblock]
    unfold Block.getEthPublicData
    rw [hops, hdata]
    exact ⟨_, rfl⟩
  have hsilent : blocksOf [(.tx ⟨.Transfer (sampleTransfer 2 0), none⟩, reply)] = [] := by
    rcases hstep.entry trivial with rfl | ⟨ops, rfl⟩ <;> rfl
  have hstep' : FollowedStep (Env.built 1 false) k₀
      (.tx ⟨.Transfer (sampleTransfer 2 0), none⟩, reply) k := by
    refine ⟨trivial, packable_sampleTransfer 2 0, fun block hblock => ?_, hstep⟩
    rw [hsilent] at hblock
    cases hblock
  have hseal' : FollowedStep (Env.built 1 false) k (.sealBlock, .sealed request updates) k' :=
    ⟨trivial, trivial, hpublic, hseal⟩
  obtain ⟨t₀, t, r, t', hload, hblocks, hrestore, hblock⟩ :=
    restored_of_run (noZeroSigner_built _) sampleStored_distinct rfl hnew (Run.single hstep') hseal'
  rw [hsilent] at hblocks
  exact ⟨k₀, k, k', request, updates, t₀, t, r, t', hnew, hseal', hops, hload, hblocks, hrestore, hblock⟩

/-- Account 1 is created in a batch that fails, and a deposit creates account 2. -/
def elsewhereCalls : List KeeperCall :=
  [.batch [⟨.Transfer (sampleTransfer 2 0), none⟩, ⟨.Transfer (sampleTransfer 2 0), none⟩] 0,
    .priorityOp ⟨0, .Deposit ⟨7, 0, 5, 3⟩, 0, [], 0⟩]

/-- What the calls leave: the deposit to account 2, no fees, and an account 2. -/
theorem elsewhere_summary :
    (((oneAccountKeeper sampleAccount).answers (Env.built 1 false) elsewhereCalls).toOption.map
      fun r =>
        decide (r.2.pendingBlock.executedOps = [.Deposit ⟨⟨7, 0, 5, 3⟩, 2⟩]) &&
        decide (r.2.pendingBlock.failedTxs.map (·.op) = [none, none]) &&
        decide (r.2.pendingBlock.storedAccountUpdates = 0) &&
        decide (r.2.availableBlockChunkSizes = [6, 30]) &&
        decide (r.2.feeAccountId = 0) &&
        decide (smallestBlockSizeForChunks (chunksOf (r.2.pendingBlock.successOperations ++
          r.2.pendingBlock.failedTxs.map ExecutedOperations.Tx)) [6, 30] = .ok 6) &&
        decide ((r.2.state.collectFee r.2.pendingBlock.collectedFees r.2.feeAccountId).toOption.map
          (fun p => (p.2.getAccount 2).isSome) = some true)) = some true := by
  decide +kernel

/-- The restorer executes the deposit on the genesis: there is no account 2. -/
theorem elsewhere_replayed {t₀ : TreeState}
    (hload : TreeState.load (Env.built 1 false) 0 sampleStored 0 0 [6, 30] = .ok t₀) :
    ∃ u, OpsBlockUpdate.executeOperations (Env.built 1 false) { tree := t₀ }
      [.Deposit (DepositOp.visible ⟨⟨7, 0, 5, 3⟩, 2⟩)] = .ok u ∧ u.tree.state.getAccount 2 = none := by
  have hcomputed : ((do
      let t₀ ← TreeState.load (Env.built 1 false) 0 sampleStored 0 0 [6, 30]
      OpsBlockUpdate.executeOperations (Env.built 1 false) { tree := t₀ }
        [.Deposit (DepositOp.visible ⟨⟨7, 0, 5, 3⟩, 2⟩)]).toOption.map
          fun u : OpsBlockUpdate => decide (u.tree.state.getAccount 2 = none)) = some true := by
    decide +kernel
  rw [hload, Outcome.ok_bind] at hcomputed
  obtain ⟨u, hu, hnone⟩ := Option.map_eq_some_iff.mp hcomputed
  exact ⟨u, Outcome.toOption_eq_some.mp hu, of_decide_eq_true hnone⟩

/-- The server has the account of the deposit at id 2, the restorer has not. -/
theorem restored_elsewhere : ∃ k₀ tr k request updates k',
    ZkSyncStateKeeper.new (Env.built 1 false) (oneAccountParams sampleAccount) 1 [6, 30] 10 2 5 =
      .ok k₀ ∧
    Run (fun k e k' => e.1.Packable ∧ KeeperStep (Env.built 1 false) k e k') k₀ tr k ∧
    tr.map Prod.fst = elsewhereCalls ∧
    KeeperStep (Env.built 1 false) k (.sealBlock, .sealed request updates) k' ∧
    (∃ data, request.block.getEthPublicData = .ok data) ∧
    ¬ ∃ t₀ t r t', TreeState.load (Env.built 1 false) 0 sampleStored 0 0 [6, 30] = .ok t₀ ∧
      t₀.restoreBlocks (Env.built 1 false) (blocksOf tr) = .ok t ∧
      t.restoreBlock (Env.built 1 false) request.block = .ok (r, t') ∧
      RestoredBlock k' request r t' := by
  obtain ⟨k₀, hnew, halike, hhashable⟩ := new_oneAccountKeeper fits_sampleAccount rfl
  obtain ⟨⟨tr, k₁⟩, hsome, hsum⟩ := Option.map_eq_some_iff.mp elsewhere_summary
  simp only [Bool.and_eq_true, decide_eq_true_eq] at hsum
  obtain ⟨⟨⟨⟨⟨⟨hops, hfailed⟩, hstored⟩, hsizes⟩, hfeeAccount⟩, hsize⟩, hfees⟩ := hsum
  obtain ⟨⟨us, paid₁⟩, hpaid₁, htwo⟩ := Option.map_eq_some_iff.mp hfees
  have hentries : ∀ call ∈ elsewhereCalls, call.IsEntry := by
    intro call hcall
    simp only [elsewhereCalls, List.mem_cons, List.not_mem_nil, or_false] at hcall
    rcases hcall with rfl | rfl <;> exact trivial
  have hbatch : ∀ request ∈ [(⟨.Transfer (sampleTransfer 2 0), none⟩ : SignedZkSyncTx),
      ⟨.Transfer (sampleTransfer 2 0), none⟩], request = ⟨.Transfer (sampleTransfer 2 0), none⟩ := by
    intro request hrequest
    simpa only [List.mem_cons, List.not_mem_nil, or_false, or_self] using hrequest
  have htok : ∀ call ∈ elsewhereCalls, call.FeeTokenOk := by
    intro call hcall
    simp only [elsewhereCalls, List.mem_cons, List.not_mem_nil, or_false] at hcall
    rcases hcall with rfl | rfl
    · exact fun request hrequest => by rw [hbatch request hrequest]; exact trivial
    · exact trivial
  have hpackable : ∀ call ∈ elsewhereCalls, call.Packable := by
    intro call hcall
    simp only [elsewhereCalls, List.mem_cons, List.not_mem_nil, or_false] at hcall
    rcases hcall with rfl | rfl
    · exact fun request hrequest => by rw [hbatch request hrequest]; exact packable_sampleTransfer 2 0
    · exact trivial
  obtain ⟨k, paid, hanswers, hk, -, hpaid, hlike, request, updates, k', hseal⟩ :=
    exists_sealed halike hhashable rfl hentries htok (Outcome.toOption_eq_some.mp hsome)
      (Outcome.toOption_eq_some.mp hpaid₁) (by rw [hsizes]; rfl) (by rw [hsizes]; exact hsize)
      (by rw [hstored]; exact Nat.zero_le _)
  obtain ⟨hrun, hcalls⟩ := answers_run hanswers
  have hrest : k = { k₁ with state := k.state } := hk.rest
  have hops' : k.pendingBlock.executedOps = [.Deposit ⟨⟨7, 0, 5, 3⟩, 2⟩] := by
    rw [hrest]
    exact hops
  have hfailed' : ∀ tx ∈ k.pendingBlock.failedTxs, tx.op = none := by
    intro tx htx
    rw [hrest] at htx
    have hmem : tx.op ∈ k₁.pendingBlock.failedTxs.map (·.op) := List.mem_map_of_mem htx
    rw [hfailed] at hmem
    simpa using hmem
  obtain ⟨_, paid', hashed, _, _, hs, -, -, rfl⟩ := sealPendingBlock_eq_ok hseal
  obtain ⟨rfl, rfl⟩ : us = _ ∧ paid = paid' := Prod.mk.inj (Except.ok.inj (hpaid.symm.trans hs.fees))
  -- the block is published
  have hblock : request.block.executedOps = [.Deposit ⟨⟨7, 0, 5, 3⟩, 2⟩] :=
    (executedOps_of_sealed hs hfailed').trans hops'
  have hdata : ∃ data, request.block.getEthPublicData = .ok data := by
    have hinRange : ∀ op ∈ [ZkSyncOp.Deposit ⟨⟨7, 0, 5, 3⟩, 2⟩], op.InRange := fun op hop => by
      rw [List.mem_singleton.mp hop]
      show 5 < u128Bound
      decide
    obtain ⟨data, hdata⟩ := publicDataOf_inRange hinRange
    unfold Block.getEthPublicData
    rw [hblock, hdata]
    exact ⟨_, rfl⟩
  refine ⟨k₀, tr, k, request, updates, _, hnew, ?_, hcalls, sealStep hseal, hdata, ?_⟩
  · exact hrun.guard fun e he _ => hpackable e.1 (hcalls ▸ List.mem_map_of_mem he)
  rintro ⟨t₀, t, r, t', hload, hblocks, hrestore, hrestored⟩
  have hnil : blocksOf tr = [] := by
    unfold blocksOf
    rw [answers_sent hentries hanswers]
    rfl
  rw [hnil] at hblocks
  obtain rfl : t₀ = t := Except.ok.inj hblocks
  -- the server has account 2
  have hserver : (hashed.getAccount 2).isSome := by
    rw [getAccount_of_rootHash hs.root, ← rel_isSome (hlike.accounts 2)]
    exact htwo
  -- the restorer has not
  obtain ⟨u, hu, hnone⟩ := elsewhere_replayed hload
  obtain ⟨data, hdata⟩ := hdata
  obtain ⟨n, hparsed⟩ := parsed_of_sealed hs hfailed' (by
    rw [hops']
    exact fun op hop => by rw [List.mem_singleton.mp hop]; exact trivial) hdata
  have hfee : request.block.feeAccount = 0 := by
    rw [hs.feeAccount, hrest]
    exact hfeeAccount
  have hrestorer : t'.state.getAccount 2 = none := by
    unfold TreeState.restoreBlock at hrestore
    rw [hdata, Outcome.ok_bind, hparsed, Outcome.ok_bind, hops'] at hrestore
    unfold TreeState.updateTreeStatesFromOpsBlock at hrestore
    dsimp only at hrestore
    rw [executeOperations_noops, List.map_singleton] at hrestore
    simp only [Outcome.bind_eq_ok] at hrestore
    obtain ⟨u', hu', account, -, ⟨feeUpdates, paid₂⟩, hpaid₂, ⟨hash, hashed₂⟩, hroot, _, -, _, -,
      hrestore⟩ := hrestore
    obtain rfl : u = u' := Except.ok.inj (hu.symm.trans hu')
    cases hrestore
    show hashed₂.getAccount 2 = none
    rw [getAccount_of_rootHash hroot]
    obtain ⟨account, -, hinsert⟩ := Outcome.bind_eq_ok.mp hpaid₂
    cases hinsert
    rw [hfee, ZkSyncState.getAccount_insertAccount_of_ne _ _ _ (by decide)]
    exact hnone
  have hsome := (rel_isSome (hrestored.accounts 2)).mp hserver
  rw [hrestorer] at hsome
  cases hsome

end ZkSync
