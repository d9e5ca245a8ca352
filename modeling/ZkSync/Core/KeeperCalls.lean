import ZkSync.Core.StateKeeper
import ZkSync.Lib.Run

/-!
# The calls of the state keeper

What the keeper is asked for, as one alphabet: a priority operation, a
transaction, a batch, to seal the block, and the end of a mini block, where the
keeper either seals or stores the pending block. `KeeperStep` is the transition
relation; a panic takes no step.

`KeeperEffect` reads a call backwards, once: what was checked, what was
executed, what was pushed to the pending block. Everything proved about runs of
the keeper is a case analysis over it.
-/

namespace ZkSync

/-- What the keeper is asked. -/
inductive KeeperCall where
  | priorityOp (op : PriorityOp)
  | tx (tx : SignedZkSyncTx)
  | batch (txs : List SignedZkSyncTx) (batchId : Int)
  | sealBlock
  | endMiniBlock
  deriving DecidableEq

/-- What it answers, with what it sends on. -/
inductive KeeperReply where
  | executed (operations : List ExecutedOperations)
  /-- The block has to be sealed first. -/
  | full
  | sealed (request : BlockCommitRequest) (updates : AppliedUpdatesRequest)
  | stored (pendingBlock : SendablePendingBlock) (updates : AppliedUpdatesRequest)
  deriving DecidableEq

namespace ZkSyncStateKeeper

/-- Sealing answers with the block. -/
def sealReply (env : Env) (k : ZkSyncStateKeeper) :
    Except KeeperPanic (KeeperReply × ZkSyncStateKeeper) := do
  let ((request, updates), k) ← k.sealPendingBlock env
  return (.sealed request updates, k)

/-- The call as the source has it, with the panics told apart. -/
def answer (env : Env) (k : ZkSyncStateKeeper) :
    KeeperCall → Except KeeperPanic (KeeperReply × ZkSyncStateKeeper)
  | .priorityOp op => do
    let (result, k) ← k.applyPriorityOp env op
    match result with
    | .ok execOp => return (.executed [execOp], k)
    | .error _ => return (.full, k)
  | .tx tx => do
    let (result, k) ← k.applyTx env tx
    match result with
    | .ok execOp => return (.executed [execOp], k)
    | .error () => return (.full, k)
  | .batch txs batchId => do
    let (result, k) ← k.applyBatch env txs batchId
    match result with
    | .ok ops => return (.executed ops, k)
    | .error () => return (.full, k)
  | .sealBlock => k.sealReply env
  | .endMiniBlock => do
    let k := k.countIteration
    if k.pendingBlock.pendingBlockIteration > k.iterationsAllowed then k.sealReply env
    else
      let ((pendingBlock, updates), k) ← k.storePendingBlock
      return (.stored pendingBlock updates, k)

end ZkSyncStateKeeper

/-- One call that was answered. -/
def KeeperStep (env : Env) (k : ZkSyncStateKeeper) (e : KeeperCall × KeeperReply)
    (k' : ZkSyncStateKeeper) : Prop :=
  k.answer env e.1 = .ok (e.2, k')

/-! ## Panics -/

section Panics

universe u

variable {α : Type u}

/-- What is unwrapped in the source becomes a panic. -/
theorem infallible_eq_error {source : String → KeeperPanic} {x : Outcome α} {e : KeeperPanic} :
    infallible source x = .error e ↔ ∃ f, x = .error f ∧ e = source f.message := by
  cases x with
  | ok a => exact ⟨fun h => (by cases h), fun ⟨_, h, _⟩ => (by cases h)⟩
  | error f =>
    exact ⟨fun h => ⟨f, rfl, (Except.error.inj h).symm⟩,
      fun ⟨_, h, he⟩ => (by cases h; rw [he]; rfl)⟩

/-- The panic comes from a function the keeper calls. -/
def KeeperPanic.IsCall (e : KeeperPanic) : Prop := ∃ message, e = .call message

/-- Such a panic is one of the call itself. -/
theorem isCall_infallible {x : Outcome α} {e : KeeperPanic} (h : infallible .call x = .error e) :
    e.IsCall := by
  obtain ⟨f, -, rfl⟩ := infallible_eq_error.mp h
  exact ⟨_, rfl⟩

theorem isCall_attempt {x : Outcome α} {e : KeeperPanic} (h : attempt x = .error e) :
    e.IsCall := by
  cases x with
  | ok a => cases h
  | error f =>
    cases f with
    | error message => cases h
    | panic message =>
      cases h
      exact ⟨_, rfl⟩

end Panics

/-! ## Admission -/

/-- The pending block moved in the counters of the admission only. -/
def Counted (p p' : PendingBlock) : Prop :=
  p' = { p with
    gasCounter := p'.gasCounter
    withdrawalsAmount := p'.withdrawalsAmount
    fastProcessingRequired := p'.fastProcessingRequired }

theorem Counted.refl (p : PendingBlock) : Counted p p := rfl

theorem Counted.trans {p p' p'' : PendingBlock} (h : Counted p p') (h' : Counted p' p'') :
    Counted p p'' := by
  unfold Counted at h h' ⊢
  rw [h', h]

namespace PendingBlock

variable {env : Env} {state : ZkSyncState} {p p' : PendingBlock}

/-- Counting withdrawals changes a counter only. -/
theorem counted_countWithdrawal {overflowChecks marksFast : Bool} {tx : ZkSyncTx}
    (h : p.countWithdrawal overflowChecks marksFast tx = .ok p') : Counted p p' := by
  unfold countWithdrawal at h
  split at h
  next =>
    rw [Outcome.bind_eq_ok] at h
    obtain ⟨n, -, h⟩ := h
    cases h
    rfl
  next =>
    cases h
    rfl

/-- A transaction that is refused was counted all the same. -/
theorem counted_admitTx {maxWithdrawals : Nat} {marksFast admitted : Bool} {tx : ZkSyncTx}
    (h : p.admitTx env state maxWithdrawals marksFast tx = .ok (admitted, p')) : Counted p p' := by
  unfold admitTx at h
  simp only [Outcome.bind_eq_ok] at h
  obtain ⟨op, -, gasCounter, -, h⟩ := h
  cases gasCounter with
  | none =>
    cases h
    rfl
  | some gasCounter =>
    dsimp only at h
    rw [Outcome.bind_eq_ok] at h
    obtain ⟨p₁, hp₁, h⟩ := h
    cases h
    have hgas : Counted p { p with gasCounter := gasCounter } := rfl
    exact hgas.trans (counted_countWithdrawal hp₁)

/-- So was a batch. -/
theorem counted_admitBatch {maxWithdrawals : Nat} {txs : List ZkSyncTx} {admitted : Bool}
    (h : p.admitBatch env state maxWithdrawals txs = .ok (admitted, p')) : Counted p p' := by
  induction txs generalizing p with
  | nil =>
    cases h
    rfl
  | cons tx txs ih =>
    unfold admitBatch at h
    rw [Outcome.bind_eq_ok] at h
    obtain ⟨⟨b, p₁⟩, hp₁, h⟩ := h
    have h₁ := counted_admitTx hp₁
    cases b with
    | true => exact h₁.trans (ih h)
    | false =>
      cases h
      exact h₁

/-- What goes wrong there is a panic of the call. -/
theorem isCall_admitTx {maxWithdrawals : Nat} {marksFast : Bool} {tx : ZkSyncTx} {e : KeeperPanic}
    (h : p.admitTx env state maxWithdrawals marksFast tx = .error e) : e.IsCall := by
  unfold admitTx at h
  rcases Outcome.bind_eq_error.mp h with h | ⟨op, -, h⟩
  · exact isCall_attempt h
  rcases Outcome.bind_eq_error.mp h with h | ⟨gasCounter, -, h⟩
  · cases op with
    | ok op => exact isCall_infallible h
    | error e => cases h
  cases gasCounter with
  | none => cases h
  | some gasCounter =>
    rcases Outcome.bind_eq_error.mp h with h | ⟨p₁, -, h⟩
    · unfold countWithdrawal at h
      split at h
      next =>
        rcases Outcome.bind_eq_error.mp h with h | ⟨n, -, h⟩
        · exact isCall_infallible h
        · cases h
      next => cases h
    · cases h

theorem isCall_admitBatch {maxWithdrawals : Nat} {txs : List ZkSyncTx} {e : KeeperPanic}
    (h : p.admitBatch env state maxWithdrawals txs = .error e) : e.IsCall := by
  induction txs generalizing p with
  | nil => cases h
  | cons tx txs ih =>
    unfold admitBatch at h
    rcases Outcome.bind_eq_error.mp h with h | ⟨⟨b, p₁⟩, -, h⟩
    · exact isCall_admitTx h
    · cases b with
      | true => exact ih h
      | false => cases h

/-! ## Pushing -/

/-- A push, read backwards. -/
theorem pushSuccess_eq_ok {overflowChecks : Bool} {chunksNeeded : Nat} {success : OpSuccess}
    {executed : UInt32 → ExecutedOperations} {e : ExecutedOperations} :
    p.pushSuccess overflowChecks chunksNeeded success executed = .ok (e, p') ↔
      ∃ chunksLeft index, usizeSub overflowChecks p.chunksLeft chunksNeeded = .ok chunksLeft ∧
        u32Increment overflowChecks p.pendingOpBlockIndex = .ok index ∧
        e = executed p.pendingOpBlockIndex ∧ p' = { p with
          chunksLeft := chunksLeft
          accountUpdates := p.accountUpdates ++ success.updates
          collectedFees := p.collectedFees ++ success.fee.toList
          pendingOpBlockIndex := index
          successOperations := p.successOperations ++ [executed p.pendingOpBlockIndex] } := by
  unfold pushSuccess
  simp only [Outcome.bind_eq_ok, infallible_eq_ok, Outcome.pure_eq, Except.ok.injEq,
    Prod.mk.injEq]
  constructor
  · rintro ⟨c, hc, i, hi, he, hp⟩
    exact ⟨c, i, hc, hi, he.symm, hp.symm⟩
  · rintro ⟨c, i, hc, hi, he, hp⟩
    exact ⟨c, hc, i, hi, he.symm, hp.symm⟩

/-- The only panic of a push that is not a call is the subtraction. -/
theorem pushSuccess_eq_error {overflowChecks : Bool} {chunksNeeded : Nat} {success : OpSuccess}
    {executed : UInt32 → ExecutedOperations} {e : KeeperPanic}
    (h : p.pushSuccess overflowChecks chunksNeeded success executed = .error e) :
    e.IsCall ∨ p.chunksLeft < chunksNeeded := by
  unfold pushSuccess at h
  rcases Outcome.bind_eq_error.mp h with h | ⟨chunksLeft, -, h⟩
  · obtain ⟨f, hf, -⟩ := infallible_eq_error.mp h
    refine Or.inr (Nat.lt_of_not_le fun hle => ?_)
    unfold usizeSub at hf
    rw [if_pos hle] at hf
    cases hf
  · rcases Outcome.bind_eq_error.mp h with h | ⟨index, -, h⟩
    · exact Or.inl (isCall_infallible h)
    · cases h

end PendingBlock

/-! ## Sealing and storing, read backwards -/

/-- What sealing made of the pending block `p`: the state paid the fees and
asked for its root hash, and `p` became the block of the request. -/
structure Sealed (env : Env) (k : ZkSyncStateKeeper) (request : BlockCommitRequest)
    (updates : AppliedUpdatesRequest) (feeUpdates : AccountUpdates) (paid hashed : ZkSyncState) :
    Prop where
  fees : k.state.collectFee k.pendingBlock.collectedFees k.feeAccountId = .ok (feeUpdates, paid)
  root : paid.rootHash env.hasher = .ok (request.block.newRootHash, hashed)
  number : request.block.blockNumber = hashed.blockNumber
  feeAccount : request.block.feeAccount = k.feeAccountId
  transactions : request.block.blockTransactions =
    k.pendingBlock.successOperations ++ k.pendingBlock.failedTxs.map .Tx
  priorityOps : request.block.processedPriorityOps =
    (k.pendingBlock.unprocessedPriorityOpBefore, k.currentUnprocessedPriorityOp)
  size : smallestBlockSizeForChunks request.block.chunksUsed k.availableBlockChunkSizes =
    .ok request.block.blockChunksSize
  commitGas : request.block.commitGasLimit = k.pendingBlock.gasCounter.commitGasLimit
  verifyGas : request.block.verifyGasLimit = k.pendingBlock.gasCounter.verifyGasLimit
  accounts : request.accountsUpdated = k.pendingBlock.accountUpdates ++ feeUpdates
  stored_le : k.pendingBlock.storedAccountUpdates ≤ request.accountsUpdated.length
  updates_eq : updates = ⟨request.accountsUpdated.drop k.pendingBlock.storedAccountUpdates,
    k.pendingBlock.storedAccountUpdates⟩

/-- A slice that begins behind the end is a panic. -/
theorem sliceFrom_eq_ok {α : Type} {list slice : List α} {start : Nat} :
    sliceFrom list start = .ok slice ↔ start ≤ list.length ∧ slice = list.drop start := by
  unfold sliceFrom
  exact Outcome.guarded_eq_ok Outcome.assert_eq_ok

/-- What sealing did, if it succeeded. -/
theorem sealPendingBlock_eq_ok {env : Env} {k k' : ZkSyncStateKeeper}
    {request : BlockCommitRequest} {updates : AppliedUpdatesRequest}
    (h : k.sealPendingBlock env = .ok ((request, updates), k')) :
    ∃ feeUpdates paid hashed blockNumber maxBlockSize,
      Sealed env k request updates feeUpdates paid hashed ∧
      u32Increment env.overflowChecks hashed.blockNumber = .ok blockNumber ∧
      k.availableBlockChunkSizes.getLast? = some maxBlockSize ∧
      k' = { k with
        state := { hashed with blockNumber := blockNumber }
        pendingBlock := PendingBlock.new k.currentUnprocessedPriorityOp maxBlockSize } := by
  unfold ZkSyncStateKeeper.sealPendingBlock at h
  simp only [Outcome.bind_eq_ok, infallible_eq_ok, Outcome.expect_eq_ok, sliceFrom_eq_ok] at h
  obtain ⟨maxBlockSize, hmax, ⟨feeUpdates, paid⟩, hfees, ⟨hash, hashed⟩, hroot, block, hblock,
    notStored, ⟨hle, rfl⟩, blockNumber, hnumber, h⟩ := h
  unfold Block.newFromAvailableBlockSizes at hblock
  rw [Outcome.bind_eq_ok] at hblock
  obtain ⟨size, hsize, hblock⟩ := hblock
  obtain rfl := Except.ok.inj hblock
  cases h
  exact ⟨feeUpdates, paid, hashed, blockNumber, maxBlockSize,
    ⟨hfees, hroot, rfl, rfl, rfl, rfl, hsize, rfl, rfl, rfl, hle, rfl⟩, hnumber, hmax, rfl⟩

/-- What storing the pending block did, if it succeeded. -/
theorem storePendingBlock_eq_ok {k k' : ZkSyncStateKeeper} {pendingBlock : SendablePendingBlock}
    {updates : AppliedUpdatesRequest}
    (h : k.storePendingBlock = .ok ((pendingBlock, updates), k')) :
    k.pendingBlock.storedAccountUpdates ≤ k.pendingBlock.accountUpdates.length ∧
    pendingBlock =
      { number := k.state.blockNumber
        chunksLeft := k.pendingBlock.chunksLeft
        unprocessedPriorityOpBefore := k.pendingBlock.unprocessedPriorityOpBefore
        pendingBlockIteration := k.pendingBlock.pendingBlockIteration
        successOperations := k.pendingBlock.successOperations
        failedTxs := k.pendingBlock.failedTxs } ∧
    updates = ⟨k.pendingBlock.accountUpdates.drop k.pendingBlock.storedAccountUpdates,
      k.pendingBlock.storedAccountUpdates⟩ ∧
    k' = { k with pendingBlock := { k.pendingBlock with
      storedAccountUpdates := k.pendingBlock.accountUpdates.length } } := by
  unfold ZkSyncStateKeeper.storePendingBlock at h
  simp only [Outcome.bind_eq_ok, infallible_eq_ok, sliceFrom_eq_ok] at h
  obtain ⟨notStored, ⟨hle, rfl⟩, h⟩ := h
  cases h
  exact ⟨hle, rfl, rfl, rfl⟩

/-! ## Calls, read backwards -/

/-- How the keeper answers. -/
inductive KeeperEffect (env : Env) (k : ZkSyncStateKeeper) :
    KeeperCall → KeeperReply → ZkSyncStateKeeper → Prop
  | full {call : KeeperCall} {p : PendingBlock} (counted : Counted k.pendingBlock p) :
      KeeperEffect env k call .full { k with pendingBlock := p }
  | priorityOp {op : PriorityOp} {nonExecutedOp : ZkSyncOp} {gasCounter : GasCounter}
      {success : OpSuccess} {state : ZkSyncState} {e : ExecutedOperations} {p : PendingBlock}
      {next : UInt64} (room : op.data.chunks ≤ k.pendingBlock.chunksLeft)
      (converted : k.state.priorityOpToZksyncOp op.data = .ok nonExecutedOp)
      (gas : k.pendingBlock.gasCounter.addOp nonExecutedOp = .ok (some gasCounter))
      (executed : k.state.executePriorityOp op.data = .ok (success, state))
      (pushed : { k.pendingBlock with gasCounter := gasCounter }.pushSuccess env.overflowChecks
        op.data.chunks success (fun i => .PriorityOp ⟨op, success.executedOp, i⟩) = .ok (e, p))
      (counter : u64Increment env.overflowChecks k.currentUnprocessedPriorityOp = .ok next) :
      KeeperEffect env k (.priorityOp op) (.executed [e])
        { k with state := state, pendingBlock := p, currentUnprocessedPriorityOp := next }
  | tx {tx : SignedZkSyncTx} {chunksNeeded : Nat} {p p' : PendingBlock}
      {result : Except String OpSuccess} {state : ZkSyncState} {e : ExecutedOperations}
      (estimate : k.state.chunksForTx tx.tx = .ok chunksNeeded)
      (room : chunksNeeded ≤ k.pendingBlock.chunksLeft)
      (admitted : k.pendingBlock.admitTx env k.state k.maxNumberOfWithdrawalsPerBlock true tx.tx =
        .ok (true, p))
      (executed : ZkSyncStateKeeper.executeTxResult env k.state tx.tx = .ok (result, state))
      (pushed : p.pushTxResult env.overflowChecks chunksNeeded none tx result = .ok (e, p')) :
      KeeperEffect env k (.tx tx) (.executed [e]) { k with state := state, pendingBlock := p' }
  | batch {txs : List SignedZkSyncTx} {batchId : Int} {chunksNeeded : Nat} {p p' : PendingBlock}
      {results : BatchResults} {state : ZkSyncState} {ops : List ExecutedOperations}
      (estimate : k.state.chunksForBatch txs = .ok chunksNeeded)
      (room : chunksNeeded ≤ k.pendingBlock.chunksLeft)
      (admitted : k.pendingBlock.admitBatch env k.state k.maxNumberOfWithdrawalsPerBlock
        (txs.map (·.tx)) = .ok (true, p))
      (executed : k.state.executeTxsBatch env txs = .ok (results, state))
      (pushed : p.pushBatchResults env.overflowChecks chunksNeeded batchId (txs.zip results) =
        .ok (ops, p')) :
      KeeperEffect env k (.batch txs batchId) (.executed ops)
        { k with state := state, pendingBlock := p' }
  | sealed {call : KeeperCall} {request : BlockCommitRequest} {updates : AppliedUpdatesRequest}
      {k₁ k' : ZkSyncStateKeeper}
      (before : call = .sealBlock ∧ k₁ = k ∨ call = .endMiniBlock ∧ k₁ = k.countIteration)
      (h : k₁.sealPendingBlock env = .ok ((request, updates), k')) :
      KeeperEffect env k call (.sealed request updates) k'
  | stored {pendingBlock : SendablePendingBlock} {updates : AppliedUpdatesRequest}
      {k' : ZkSyncStateKeeper}
      (h : k.countIteration.storePendingBlock = .ok ((pendingBlock, updates), k')) :
      KeeperEffect env k .endMiniBlock (.stored pendingBlock updates) k'

section Effects

variable {env : Env} {k k' : ZkSyncStateKeeper}

/-- A priority operation is executed, or finds the block full. -/
theorem applyPriorityOp_effect {op : PriorityOp} {r : Except PriorityOp ExecutedOperations}
    (h : k.applyPriorityOp env op = .ok (r, k')) :
    KeeperEffect env k (.priorityOp op)
      (match r with | .ok e => .executed [e] | .error _ => .full) k' := by
  unfold ZkSyncStateKeeper.applyPriorityOp at h
  dsimp only at h
  split at h
  next =>
    cases h
    exact .full (Counted.refl _)
  next hroom =>
    simp only [Outcome.bind_eq_ok, infallible_eq_ok] at h
    obtain ⟨nonExecutedOp, hconv, gasCounter, hgas, h⟩ := h
    cases gasCounter with
    | none =>
      cases h
      exact .full (Counted.refl _)
    | some gasCounter =>
      simp only [Outcome.bind_eq_ok, infallible_eq_ok] at h
      obtain ⟨⟨success, state⟩, hexec, ⟨e, p⟩, hpush, next, hnext, h⟩ := h
      cases h
      exact .priorityOp (Nat.le_of_not_lt hroom) hconv hgas hexec hpush hnext

/-- A transaction is executed, fails, or finds the block full. -/
theorem applyTx_effect {tx : SignedZkSyncTx} {r : Except Unit ExecutedOperations}
    (h : k.applyTx env tx = .ok (r, k')) :
    KeeperEffect env k (.tx tx) (match r with | .ok e => .executed [e] | .error () => .full) k' := by
  unfold ZkSyncStateKeeper.applyTx at h
  rw [Outcome.bind_eq_ok] at h
  obtain ⟨chunksNeeded, hest, h⟩ := h
  rw [infallible_eq_ok] at hest
  split at h
  next =>
    cases h
    exact .full (Counted.refl _)
  next hroom =>
    rw [Outcome.bind_eq_ok] at h
    obtain ⟨⟨admitted, p⟩, hadm, h⟩ := h
    cases admitted with
    | false =>
      cases h
      exact .full (PendingBlock.counted_admitTx hadm)
    | true =>
      simp only [if_true, Outcome.bind_eq_ok] at h
      obtain ⟨⟨result, state⟩, hexec, ⟨e, p'⟩, hpush, h⟩ := h
      cases h
      exact .tx hest (Nat.le_of_not_lt hroom) hadm hexec hpush

/-- A batch is executed, fails as a whole, or finds the block full. -/
theorem applyBatch_effect {txs : List SignedZkSyncTx} {batchId : Int}
    {r : Except Unit (List ExecutedOperations)} (h : k.applyBatch env txs batchId = .ok (r, k')) :
    KeeperEffect env k (.batch txs batchId)
      (match r with | .ok ops => .executed ops | .error () => .full) k' := by
  unfold ZkSyncStateKeeper.applyBatch at h
  rw [Outcome.bind_eq_ok] at h
  obtain ⟨chunksNeeded, hest, h⟩ := h
  rw [infallible_eq_ok] at hest
  split at h
  next =>
    cases h
    exact .full (Counted.refl _)
  next hroom =>
    rw [Outcome.bind_eq_ok] at h
    obtain ⟨⟨admitted, p⟩, hadm, h⟩ := h
    cases admitted with
    | false =>
      cases h
      exact .full (PendingBlock.counted_admitBatch hadm)
    | true =>
      simp only [if_true, Outcome.bind_eq_ok, infallible_eq_ok] at h
      obtain ⟨⟨results, state⟩, hexec, ⟨ops, p'⟩, hpush, h⟩ := h
      cases h
      exact .batch hest (Nat.le_of_not_lt hroom) hadm hexec hpush

/-- Each step of the keeper does one of the things that are listed. -/
theorem KeeperStep.effect {e : KeeperCall × KeeperReply} (h : KeeperStep env k e k') :
    KeeperEffect env k e.1 e.2 k' := by
  obtain ⟨call, reply⟩ := e
  unfold KeeperStep ZkSyncStateKeeper.answer at h
  cases call with
  | priorityOp op =>
    rw [Outcome.bind_eq_ok] at h
    obtain ⟨⟨r, k₁⟩, happ, h⟩ := h
    have heff := applyPriorityOp_effect happ
    cases r <;> cases h <;> exact heff
  | tx tx =>
    rw [Outcome.bind_eq_ok] at h
    obtain ⟨⟨r, k₁⟩, happ, h⟩ := h
    have heff := applyTx_effect happ
    cases r <;> cases h <;> exact heff
  | batch txs batchId =>
    rw [Outcome.bind_eq_ok] at h
    obtain ⟨⟨r, k₁⟩, happ, h⟩ := h
    have heff := applyBatch_effect happ
    cases r <;> cases h <;> exact heff
  | sealBlock =>
    unfold ZkSyncStateKeeper.sealReply at h
    rw [Outcome.bind_eq_ok] at h
    obtain ⟨⟨⟨request, updates⟩, k₁⟩, hseal, h⟩ := h
    cases h
    exact .sealed (Or.inl ⟨rfl, rfl⟩) hseal
  | endMiniBlock =>
    dsimp only at h
    split at h
    next =>
      unfold ZkSyncStateKeeper.sealReply at h
      rw [Outcome.bind_eq_ok] at h
      obtain ⟨⟨⟨request, updates⟩, k₁⟩, hseal, h⟩ := h
      cases h
      exact .sealed (Or.inr ⟨rfl, rfl⟩) hseal
    next =>
      rw [Outcome.bind_eq_ok] at h
      obtain ⟨⟨⟨pendingBlock, updates⟩, k₁⟩, hstore, h⟩ := h
      cases h
      exact .stored hstore

end Effects

end ZkSync
