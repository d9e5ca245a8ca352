import ZkSync.Core.Gas
import ZkSync.Core.KeeperAlike

/-!
# The operations of sealed blocks

Whatever the keeper seals was executed by a handler, on some state: no other
operation gets into a block. And a sealed block takes one of the configured sizes
that its operations fit. Both hold of every run from `new`.
-/

namespace ZkSync

/-- The operation is the result of a transaction or of a priority operation. -/
def ZkSyncOp.ByHandler (env : Env) (op : ZkSyncOp) : Prop :=
  ∃ (s s' : ZkSyncState) (r : OpSuccess), r.executedOp = op ∧
    ((∃ p, s.executePriorityOp p = .ok (r, s')) ∨ ∃ tx, s.executeTx env tx = .ok (r, s'))

/-- Closing an account is disabled: no handler executes it. -/
theorem ZkSyncOp.ByHandler.not_close {env : Env} {op : ZkSyncOp} (h : op.ByHandler env) :
    ∀ c, op ≠ .Close c := by
  rintro c rfl
  obtain ⟨s, s', r, hop, ⟨p, hexec⟩ | ⟨tx, hexec⟩⟩ := h
  · cases executePriorityOp_effect hexec <;> cases hop
  · cases executeTx_effect hexec <;> cases hop

/-- Nothing but executed operations is pending. -/
structure PendingBlock.Handled (env : Env) (p : PendingBlock) : Prop where
  ops : ∀ op ∈ p.executedOps, op.ByHandler env
  failed : ∀ tx ∈ p.failedTxs, tx.op = none

structure Block.Handled (env : Env) (sizes : List Nat) (block : Block) : Prop where
  ops : ∀ op ∈ block.blockTransactions.filterMap ExecutedOperations.getExecutedOp,
    op.ByHandler env
  size : block.blockChunksSize ∈ sizes
  chunks : block.chunksUsed ≤ block.blockChunksSize

section Handled

variable {env : Env} {p p' : PendingBlock} {ops : List ZkSyncOp} {k k' : ZkSyncStateKeeper}

theorem PendingBlock.Handled.counted (h : p.Handled env) (hcounted : Counted p p') :
    p'.Handled env := by
  unfold Counted at hcounted
  rw [hcounted]
  exact ⟨h.ops, h.failed⟩

theorem PendingBlock.Handled.push (h : p.Handled env) (hpushed : PushedOps ops p p')
    (hops : ∀ op ∈ ops, op.ByHandler env) : p'.Handled env := by
  refine ⟨fun op hop => ?_, hpushed.failed h.failed⟩
  rw [hpushed.ops] at hop
  rcases List.mem_append.mp hop with hop | hop
  · exact h.ops op hop
  · exact hops op hop

theorem handled_new (before : UInt64) (chunksLeft : Nat) :
    (PendingBlock.new before chunksLeft).Handled env :=
  ⟨fun _ h => absurd h List.not_mem_nil, fun _ h => absurd h List.not_mem_nil⟩

theorem handled_countIteration (h : k.pendingBlock.Handled env) :
    k.countIteration.pendingBlock.Handled env := by
  unfold ZkSyncStateKeeper.countIteration
  split
  · exact ⟨h.ops, h.failed⟩
  · exact h

theorem byHandler_txRun {s s' : ZkSyncState} {es : List Executed} (h : Run (TxStep env) s es s') :
    ∀ op ∈ es.map (·.2.executedOp), op.ByHandler env := by
  induction h with
  | nil => exact fun _ h => absurd h List.not_mem_nil
  | cons hstep _ ih =>
    intro op hop
    rcases List.mem_cons.mp hop with rfl | hop
    · exact ⟨_, _, _, rfl, .inr ⟨_, hstep⟩⟩
    · exact ih op hop

theorem handled_of_sealed (h : k.pendingBlock.Handled env) {request : BlockCommitRequest}
    {updates : AppliedUpdatesRequest} {feeUpdates : AccountUpdates} {paid hashed : ZkSyncState}
    (hs : Sealed env k request updates feeUpdates paid hashed) :
    request.block.Handled env k.availableBlockChunkSizes := by
  obtain ⟨hmem, hle⟩ := smallestBlockSizeForChunks_eq_ok hs.size
  refine ⟨fun op hop => ?_, hmem, hle⟩
  rw [hs.transactions, List.filterMap_append] at hop
  rcases List.mem_append.mp hop with hop | hop
  · exact h.ops op hop
  · obtain ⟨executed, hexecuted, hop⟩ := List.mem_filterMap.mp hop
    obtain ⟨tx, htx, rfl⟩ := List.mem_map.mp hexecuted
    have hnone : tx.op = some op := hop
    rw [h.failed tx htx] at hnone
    cases hnone

/-- A step keeps the pending block handled and the sizes as they are; what it seals
is handled. -/
theorem handled_step (h : k.pendingBlock.Handled env) {e : KeeperCall × KeeperReply}
    (hstep : KeeperStep env k e k') :
    (k'.pendingBlock.Handled env ∧ k'.availableBlockChunkSizes = k.availableBlockChunkSizes) ∧
      ∀ request updates, .Block request updates ∈ e.2.sent →
        request.block.Handled env k.availableBlockChunkSizes := by
  obtain ⟨call, reply⟩ := e
  have heff := hstep.effect
  dsimp only at heff ⊢
  have hsilent : ∀ request updates, CommitRequest.Block request updates ∈ ([] : List CommitRequest) →
      request.block.Handled env k.availableBlockChunkSizes := fun _ _ h => absurd h List.not_mem_nil
  cases heff with
  | full counted => exact ⟨⟨h.counted counted, rfl⟩, hsilent⟩
  | @priorityOp op nonExecutedOp gasCounter success state e p next _ _ _ executed pushed =>
    have hcharged : { k.pendingBlock with gasCounter := gasCounter }.Handled env :=
      ⟨h.ops, h.failed⟩
    refine ⟨⟨hcharged.push (pushedOps_pushSuccess (by exact fun _ => rfl) pushed) ?_, rfl⟩, hsilent⟩
    intro op hop
    rw [List.mem_singleton.mp hop]
    exact ⟨_, _, _, rfl, .inl ⟨_, executed⟩⟩
  | @tx tx chunksNeeded p p' result state e _ _ admitted executed pushed =>
    have hcounted := h.counted (PendingBlock.counted_admitTx admitted)
    refine ⟨⟨hcounted.push (pushedOps_pushTxResult pushed) ?_, rfl⟩, hsilent⟩
    intro op hop
    cases result with
    | ok success =>
      obtain rfl : op = success.executedOp := List.mem_singleton.mp hop
      exact ⟨_, _, _, rfl, .inr ⟨_, executeTx_of_result executed⟩⟩
    | error error => cases hop
  | @batch txs batchId chunksNeeded p p' results state ops _ _ admitted executed pushed =>
    have hcounted := h.counted (PendingBlock.counted_admitBatch admitted)
    have hpushed := pushedOps_pushBatchResults pushed
    cases executeTxsBatch_outcome executed with
    | @done es _ batch run =>
      have hlength : txs.length = es.length := by simpa using congrArg List.length batch
      rw [executedOps_ok hlength] at hpushed
      exact ⟨⟨hcounted.push hpushed (byHandler_txRun run), rfl⟩, hsilent⟩
    | undone =>
      rw [executedOps_error] at hpushed
      exact ⟨⟨hcounted.push hpushed fun _ h => absurd h List.not_mem_nil, rfl⟩, hsilent⟩
  | @sealed _ request updates k₁ _ before hseal =>
    -- the block carries what was pushed, and the pending block is empty behind it
    have hk : k₁.pendingBlock.Handled env ∧
        k₁.availableBlockChunkSizes = k.availableBlockChunkSizes := by
      rcases before with ⟨-, rfl⟩ | ⟨-, rfl⟩
      · exact ⟨h, rfl⟩
      · refine ⟨handled_countIteration h, ?_⟩
        unfold ZkSyncStateKeeper.countIteration
        split <;> rfl
    obtain ⟨feeUpdates, paid, hashed, _, _, hs, -, -, rfl⟩ := sealPendingBlock_eq_ok hseal
    refine ⟨⟨handled_new _ _, hk.2⟩, fun request' updates' hmem => ?_⟩
    cases List.mem_singleton.mp hmem
    rw [← hk.2]
    exact handled_of_sealed hk.1 hs
  | stored hstore =>
    have hc := handled_countIteration h
    obtain ⟨-, -, -, rfl⟩ := storePendingBlock_eq_ok hstore
    refine ⟨⟨⟨hc.ops, hc.failed⟩, ?_⟩, fun request' updates' hmem => ?_⟩
    · unfold ZkSyncStateKeeper.countIteration
      split <;> rfl
    · cases List.mem_singleton.mp hmem

/-- Of every run: what is sealed was executed, and fits its block. -/
theorem sealed_handled {initialState : ZkSyncStateInitParams} {feeAccountAddress : Address}
    {sizes : List Nat} {maxMini fastMini maxWithdrawals : Nat} {k₀ : ZkSyncStateKeeper}
    (hnew : ZkSyncStateKeeper.new env initialState feeAccountAddress sizes maxMini fastMini
      maxWithdrawals = .ok k₀) {tr : List (KeeperCall × KeeperReply)}
    (hrun : Run (KeeperStep env) k₀ tr k) :
    ∀ request updates, .Block request updates ∈ sentBy tr → request.block.Handled env sizes := by
  obtain ⟨_, _, _, -, -, hk⟩ := ZkSyncStateKeeper.new_eq_ok hnew
  have hstart : k₀.pendingBlock.Handled env ∧ k₀.availableBlockChunkSizes = sizes := by
    rw [hk]
    exact ⟨handled_new _ _, rfl⟩
  clear hnew hk
  induction hrun with
  | nil => exact fun _ _ h => absurd h List.not_mem_nil
  | @cons k k₁ k' e tr hstep _ ih =>
    obtain ⟨⟨hk₁, hsame⟩, hsent⟩ := handled_step hstart.1 hstep
    intro request updates hmem
    have hmem' : CommitRequest.Block request updates ∈ e.2.sent ++ sentBy tr := hmem
    rcases List.mem_append.mp hmem' with hmem' | hmem'
    · exact hstart.2 ▸ hsent request updates hmem'
    · exact ih ⟨hk₁, hsame.trans hstart.2⟩ request updates hmem'

end Handled

/-! ## Blocks of given operations -/

/-- Calls that were computed are answered by a new keeper, and sealed into a block of
the computed operations. -/
theorem exists_block_of_calls {a : Account} (calls : List KeeperCall) (ops : List ZkSyncOp)
    (ha : a.Fits)
    (hfee : (oneAccountKeeper a).state.getAccountByAddress 1 = .ok (some (0, a)))
    (hentries : ∀ call ∈ calls, call.IsEntry) (htok : ∀ call ∈ calls, call.FeeTokenOk)
    (hmakes : (((oneAccountKeeper a).answers (Env.built 1 false) calls).toOption.map fun r =>
      r.2.sealable && (decide (r.2.pendingBlock.failedTxs = []) &&
        decide (r.2.pendingBlock.executedOps = ops))) = some true) :
    ∃ k₀ tr k k' request updates,
      ZkSyncStateKeeper.new (Env.built 1 false) (oneAccountParams a) 1 [6, 30] 10 2 5 = .ok k₀ ∧
      k₀.answers (Env.built 1 false) calls = .ok (tr, k) ∧
      KeeperStep (Env.built 1 false) k (.sealBlock, .sealed request updates) k' ∧
      request.block.blockTransactions.filterMap ExecutedOperations.getExecutedOp = ops := by
  obtain ⟨k₀, hnew, halike, hhashable⟩ := new_oneAccountKeeper ha hfee
  obtain ⟨tr, k, request, updates, k', hanswers, hblock, hseal⟩ :=
    exists_sealed_computed (f := fun p => decide (p.failedTxs = []) && decide (p.executedOps = ops))
      halike hhashable rfl hentries htok hmakes
  simp only [Bool.and_eq_true, decide_eq_true_eq] at hblock
  obtain ⟨hfailed, hops⟩ := hblock
  obtain ⟨_, _, _, _, _, hs, -⟩ := sealPendingBlock_eq_ok hseal
  refine ⟨k₀, tr, k, k', request, updates, hnew, hanswers, sealStep hseal, ?_⟩
  rw [hs.transactions, hfailed, List.map_nil, List.append_nil]
  exact hops

/-- One call is enough for a block. -/
theorem exists_block {a : Account} (call : KeeperCall) (ops : List ZkSyncOp) (ha : a.Fits)
    (hfee : (oneAccountKeeper a).state.getAccountByAddress 1 = .ok (some (0, a)))
    (hentry : call.IsEntry) (htok : call.FeeTokenOk)
    (hmakes : (((oneAccountKeeper a).answers (Env.built 1 false) [call]).toOption.map fun r =>
      r.2.sealable && (decide (r.2.pendingBlock.failedTxs = []) &&
        decide (r.2.pendingBlock.executedOps = ops))) = some true) :
    ∃ k₀ k k' reply request updates,
      ZkSyncStateKeeper.new (Env.built 1 false) (oneAccountParams a) 1 [6, 30] 10 2 5 = .ok k₀ ∧
      KeeperStep (Env.built 1 false) k₀ (call, reply) k ∧
      KeeperStep (Env.built 1 false) k (.sealBlock, .sealed request updates) k' ∧
      request.block.blockTransactions.filterMap ExecutedOperations.getExecutedOp = ops := by
  obtain ⟨k₀, tr, k, k', request, updates, hnew, hanswers, hseal, hops⟩ :=
    exists_block_of_calls [call] ops ha hfee
      (fun c hc => by rw [List.mem_singleton.mp hc]; exact hentry)
      (fun c hc => by rw [List.mem_singleton.mp hc]; exact htok) hmakes
  obtain ⟨reply, -, hstep⟩ := answers_single hanswers
  exact ⟨k₀, k, k', reply, request, updates, hnew, hstep, hseal, hops⟩

end ZkSync
