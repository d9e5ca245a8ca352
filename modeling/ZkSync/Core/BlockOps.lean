import ZkSync.Core.SealedBlocks
import ZkSync.Core.Stream

/-!
# The operations of a block, from execution to the committer

What the keeper executes goes to the end of the pending block: successes to
`success_operations`, failures to `failed_txs`. So over a run, the successes are
the operations of the sealed blocks, one block after the other, followed by those
of the pending block, and nothing is lost, repeated or reordered between the
calls of the keeper and the requests it sends.

`GrowsTo` says this of one call. `BlockOps` is what holds of the operations
of a block wherever they are: they are numbered, and each operation was made of
the transaction or the priority operation it stands beside.
-/

namespace ZkSync

/-! ## An operation and what it was made of -/

theorem TxEffect.tryGetTx {env : Env} {s s' : ZkSyncState} {tx : ZkSyncTx} {r : OpSuccess}
    (h : TxEffect env s tx r s') : r.executedOp.tryGetTx = some tx := by
  cases h <;> rfl

theorem PriorityEffect.tryGetPriorityOp {s s' : ZkSyncState} {op : ZkSyncPriorityOp} {r : OpSuccess}
    (h : PriorityEffect s op r s') : r.executedOp.tryGetPriorityOp = some op := by
  cases h <;> rfl

/-- The record of an execution: a success has the operation that was made of the
transaction, a failure has none. -/
def ExecutedOperations.Faithful : ExecutedOperations → Prop
  | .Tx tx => (tx.success = true ∧ ∃ op, tx.op = some op ∧ op.tryGetTx = some tx.signedTx.tx) ∨
      (tx.success = false ∧ tx.op = none ∧ tx.blockIndex = none)
  | .PriorityOp op => op.op.tryGetPriorityOp = some op.priorityOp.data

/-- The operations of a block: its successes in their order, and its failures. -/
structure BlockOps (success : List ExecutedOperations) (failed : List ExecutedTx) : Prop where
  numbered : Numbered success
  successful : ∀ op ∈ success, op.isSuccessful
  faithful : ∀ op ∈ success ++ failed.map .Tx, op.Faithful
  failed : ∀ tx ∈ failed, tx.success = false

theorem BlockOps.filter {success : List ExecutedOperations} {failed : List ExecutedTx}
    (h : BlockOps success failed) :
    (success ++ failed.map ExecutedOperations.Tx).filter ExecutedOperations.isSuccessful =
      success := by
  have hfailed : (failed.map ExecutedOperations.Tx).filter ExecutedOperations.isSuccessful = [] := by
    refine List.filter_eq_nil_iff.mpr fun op hop => ?_
    obtain ⟨tx, htx, rfl⟩ := List.mem_map.mp hop
    show ¬ tx.success = true
    rw [h.failed tx htx]
    exact Bool.false_ne_true
  rw [List.filter_append, hfailed, List.append_nil]
  exact List.filter_eq_self.mpr h.successful

/-- A failure has no operation. -/
theorem BlockOps.executedOp_failed {success : List ExecutedOperations} {failed : List ExecutedTx}
    (h : BlockOps success failed) :
    ∀ op ∈ success ++ failed.map .Tx, op.isSuccessful = false → op.getExecutedOp = none := by
  intro op hop hs
  have hfaithful := h.faithful op hop
  cases op with
  | Tx tx =>
    rcases hfaithful with ⟨hsuccess, -⟩ | ⟨-, hnone, -⟩
    · cases hsuccess.symm.trans hs
    · exact hnone
  | PriorityOp op => cases hs

/-! ## Pushing -/

/-- The results of executions were added to the pending block. -/
structure GrowsTo (p : PendingBlock) (results : List ExecutedOperations) (p' : PendingBlock) :
    Prop where
  success : p'.successOperations =
    p.successOperations ++ results.filter ExecutedOperations.isSuccessful
  failed : ∀ tx ∈ p'.failedTxs, tx ∈ p.failedTxs ∨ .Tx tx ∈ results
  ops : OpsOk p → OpsOk p'

section Push

variable {overflowChecks : Bool} {p p' p'' : PendingBlock} {es es' : List ExecutedOperations}

theorem GrowsTo.refl (p : PendingBlock) : GrowsTo p [] p :=
  ⟨(List.append_nil _).symm, fun _ h => Or.inl h, id⟩

theorem GrowsTo.trans (h : GrowsTo p es p') (h' : GrowsTo p' es' p'') :
    GrowsTo p (es ++ es') p'' where
  success := by rw [h'.success, h.success, List.filter_append, List.append_assoc]
  failed := fun tx htx => by
    rcases h'.failed tx htx with htx | htx
    · exact (h.failed tx htx).imp_right (List.mem_append_left _)
    · exact Or.inr (List.mem_append_right _ htx)
  ops := fun hp => h'.ops (h.ops hp)

theorem Counted.growsTo (h : Counted p p') : GrowsTo p [] p' := by
  have hops := h.pushedBy.ops
  unfold Counted at h
  rw [h] at hops ⊢
  exact ⟨(List.append_nil _).symm, fun _ h => Or.inl h, hops⟩

theorem growsTo_pushSuccess {chunksNeeded : Nat} {success : OpSuccess}
    {executed : UInt32 → ExecutedOperations} {e : ExecutedOperations}
    (hindex : ∀ i, (executed i).blockIndex = some i) (hsucc : ∀ i, (executed i).isSuccessful)
    (h : p.pushSuccess overflowChecks chunksNeeded success executed = .ok (e, p')) :
    GrowsTo p [e] p' := by
  have hops := (pushedBy_pushSuccess hindex hsucc h).ops
  obtain ⟨_, _, -, -, rfl, rfl⟩ := PendingBlock.pushSuccess_eq_ok.mp h
  refine ⟨?_, fun _ h => Or.inl h, hops⟩
  rw [List.filter_cons_of_pos (hsucc _)]
  rfl

theorem growsTo_pushTxResult {chunksNeeded : Nat} {batchId : Option Int} {tx : SignedZkSyncTx}
    {result : Except String OpSuccess} {e : ExecutedOperations}
    (h : p.pushTxResult overflowChecks chunksNeeded batchId tx result = .ok (e, p')) :
    GrowsTo p [e] p' := by
  have hops := (pushedBy_pushTxResult h).ops
  cases result with
  | ok success =>
    unfold PendingBlock.pushTxResult at h
    exact growsTo_pushSuccess (by exact fun _ => rfl) (by exact fun _ => rfl) h
  | error error =>
    cases h
    refine ⟨(List.append_nil _).symm, fun tx' htx' => ?_, hops⟩
    refine (List.mem_append.mp htx').imp_right fun h => ?_
    rw [List.mem_singleton.mp h]
    exact List.mem_cons_self

theorem growsTo_pushBatchResults {chunksNeeded : Nat} {batchId : Int}
    {results : List (SignedZkSyncTx × Except String OpSuccess)}
    (h : p.pushBatchResults overflowChecks chunksNeeded batchId results = .ok (es, p')) :
    GrowsTo p es p' := by
  induction results generalizing p es with
  | nil =>
    cases h
    exact .refl _
  | cons r results ih =>
    obtain ⟨tx, result⟩ := r
    unfold PendingBlock.pushBatchResults at h
    simp only [Outcome.bind_eq_ok] at h
    obtain ⟨⟨e, p₁⟩, h₁, ⟨es', p₂⟩, h₂, h⟩ := h
    cases h
    exact (growsTo_pushTxResult h₁).trans (ih h₂)

/-! ## What was executed -/

/-- The success, if it is one, comes from executing the transaction. -/
def ResultOf (env : Env) (tx : ZkSyncTx) (result : Except String OpSuccess) : Prop :=
  ∀ success, result = .ok success →
    ∃ s s' : ZkSyncState, s.executeTx env tx = .ok (success, s')

theorem faithful_pushTxResult (env : Env) {chunksNeeded : Nat} {batchId : Option Int}
    {tx : SignedZkSyncTx} {result : Except String OpSuccess} {e : ExecutedOperations}
    (hresult : ResultOf env tx.tx result)
    (h : p.pushTxResult overflowChecks chunksNeeded batchId tx result = .ok (e, p')) :
    e.Faithful ∧ ∀ t, e = .Tx t → t.batchId = batchId := by
  cases result with
  | ok success =>
    obtain ⟨s, s', hexec⟩ := hresult success rfl
    unfold PendingBlock.pushTxResult at h
    obtain ⟨_, _, -, -, rfl, -⟩ := PendingBlock.pushSuccess_eq_ok.mp h
    exact ⟨Or.inl ⟨rfl, _, rfl, (executeTx_effect hexec).tryGetTx⟩, fun t ht => by cases ht; rfl⟩
  | error error =>
    cases h
    exact ⟨Or.inr ⟨rfl, rfl, rfl⟩, fun t ht => by cases ht; rfl⟩

theorem faithful_pushBatchResults (env : Env) {chunksNeeded : Nat} {batchId : Int}
    {results : List (SignedZkSyncTx × Except String OpSuccess)}
    (hresults : ∀ r ∈ results, ResultOf env r.1.tx r.2)
    (h : p.pushBatchResults overflowChecks chunksNeeded batchId results = .ok (es, p')) :
    ∀ e ∈ es, e.Faithful := by
  induction results generalizing p es with
  | nil =>
    cases h
    exact fun _ h => absurd h List.not_mem_nil
  | cons r results ih =>
    obtain ⟨tx, result⟩ := r
    unfold PendingBlock.pushBatchResults at h
    simp only [Outcome.bind_eq_ok] at h
    obtain ⟨⟨e, p₁⟩, h₁, ⟨es', p₂⟩, h₂, h⟩ := h
    cases h
    intro e' he'
    rcases List.mem_cons.mp he' with rfl | he'
    · exact (faithful_pushTxResult env (hresults _ List.mem_cons_self) h₁).1
    · exact ih (fun r hr => hresults r (List.mem_cons_of_mem _ hr)) h₂ e' he'

/-- Beside each transaction of a run of the state stands its own result. -/
theorem executed_zip {env : Env} {s s' : ZkSyncState} {es : List Executed}
    (hrun : Run (TxStep env) s es s') :
    ∀ {txs : List SignedZkSyncTx}, txs.map (·.tx) = es.map (·.1) →
      ∀ r ∈ txs.zip (es.map fun e => (Except.ok e.2 : Except String OpSuccess)),
        ResultOf env r.1.tx r.2 := by
  induction hrun with
  | nil =>
    intro txs _ r hr
    rw [List.map_nil, List.zip_nil_right] at hr
    exact absurd hr List.not_mem_nil
  | @cons s s₁ s' e es hstep _ ih =>
    intro txs htxs r hr
    cases txs with
    | nil => cases htxs
    | cons tx txs =>
      rw [List.map_cons, List.map_cons, List.cons.injEq] at htxs
      rcases List.mem_cons.mp hr with rfl | hr
      · intro success hsuccess
        cases hsuccess
        exact ⟨s, s₁, by rw [htxs.1]; exact hstep⟩
      · exact ih htxs.2 r hr

/-- Beside each transaction of a batch stands its own result. -/
theorem resultOf_batch {env : Env} {s s' : ZkSyncState} {txs : List SignedZkSyncTx}
    {results : BatchResults} (hexec : s.executeTxsBatch env txs = .ok (results, s')) :
    ∀ r ∈ txs.zip results, ResultOf env r.1.tx r.2 := by
  cases executeTxsBatch_outcome hexec with
  | done batch run => exact executed_zip run batch
  | undone =>
    rw [zip_error]
    intro r hr success hsuccess
    obtain ⟨tx, -, rfl⟩ := List.mem_map.mp hr
    cases hsuccess

theorem faithful_batch {env : Env} {s s' : ZkSyncState} {txs : List SignedZkSyncTx}
    {results : BatchResults} {chunksNeeded : Nat} {batchId : Int}
    (hexec : s.executeTxsBatch env txs = .ok (results, s'))
    (h : p.pushBatchResults overflowChecks chunksNeeded batchId (txs.zip results) = .ok (es, p')) :
    ∀ e ∈ es, e.Faithful :=
  faithful_pushBatchResults env (resultOf_batch hexec) h

end Push

/-! ## One call -/

/-- The results that an answer brings. -/
def KeeperReply.results : KeeperReply → List ExecutedOperations
  | .executed operations => operations
  | _ => []

/-- What a call does to the operations of the pending block. -/
inductive BlockOpsStep (k k' : ZkSyncStateKeeper) : KeeperReply → Prop
  | grown {reply : KeeperReply} (ops : GrowsTo k.pendingBlock reply.results k'.pendingBlock)
      (faithful : ∀ e ∈ reply.results, e.Faithful)
      (number : k'.state.blockNumber = k.state.blockNumber) (sent : reply.sent = []) :
      BlockOpsStep k k' reply
  | stored {pendingBlock : SendablePendingBlock} {updates : AppliedUpdatesRequest}
      (block : pendingBlock.number = k.state.blockNumber)
      (success : pendingBlock.successOperations = k.pendingBlock.successOperations)
      (failed : pendingBlock.failedTxs = k.pendingBlock.failedTxs)
      (kept : GrowsTo k.pendingBlock [] k'.pendingBlock)
      (number : k'.state.blockNumber = k.state.blockNumber) :
      BlockOpsStep k k' (.stored pendingBlock updates)
  | sealed {request : BlockCommitRequest} {updates : AppliedUpdatesRequest}
      (block : request.block.blockNumber = k.state.blockNumber)
      (transactions : request.block.blockTransactions =
        k.pendingBlock.successOperations ++ k.pendingBlock.failedTxs.map .Tx)
      (success : k'.pendingBlock.successOperations = [])
      (failed : k'.pendingBlock.failedTxs = [])
      (next : k'.pendingBlock.pendingOpBlockIndex = 0)
      (number : k'.state.blockNumber = k.state.blockNumber + 1) :
      BlockOpsStep k k' (.sealed request updates)

section Calls

variable {env : Env} {k k' : ZkSyncStateKeeper}

theorem growsTo_countIteration (k : ZkSyncStateKeeper) :
    GrowsTo k.pendingBlock [] k.countIteration.pendingBlock ∧
      k.countIteration.state.blockNumber = k.state.blockNumber := by
  unfold ZkSyncStateKeeper.countIteration
  split
  · exact ⟨⟨(List.append_nil _).symm, fun _ h => Or.inl h, fun hp => ⟨hp.1, hp.2, hp.3, hp.4⟩⟩, rfl⟩
  · exact ⟨.refl _, rfl⟩

theorem failed_countIteration (k : ZkSyncStateKeeper) :
    k.countIteration.pendingBlock.failedTxs = k.pendingBlock.failedTxs := by
  unfold ZkSyncStateKeeper.countIteration
  split <;> rfl

/-- Every call adds its results to the pending block, or makes a request of it. -/
theorem blockOps_step {e : KeeperCall × KeeperReply} (hstep : KeeperStep env k e k') :
    BlockOpsStep k k' e.2 := by
  obtain ⟨call, reply⟩ := e
  have heff := hstep.effect
  dsimp only at heff ⊢
  cases heff with
  | full counted =>
    exact .grown counted.growsTo (fun _ h => absurd h List.not_mem_nil) rfl rfl
  | @priorityOp op nonExecutedOp gasCounter success state e p next _ _ _ executed pushed =>
    -- the operation stands behind the others, with the next index
    have hgrown : GrowsTo { k.pendingBlock with gasCounter := gasCounter } [e] p :=
      growsTo_pushSuccess (by exact fun _ => rfl) (by exact fun _ => rfl) pushed
    have hw : Writes env.hasher k.state state := (Step.priorityOp executed).writes
    refine .grown ⟨hgrown.success, hgrown.failed,
      fun hp => hgrown.ops ⟨hp.1, hp.2, hp.3, hp.4⟩⟩ (fun e' he' => ?_) hw.blockNumber rfl
    obtain ⟨_, _, -, -, rfl, -⟩ := PendingBlock.pushSuccess_eq_ok.mp pushed
    rw [List.mem_singleton.mp he']
    exact (executePriorityOp_effect executed).tryGetPriorityOp
  | @tx tx chunksNeeded p p' result state e _ _ admitted executed pushed =>
    have hgrown := (PendingBlock.counted_admitTx admitted).growsTo.trans
      (growsTo_pushTxResult pushed)
    have hnumber : state.blockNumber = k.state.blockNumber := by
      cases result with
      | ok success =>
        have hw : Writes env.hasher k.state state :=
          (Step.txOk (executeTx_of_result executed)).writes
        exact hw.blockNumber
      | error error =>
        obtain rfl := state_of_failed executed
        rfl
    refine .grown hgrown (fun e' he' => ?_) hnumber rfl
    rw [List.mem_singleton.mp he']
    refine (faithful_pushTxResult env (fun success hsuccess => ?_) pushed).1
    subst hsuccess
    exact ⟨_, _, executeTx_of_result executed⟩
  | @batch txs batchId chunksNeeded p p' results state ops _ _ admitted executed pushed =>
    -- one push for each transaction, all of one batch id
    have hw : Writes env.hasher k.state state := (Step.batch executed).writes
    exact .grown ((PendingBlock.counted_admitBatch admitted).growsTo.trans
      (growsTo_pushBatchResults pushed)) (faithful_batch executed pushed) hw.blockNumber rfl
  | @sealed _ request updates k₁ _ before hseal =>
    -- sealing begins a new block, and the invariant with it
    have hk : GrowsTo k.pendingBlock [] k₁.pendingBlock ∧
        k₁.state.blockNumber = k.state.blockNumber ∧
        k₁.pendingBlock.failedTxs = k.pendingBlock.failedTxs := by
      rcases before with ⟨-, rfl⟩ | ⟨-, rfl⟩
      · exact ⟨.refl _, rfl, rfl⟩
      · obtain ⟨hgrown, hnumber⟩ := growsTo_countIteration k
        exact ⟨hgrown, hnumber, failed_countIteration k⟩
    obtain ⟨hgrown, hnumber, hfailed⟩ := hk
    obtain ⟨_, paid, hashed, _, _, hs, hnext, -, rfl⟩ := sealPendingBlock_eq_ok hseal
    have hpaid : Writes env.hasher k₁.state paid := (Step.collectFee hs.fees).writes
    have hwrites : Writes env.hasher k₁.state hashed := hpaid.trans (Step.rootHash hs.root).writes
    have hsame : hashed.blockNumber = k₁.state.blockNumber := hwrites.blockNumber
    refine .sealed (hs.number.trans (hsame.trans hnumber)) ?_ rfl rfl rfl ?_
    · rw [hs.transactions, hgrown.success, List.filter_nil, List.append_nil, hfailed]
    · show _ = _
      rw [u32Increment_eq_ok hnext, hsame, hnumber]
  | stored hstore =>
    obtain ⟨hgrown, hnumber⟩ := growsTo_countIteration k
    obtain ⟨-, rfl, -, rfl⟩ := storePendingBlock_eq_ok hstore
    have hsuccess : k.countIteration.pendingBlock.successOperations =
        k.pendingBlock.successOperations := by
      rw [hgrown.success, List.filter_nil, List.append_nil]
    refine .stored hnumber hsuccess (failed_countIteration k) ?_ hnumber
    exact ⟨hgrown.success, hgrown.failed,
      fun hp => have h := hgrown.ops hp; ⟨h.1, h.2, h.3, h.4⟩⟩

end Calls

/-! ## Sealed blocks -/

/-- The pending block holds records of executions. -/
def PendingBlock.Faithful (p : PendingBlock) : Prop :=
  ∀ op ∈ p.successOperations ++ p.failedTxs.map .Tx, op.Faithful

theorem GrowsTo.faithful {p p' : PendingBlock} {es : List ExecutedOperations}
    (h : GrowsTo p es p') (hp : p.Faithful) (hes : ∀ e ∈ es, e.Faithful) : p'.Faithful := by
  intro op hop
  rcases List.mem_append.mp hop with hop | hop
  · rw [h.success] at hop
    rcases List.mem_append.mp hop with hop | hop
    · exact hp op (List.mem_append_left _ hop)
    · exact hes op (List.mem_filter.mp hop).1
  · obtain ⟨tx, htx, rfl⟩ := List.mem_map.mp hop
    rcases h.failed tx htx with htx | htx
    · exact hp _ (List.mem_append_right _ (List.mem_map_of_mem htx))
    · exact hes _ htx

/-- What is sealed are records of executions. -/
theorem sealed_faithful {env : Env} {initialState : ZkSyncStateInitParams}
    {feeAccountAddress : Address} {sizes : List Nat} {maxMini fastMini maxWithdrawals : Nat}
    {k₀ k : ZkSyncStateKeeper} (hnew : ZkSyncStateKeeper.new env initialState feeAccountAddress
      sizes maxMini fastMini maxWithdrawals = .ok k₀) {tr : List (KeeperCall × KeeperReply)}
    (hrun : Run (KeeperStep env) k₀ tr k) :
    ∀ request updates, .Block request updates ∈ sentBy tr →
      ∀ op ∈ request.block.blockTransactions, op.Faithful := by
  obtain ⟨_, _, _, -, -, hk⟩ := ZkSyncStateKeeper.new_eq_ok hnew
  have hstart : k₀.pendingBlock.Faithful := by
    rw [hk]
    exact fun op hop => absurd hop List.not_mem_nil
  clear hnew hk
  induction hrun with
  | nil => exact fun _ _ h => absurd h List.not_mem_nil
  | @cons k k₁ k' e tr hstep _ ih =>
    intro request updates hmem
    have hmem : CommitRequest.Block request updates ∈ e.2.sent ++ sentBy tr := hmem
    obtain ⟨call, reply⟩ := e
    cases blockOps_step hstep with
    | grown ops faithful number sent =>
      rw [sent, List.nil_append] at hmem
      exact ih (ops.faithful hstart faithful) request updates hmem
    | stored block success failed kept number =>
      rcases List.mem_append.mp hmem with hmem | hmem
      · cases List.mem_singleton.mp hmem
      · exact ih (kept.faithful hstart fun _ h => absurd h List.not_mem_nil) request updates hmem
    | sealed block transactions success failed next number =>
      rcases List.mem_append.mp hmem with hmem | hmem
      · cases List.mem_singleton.mp hmem
        rw [transactions]
        exact hstart
      · refine ih (fun op hop => ?_) request updates hmem
        rw [success, failed] at hop
        exact absurd hop List.not_mem_nil

end ZkSync
