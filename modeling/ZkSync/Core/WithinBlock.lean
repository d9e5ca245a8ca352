import ZkSync.DataRestore.Replay

/-!
# Calls within a block

From one seal to the next the keeper executes operations and collects their fees. What a
relation `I` between the state, the operations executed so far and the fees collected so
far needs to survive this is little (`KeptWithin`): that an executed operation keeps it,
and that it does not tell an account that is not there from an empty one, since a failed
batch leaves such accounts. Calls that are refused, failed transactions, counters and
stores of the pending block change neither of the three.
-/

namespace ZkSync

/-- What `I` needs to hold all along a block. -/
structure KeptWithin (env : Env) (I : ZkSyncState → List ZkSyncOp → List CollectedFee → Prop) :
    Prop where
  tx : ∀ {s s' : ZkSyncState} {ops : List ZkSyncOp} {fees : List CollectedFee} {tx : ZkSyncTx}
    {r : OpSuccess}, I s ops fees → Indexed s → TxEffect env s tx r s' →
    I s' (ops ++ [r.executedOp]) (fees ++ r.fee.toList)
  priorityOp : ∀ {s s' : ZkSyncState} {ops : List ZkSyncOp} {fees : List CollectedFee}
    {op : ZkSyncPriorityOp} {r : OpSuccess}, I s ops fees → PriorityEffect s op r s' →
    I s' (ops ++ [r.executedOp]) (fees ++ r.fee.toList)
  /-- A batch was undone. -/
  undone : ∀ {s s' : ZkSyncState} {ops : List ZkSyncOp} {fees : List CollectedFee}, I s ops fees →
    Mirrors s.getAccount s' → I s' ops fees

/-- The relation holds between the keeper's state and its pending block. -/
structure WithinBlock (I : ZkSyncState → List ZkSyncOp → List CollectedFee → Prop)
    (k : ZkSyncStateKeeper) : Prop where
  indexed : Indexed k.state
  failed : ∀ tx ∈ k.pendingBlock.failedTxs, tx.op = none
  rel : I k.state k.pendingBlock.executedOps k.pendingBlock.collectedFees

/-- The two pending blocks have executed and collected the same. -/
structure SameExecuted (p p' : PendingBlock) : Prop where
  failed : (∀ tx ∈ p.failedTxs, tx.op = none) → ∀ tx ∈ p'.failedTxs, tx.op = none
  ops : p'.executedOps = p.executedOps
  fees : p'.collectedFees = p.collectedFees

section Pushes

variable {env : Env} {I : ZkSyncState → List ZkSyncOp → List CollectedFee → Prop}
  {s s' : ZkSyncState} {p p' : PendingBlock} {chunksNeeded : Nat}

theorem SameExecuted.of_counted (h : Counted p p') : SameExecuted p p' := by
  rw [h]
  exact ⟨id, rfl, rfl⟩

/-- What a push adds. -/
theorem executed_pushSuccess {overflowChecks : Bool} {r : OpSuccess}
    {executed : UInt32 → ExecutedOperations} {e : ExecutedOperations}
    (hpush : p.pushSuccess overflowChecks chunksNeeded r executed = .ok (e, p'))
    (hexecuted : ∀ i, (executed i).getExecutedOp = some r.executedOp) :
    p'.failedTxs = p.failedTxs ∧ p'.executedOps = p.executedOps ++ [r.executedOp] ∧
      p'.collectedFees = p.collectedFees ++ r.fee.toList := by
  have hops := (pushedOps_pushSuccess hexecuted hpush).ops
  obtain ⟨_, _, -, -, -, rfl⟩ := PendingBlock.pushSuccess_eq_ok.mp hpush
  exact ⟨rfl, hops, rfl⟩

/-- The transactions of a batch, one after the other. -/
theorem KeptWithin.batch (h : KeptWithin env I) {es : List Executed}
    (hrun : Run (TxStep env) s es s') :
    ∀ {p p' : PendingBlock} {txs : List SignedZkSyncTx} {batchId : Int}
      {ops : List ExecutedOperations}, Indexed s → I s p.executedOps p.collectedFees →
      txs.map (·.tx) = es.map (·.1) →
      p.pushBatchResults env.overflowChecks chunksNeeded batchId
        (txs.zip (es.map fun e => .ok e.2)) = .ok (ops, p') →
      I s' p'.executedOps p'.collectedFees := by
  induction hrun with
  | nil =>
    intro p p' txs batchId ops hindexed hrel htxs hpush
    obtain rfl := List.map_eq_nil_iff.mp htxs
    cases hpush
    exact hrel
  | @cons s s₁ s' e es hstep _ ih =>
    intro p p' txs batchId ops hindexed hrel htxs hpush
    cases txs with
    | nil => cases htxs
    | cons tx txs =>
      obtain ⟨htx, htxs⟩ := List.cons.inj htxs
      rw [List.map_cons, List.zip_cons_cons] at hpush
      unfold PendingBlock.pushBatchResults at hpush
      simp only [Outcome.bind_eq_ok] at hpush
      obtain ⟨⟨_, p₁⟩, hp₁, ⟨_, p₂⟩, hp₂, hpush⟩ := hpush
      cases hpush
      unfold PendingBlock.pushTxResult at hp₁
      obtain ⟨-, hops, hfees⟩ := executed_pushSuccess hp₁ (by exact fun _ => rfl)
      have hfirst : I s₁ p₁.executedOps p₁.collectedFees := by
        rw [hops, hfees]
        exact h.tx hrel hindexed (executeTx_effect hstep)
      exact ih ((Step.txOk hstep).writes.indexed hindexed) hfirst htxs hp₂

end Pushes

section Keeper

variable {env : Env} {I : ZkSyncState → List ZkSyncOp → List CollectedFee → Prop}
  {k k' : ZkSyncStateKeeper}

/-- The keeper moved on, its state and what it executed did not. -/
theorem WithinBlock.same (h : WithinBlock I k) (hstate : k'.state = k.state)
    (hsame : SameExecuted k.pendingBlock k'.pendingBlock) : WithinBlock I k' := by
  refine ⟨hstate ▸ h.indexed, hsame.failed h.failed, ?_⟩
  rw [hstate, hsame.ops, hsame.fees]
  exact h.rel

theorem sameExecuted_countIteration (k : ZkSyncStateKeeper) :
    SameExecuted k.pendingBlock k.countIteration.pendingBlock := by
  unfold ZkSyncStateKeeper.countIteration
  split
  · exact ⟨id, rfl, rfl⟩
  · exact ⟨id, rfl, rfl⟩

/-- Every call that does not seal the block. -/
theorem KeptWithin.step (h : KeptWithin env I) (hz : env.NoZeroSigner) (hk : WithinBlock I k)
    {e : KeeperCall × KeeperReply} (hstep : KeeperStep env k e k') (hunsealed : ¬ e.2.IsSealed) :
    WithinBlock I k' := by
  obtain ⟨call, reply⟩ := e
  have heff := hstep.effect
  dsimp only at heff hunsealed
  cases heff with
  | full counted => exact hk.same rfl (.of_counted counted)
  | priorityOp _ _ _ executed pushed =>
    obtain ⟨hfailed, hops, hfees⟩ := executed_pushSuccess pushed (by exact fun _ => rfl)
    refine ⟨(Step.priorityOp executed : Step env _ _ _).writes.indexed hk.indexed,
      hfailed ▸ hk.failed, ?_⟩
    rw [hops, hfees]
    exact h.priorityOp hk.rel (executePriorityOp_effect executed)
  | @tx _ _ p _ result _ _ _ _ admitted executed pushed =>
    have hsame := SameExecuted.of_counted (PendingBlock.counted_admitTx admitted)
    cases result with
    | ok success =>
      have hexec := executeTx_of_result executed
      unfold PendingBlock.pushTxResult at pushed
      obtain ⟨hfailed, hops, hfees⟩ := executed_pushSuccess pushed (by exact fun _ => rfl)
      refine ⟨(Step.txOk hexec).writes.indexed hk.indexed, ?_, ?_⟩
      · rw [hfailed]
        exact hsame.failed hk.failed
      · rw [hops, hfees, hsame.ops, hsame.fees]
        exact h.tx hk.rel hk.indexed (executeTx_effect hexec)
    | error error =>
      obtain rfl := state_of_failed executed
      have hfailed := (pushedOps_pushTxResult pushed).failed (hsame.failed hk.failed)
      cases pushed
      exact hk.same rfl ⟨fun _ => hfailed, hsame.ops, hsame.fees⟩
  | batch _ _ admitted executed pushed =>
    have hsame := SameExecuted.of_counted (PendingBlock.counted_admitBatch admitted)
    have hindexed := (Step.batch executed : Step env _ _ _).writes.indexed hk.indexed
    have hfailed := (pushedOps_pushBatchResults pushed).failed (hsame.failed hk.failed)
    have hrel := hk.rel
    rw [← hsame.ops, ← hsame.fees] at hrel
    have hmirrors := (mirrors_batch hz executed (mirrors_self hk.indexed) hk.indexed).1
    cases executeTxsBatch_outcome executed with
    | done batch run => exact ⟨hindexed, hfailed, h.batch run hk.indexed hrel batch pushed⟩
    | undone =>
      rw [succeeded_error] at hmirrors
      refine ⟨hindexed, hfailed, ?_⟩
      -- only failed transactions were pushed
      have hp := pushBatchResults_error pushed
      show I _ _ _
      rw [hp]
      exact h.undone hrel hmirrors
  | sealed => exact absurd trivial hunsealed
  | stored hstore =>
    obtain ⟨-, -, -, rfl⟩ := storePendingBlock_eq_ok hstore
    have hsame := sameExecuted_countIteration k
    exact hk.same (state_countIteration k) ⟨hsame.failed, hsame.ops, hsame.fees⟩

/-- The call that seals the block: what is sealed is what was executed, and the next block
begins with nothing. -/
theorem WithinBlock.sealed (hk : WithinBlock I k) {call : KeeperCall} {request : BlockCommitRequest}
    {updates : AppliedUpdatesRequest} (hstep : KeeperStep env k (call, .sealed request updates) k') :
    ∃ k₁ feeUpdates paid hashed, WithinBlock I k₁ ∧
      Sealed env k₁ request updates feeUpdates paid hashed ∧
      request.block.executedOps = k₁.pendingBlock.executedOps ∧
      request.block.executedOps = k.pendingBlock.executedOps ∧
      k'.state.getAccount = hashed.getAccount ∧
      ∀ J : ZkSyncState → List ZkSyncOp → List CollectedFee → Prop, J k'.state [] [] →
        WithinBlock J k' := by
  have heff := hstep.effect
  dsimp only at heff
  cases heff with
  | @sealed _ _ _ k₁ _ before hseal =>
    have hk₁ : WithinBlock I k₁ ∧
        k₁.pendingBlock.executedOps = k.pendingBlock.executedOps := by
      rcases before with ⟨-, rfl⟩ | ⟨-, rfl⟩
      · exact ⟨hk, rfl⟩
      · have hsame := sameExecuted_countIteration k
        exact ⟨hk.same (state_countIteration k) hsame, hsame.ops⟩
    obtain ⟨hk₁, hops⟩ := hk₁
    obtain ⟨feeUpdates, paid, hashed, _, _, hs, -, -, rfl⟩ := sealPendingBlock_eq_ok hseal
    have hpaid : Writes env.hasher k₁.state paid := (Step.collectFee hs.fees).writes
    have hwrites : Writes env.hasher k₁.state hashed := hpaid.trans (Step.rootHash hs.root).writes
    have hexecuted := executedOps_of_sealed hs hk₁.failed
    refine ⟨k₁, feeUpdates, paid, hashed, hk₁, hs, hexecuted, hexecuted.trans hops, rfl, ?_⟩
    intro J hJ
    exact ⟨hwrites.indexed hk₁.indexed, fun _ htx => absurd htx List.not_mem_nil, hJ⟩

/-- A run within a block. -/
theorem KeptWithin.run (h : KeptWithin env I) (hz : env.NoZeroSigner)
    {tr : List (KeeperCall × KeeperReply)}
    (hrun : Run (fun k e k' => KeeperStep env k e k' ∧ ¬ e.2.IsSealed) k tr k')
    (hk : WithinBlock I k) : WithinBlock I k' :=
  hrun.invariant (I := WithinBlock I) (fun _ _ _ hk hstep => h.step hz hk hstep.1 hstep.2) hk

end Keeper

end ZkSync
