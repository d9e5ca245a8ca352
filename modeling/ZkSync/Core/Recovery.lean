import ZkSync.Core.Retry

/-!
# Recovery of the pending block

A server that crashes loads the accounts of the last sealed block, and executes
the operations of the stored pending block again, one by one. The run that is
lost was not that simple: it had failed transactions and batches between them.

Between the keeper that was lost and the one that is restored `Restored` holds:
states alike, the same updates, operations and fees, and counters that leave the
restored keeper no less room. Every call that is executed keeps it
(`RestoredFrom.step`), except for two kinds of batches. A batch that fails and
leaves a trace in the state leaves none in the stored block. And a batch that
succeeds is stored as single transactions: they are executed again without the
id of their batch (`batch_lost`).
-/

namespace ZkSync

/-! ## Conditions -/

/-- The batch is let in: its chunks, gas and withdrawals fit the block. -/
def ZkSyncStateKeeper.LetsIn (env : Env) (k : ZkSyncStateKeeper) (txs : List SignedZkSyncTx) :
    Prop :=
  ∃ chunksNeeded p, k.state.chunksForBatch txs = .ok chunksNeeded ∧
    chunksNeeded ≤ k.pendingBlock.chunksLeft ∧
    k.pendingBlock.admitBatch env k.state k.maxNumberOfWithdrawalsPerBlock (txs.map (·.tx)) =
      .ok (true, p)

/-- A batch that is let in and fails leaves no trace in the state. -/
def KeeperCall.LeavesNoTrace (env : Env) (k : ZkSyncStateKeeper) : KeeperCall → Prop
  | .batch txs _ => k.LetsIn env txs →
    executedBefore env k.state (txs.map (·.tx)) ≠ txs.map (·.tx) →
    RestoredWhen k.state (executedBefore env k.state (txs.map (·.tx)))
  | _ => True

/-- A batch that is let in and succeeds is empty. -/
def KeeperCall.NotBatched (env : Env) (k : ZkSyncStateKeeper) : KeeperCall → Prop
  | .batch txs _ => k.LetsIn env txs →
    executedBefore env k.state (txs.map (·.tx)) = txs.map (·.tx) → txs = []
  | _ => True

/-- The call left the block under construction: it was executed, or the block was
stored. The loops of `executeQueue` seal the block after a call that finds it full. -/
def KeeperReply.KeepsBlock : KeeperReply → Prop
  | .executed _ => True
  | .stored _ _ => True
  | _ => False

/-- The call has sealed a block. -/
def KeeperReply.IsSealed : KeeperReply → Prop
  | .sealed _ _ => True
  | _ => False

/-! ## The state of the keeper over a run -/

section Exact

variable {env : Env} {k k' : ZkSyncStateKeeper}

/-- The index holds exactly the addresses of the accounts, and the cache of the tree
is right. -/
structure ExactState (env : Env) (s : ZkSyncState) : Prop where
  index : IndexExact s
  hashed : Hashed env.hasher s

theorem ExactState.indexed {s : ZkSyncState} (h : ExactState env s) : Indexed s :=
  fun address id hid => (h.index address id).mp hid

/-- A batch that is let in does nothing, executes all its transactions, or leaves no
trace. -/
theorem batch_cases (hz : env.NoZeroSigner) (h : ExactState env k.state)
    {txs : List SignedZkSyncTx} {batchId : Int} {results : BatchResults} {state : ZkSyncState}
    (hletsIn : k.LetsIn env txs) (htrace : KeeperCall.LeavesNoTrace env k (.batch txs batchId))
    (executed : k.state.executeTxsBatch env txs = .ok (results, state)) :
    (∃ es, txs.map (·.tx) = es.map (·.1) ∧ Run (TxStep env) k.state es state ∧
        executedBefore env k.state (txs.map (·.tx)) = txs.map (·.tx) ∧
        results = es.map fun e => .ok e.2) ∨
      Same env.hasher k.state state ∧ Hashed env.hasher state ∧
        ∃ error, results = List.replicate txs.length (.error error) := by
  cases executeTxsBatch_outcome executed with
  | @done es _ batch run =>
    exact Or.inl ⟨es, batch, run, by rw [batch]; exact executedBefore_of_done run, rfl⟩
  | undone batch run fails undo =>
    have hwhen := htrace hletsIn
    rw [batch, executedBefore_of_run run fails] at hwhen
    have hback : Writes env.hasher k.state state := (writes_of_run run).trans
      (applyAccountUpdates_writes (noDelete_updatesOf run).reverse undo)
    exact Or.inr ⟨same_of_restoredWhen hz h.indexed h.hashed run undo
      (hwhen fun h => by simpa using congrArg List.length h), hback.hashed h.hashed, _, rfl⟩

/-- A state with the same accounts is as exact. -/
theorem ExactState.same {s s' : ZkSyncState} (h : ExactState env s) (hsame : Same env.hasher s s')
    (hhashed : Hashed env.hasher s') : ExactState env s' :=
  ⟨h.index.congr hsame.index hsame.accounts, hhashed⟩

/-- Each step of the keeper keeps the state exact. -/
theorem ExactState.step (hz : env.NoZeroSigner) (h : ExactState env k.state)
    {e : KeeperCall × KeeperReply} (htrace : e.1.LeavesNoTrace env k) (hstep : KeeperStep env k e k') :
    ExactState env k'.state := by
  obtain ⟨call, reply⟩ := e
  have heff := hstep.effect
  dsimp only at htrace heff
  cases heff with
  | full => exact h
  | priorityOp _ _ _ executed =>
    exact ⟨(executePriorityOp_effect executed).indexExact h.index,
      (Step.priorityOp executed : Step env _ _ _).writes.hashed h.hashed⟩
  | @tx tx _ _ _ result _ _ _ _ _ executed =>
    cases result with
    | ok success =>
      have hexec := executeTx_of_result executed
      exact ⟨(executeTx_effect hexec).indexExact h.index, (Step.txOk hexec).writes.hashed h.hashed⟩
    | error error =>
      obtain rfl := state_of_failed executed
      exact h
  | batch estimate room admitted executed =>
    rcases batch_cases hz h ⟨_, _, estimate, room, admitted⟩ htrace executed with
      ⟨es, -, run, -, -⟩ | ⟨hsame, hhashed, -⟩
    · exact ⟨indexExact_of_txRun run h.index, (writes_of_run run).hashed h.hashed⟩
    · exact h.same hsame hhashed
  | @sealed _ _ _ k₁ _ before hseal =>
    -- hashing and the fees leave the state as exact as it was
    have hk : k₁.state = k.state := by
      rcases before with ⟨-, rfl⟩ | ⟨-, rfl⟩
      · rfl
      · exact state_countIteration k
    obtain ⟨_, paid, hashed, _, _, hs, -, -, rfl⟩ := sealPendingBlock_eq_ok hseal
    have hfees := hs.fees
    rw [hk] at hfees
    obtain ⟨a, a', ha, hc, hpaid, -, -⟩ := collectFee_effect hfees
    have hexact : IndexExact paid := by
      rw [hpaid]
      exact h.index.over ha hc.address
    refine ⟨?_, (Step.rootHash hs.root).writes.hashed
      ((Step.collectFee hfees : Step env _ _ _).writes.hashed h.hashed)⟩
    show IndexExact hashed
    intro address id
    rw [index_of_rootHash hs.root, getAccount_of_rootHash hs.root]
    exact hexact address id
  | stored hstore =>
    obtain ⟨-, -, -, rfl⟩ := storePendingBlock_eq_ok hstore
    show ExactState env k.countIteration.state
    rw [state_countIteration]
    exact h

end Exact

/-! ## The room that is left -/

/-- The pending block `q` holds what `p` holds and has no less room. The counter of
withdrawals may wrap only if every value is within its limit. -/
structure PendingBlock.RestoredBy (overflowChecks : Bool) (limit : UInt32) (p q : PendingBlock) :
    Prop where
  operations : q.successOperations = p.successOperations
  updates : q.accountUpdates = p.accountUpdates
  fees : q.collectedFees = p.collectedFees
  index : q.pendingOpBlockIndex = p.pendingOpBlockIndex
  chunks : p.chunksLeft ≤ q.chunksLeft
  commitGas : q.gasCounter.commitCost ≤ p.gasCounter.commitCost
  verifyGas : q.gasCounter.verifyCost ≤ p.gasCounter.verifyCost
  withdrawals : q.withdrawalsAmount ≤ p.withdrawalsAmount ∨
    overflowChecks = false ∧ ∀ n : UInt32, n ≤ limit
  bounded : p.withdrawalsAmount ≤ limit

section Room

variable {env : Env} {s s' : ZkSyncState} {overflowChecks : Bool} {limit : UInt32}
  {maxWithdrawals : Nat} {p p' q : PendingBlock} {tx : ZkSyncTx}

/-- A debug build panics where a release build wraps. -/
theorem u32Increment_eq_ok_iff {n m : UInt32} : u32Increment overflowChecks n = .ok m ↔
    (overflowChecks = false ∨ n.toNat + 1 < 2 ^ 32) ∧ m = n + 1 := by
  unfold u32Increment
  exact Outcome.guarded_eq_ok Outcome.assert_eq_ok

/-- A counter with more room lets the operation in as well. -/
theorem addOp_mono {g g' h : GasCounter} {op : ZkSyncOp} (hadd : g.addOp op = .ok (some g'))
    (hcommit : h.commitCost ≤ g.commitCost) (hverify : h.verifyCost ≤ g.verifyCost) :
    ∃ h', h.addOp op = .ok (some h') ∧ h'.commitCost ≤ g'.commitCost ∧
      h'.verifyCost ≤ g'.verifyCost := by
  obtain ⟨c, v, hc, hv⟩ := opCosts_of_addOp hadd
  unfold GasCounter.addOp at hadd
  simp only [hc, hv, Outcome.ok_bind] at hadd
  split at hadd
  next => cases hadd
  next hcle =>
    split at hadd
    next => cases hadd
    next hvle =>
      cases hadd
      have hcle' := Nat.add_le_add_right hcommit c
      have hvle' := Nat.add_le_add_right hverify v
      exact ⟨_, addOp_of_room hc hv (Nat.le_trans (scaleUp_mono hcle') (Nat.le_of_not_lt hcle))
        (Nat.le_trans (scaleUp_mono hvle') (Nat.le_of_not_lt hvle)), hcle', hvle'⟩

/-- Less gas before is less gas behind. -/
theorem countGas_mono {g g' h : GasCounter} {op : Except String ZkSyncOp}
    (hcount : PendingBlock.countGas g op = .ok (some g')) (hcommit : h.commitCost ≤ g.commitCost)
    (hverify : h.verifyCost ≤ g.verifyCost) :
    ∃ h', PendingBlock.countGas h op = .ok (some h') ∧ h'.commitCost ≤ g'.commitCost ∧
      h'.verifyCost ≤ g'.verifyCost := by
  cases op with
  | ok op =>
    obtain ⟨h', hadd, hle⟩ := addOp_mono (infallible_eq_ok.mp hcount) hcommit hverify
    exact ⟨h', infallible_eq_ok.mpr hadd, hle⟩
  | error error =>
    cases hcount
    exact ⟨h, rfl, hcommit, hverify⟩

namespace PendingBlock

/-- One more withdrawal. The counter that is ahead wraps first. -/
theorem withdrawals_succ {n m : UInt32}
    (hle : m ≤ n ∨ overflowChecks = false ∧ ∀ n : UInt32, n ≤ limit) (hn : n ≤ limit)
    (hok : overflowChecks = false ∨ n.toNat + 1 < 2 ^ 32) :
    (overflowChecks = false ∨ m.toNat + 1 < 2 ^ 32) ∧
      (m + 1 ≤ n + 1 ∨ overflowChecks = false ∧ ∀ n : UInt32, n ≤ limit) := by
  rcases hle with hle | ⟨hoff, hall⟩
  · rw [UInt32.le_iff_toNat_le] at hle hn
    by_cases hlt : n.toNat + 1 < 2 ^ 32
    · refine ⟨Or.inr (by omega), Or.inl ?_⟩
      rw [UInt32.le_iff_toNat_le, UInt32.toNat_add, UInt32.toNat_add, UInt32.toNat_one,
        Nat.mod_eq_of_lt hlt, Nat.mod_eq_of_lt (by omega)]
      omega
    · -- the counter of the lost keeper wraps: it was the greatest value, and within the limit
      have hoff := hok.resolve_right hlt
      refine ⟨Or.inl hoff, Or.inr ⟨hoff, fun i => ?_⟩⟩
      have hi := i.toNat_lt
      rw [UInt32.le_iff_toNat_le]
      omega
  · exact ⟨Or.inl hoff, Or.inr ⟨hoff, hall⟩⟩

/-- What a full counter admits, an emptier one does, too. -/
theorem countWithdrawal_mono {marksFast : Bool}
    (hcount : p.countWithdrawal overflowChecks marksFast tx = .ok p')
    (h : RestoredBy overflowChecks limit p q) (hp' : p'.withdrawalsAmount ≤ limit) :
    ∃ q', q.countWithdrawal overflowChecks marksFast tx = .ok q' ∧
      RestoredBy overflowChecks limit p' q' := by
  cases tx with
  | Withdraw tx =>
    unfold countWithdrawal at hcount ⊢
    simp only [Outcome.bind_eq_ok, infallible_eq_ok, u32Increment_eq_ok_iff] at hcount ⊢
    obtain ⟨_, ⟨hok, rfl⟩, hcount⟩ := hcount
    cases hcount
    obtain ⟨hok', hle⟩ := withdrawals_succ h.withdrawals h.bounded hok
    exact ⟨_, ⟨_, ⟨hok', rfl⟩, rfl⟩, ⟨h.operations, h.updates, h.fees, h.index, h.chunks, h.commitGas,
      h.verifyGas, hle, hp'⟩⟩
  | _ =>
    cases hcount
    exact ⟨q, rfl, h⟩

/-- What the lost keeper let in, the restored one lets in. -/
theorem admitTx_mono {marksFast : Bool} (halike : Alike s s')
    (hadm : p.admitTx env s maxWithdrawals marksFast tx = .ok (true, p'))
    (h : RestoredBy env.overflowChecks (UInt32.ofNat maxWithdrawals) p q) :
    ∃ q', q.admitTx env s' maxWithdrawals marksFast tx = .ok (true, q') ∧
      RestoredBy env.overflowChecks (UInt32.ofNat maxWithdrawals) p' q' := by
  rw [← admitTx_alike halike]
  unfold admitTx at hadm ⊢
  simp only [Outcome.bind_eq_ok] at hadm
  obtain ⟨op, hop, gasCounter, hgas, hadm⟩ := hadm
  cases gasCounter with
  | none => cases hadm
  | some gasCounter =>
    obtain ⟨gasCounter', hgas', hcommit, hverify⟩ := countGas_mono hgas h.commitGas h.verifyGas
    dsimp only at hadm
    rw [Outcome.bind_eq_ok] at hadm
    obtain ⟨p₁, hcount, hadm⟩ := hadm
    obtain ⟨hle, rfl⟩ := Prod.mk.inj (Except.ok.inj hadm)
    have hle := of_decide_eq_true hle
    have h₁ : RestoredBy env.overflowChecks (UInt32.ofNat maxWithdrawals)
        { p with gasCounter := gasCounter } { q with gasCounter := gasCounter' } :=
      ⟨h.operations, h.updates, h.fees, h.index, h.chunks, hcommit, hverify, h.withdrawals, h.bounded⟩
    obtain ⟨q₁, hcount', hq₁⟩ := countWithdrawal_mono hcount h₁ hle
    have hqle : q₁.withdrawalsAmount ≤ UInt32.ofNat maxWithdrawals :=
      hq₁.withdrawals.elim (fun hq => UInt32.le_trans hq hle) fun hall => hall.2 _
    rw [hop, Outcome.ok_bind, hgas', Outcome.ok_bind]
    dsimp only
    rw [hcount', Outcome.ok_bind, Outcome.pure_eq]
    exact ⟨q₁, by rw [decide_eq_true hqle], hq₁⟩

/-- The counter stays below the limit. -/
theorem withdrawals_countWithdrawal {marksFast : Bool}
    (h : p.countWithdrawal overflowChecks marksFast tx = .ok p') (hp : p.withdrawalsAmount ≤ limit) :
    p.withdrawalsAmount ≤ p'.withdrawalsAmount ∨ overflowChecks = false ∧ ∀ n : UInt32, n ≤ limit := by
  cases tx with
  | Withdraw tx =>
    unfold countWithdrawal at h
    simp only [Outcome.bind_eq_ok, infallible_eq_ok, u32Increment_eq_ok_iff] at h
    obtain ⟨_, ⟨hok, rfl⟩, h⟩ := h
    cases h
    by_cases hlt : p.withdrawalsAmount.toNat + 1 < 2 ^ 32
    · left
      show p.withdrawalsAmount ≤ p.withdrawalsAmount + 1
      rw [UInt32.le_iff_toNat_le, UInt32.toNat_add, UInt32.toNat_one, Nat.mod_eq_of_lt hlt]
      omega
    · refine Or.inr ⟨hok.resolve_right hlt, fun i => ?_⟩
      have hi := i.toNat_lt
      rw [UInt32.le_iff_toNat_le] at hp ⊢
      omega
  | _ =>
    cases h
    exact Or.inl (UInt32.le_refl _)

/-- Letting a transaction in that is not executed takes room from the lost keeper only. -/
theorem RestoredBy.admitTx {marksFast : Bool}
    (h : RestoredBy env.overflowChecks (UInt32.ofNat maxWithdrawals) p q)
    (hadm : p.admitTx env s maxWithdrawals marksFast tx = .ok (true, p')) :
    RestoredBy env.overflowChecks (UInt32.ofNat maxWithdrawals) p' q := by
  have hcounted := counted_admitTx hadm
  obtain ⟨hgas, -⟩ := admitTx_charged hadm
  have hw : p'.withdrawalsAmount ≤ UInt32.ofNat maxWithdrawals ∧
      (p.withdrawalsAmount ≤ p'.withdrawalsAmount ∨
        env.overflowChecks = false ∧ ∀ n : UInt32, n ≤ UInt32.ofNat maxWithdrawals) := by
    unfold PendingBlock.admitTx at hadm
    simp only [Outcome.bind_eq_ok] at hadm
    obtain ⟨op, -, gasCounter, -, hadm⟩ := hadm
    cases gasCounter with
    | none => cases hadm
    | some gasCounter =>
      dsimp only at hadm
      rw [Outcome.bind_eq_ok] at hadm
      obtain ⟨p₁, hcount, hadm⟩ := hadm
      obtain ⟨hle, rfl⟩ := Prod.mk.inj (Except.ok.inj hadm)
      have hgrows := withdrawals_countWithdrawal hcount h.bounded
      exact ⟨of_decide_eq_true hle, hgrows⟩
  refine ⟨?_, ?_, ?_, ?_, ?_, Nat.le_trans h.commitGas hgas.commit,
    Nat.le_trans h.verifyGas hgas.verify, ?_, hw.1⟩
  · rw [h.operations, hcounted]
  · rw [h.updates, hcounted]
  · rw [h.fees, hcounted]
  · rw [h.index, hcounted]
  · rw [hcounted]
    exact h.chunks
  · rcases h.withdrawals with hq | hall
    · exact hw.2.imp (UInt32.le_trans hq) id
    · exact Or.inr hall

/-- A restored block admits what the block before the restart has admitted. -/
theorem RestoredBy.admitBatch {txs : List ZkSyncTx}
    (h : RestoredBy env.overflowChecks (UInt32.ofNat maxWithdrawals) p q)
    (hadm : p.admitBatch env s maxWithdrawals txs = .ok (true, p')) :
    RestoredBy env.overflowChecks (UInt32.ofNat maxWithdrawals) p' q := by
  induction txs generalizing p with
  | nil =>
    cases hadm
    exact h
  | cons tx txs ih =>
    unfold PendingBlock.admitBatch at hadm
    rw [Outcome.bind_eq_ok] at hadm
    obtain ⟨⟨b, p₁⟩, hp₁, hadm⟩ := hadm
    cases b with
    | true => exact ih (h.admitTx hp₁) hadm
    | false => cases hadm

/-- Failed transactions and the counters of storing take no room. -/
theorem RestoredBy.frame (h : RestoredBy overflowChecks limit p q) (failedTxs : List ExecutedTx)
    (iteration stored : Nat) : RestoredBy overflowChecks limit { p with
      failedTxs := failedTxs
      pendingBlockIteration := iteration
      storedAccountUpdates := stored } q :=
  ⟨h.1, h.2, h.3, h.4, h.5, h.6, h.7, h.8, h.9⟩

/-- A failure is pushed to both. -/
theorem RestoredBy.pushFailed {chunksNeeded : Nat} {batchId : Int} {error : String}
    {txs : List SignedZkSyncTx} {ops : List ExecutedOperations}
    (h : RestoredBy overflowChecks limit p q)
    (hpush : p.pushBatchResults overflowChecks chunksNeeded batchId
      (txs.zip (List.replicate txs.length (.error error))) = .ok (ops, p')) :
    RestoredBy overflowChecks limit p' q ∧ p'.successOperations = p.successOperations := by
  induction txs generalizing p ops with
  | nil =>
    cases hpush
    exact ⟨h, rfl⟩
  | cons tx txs ih =>
    rw [List.length_cons, List.replicate_succ, List.zip_cons_cons] at hpush
    unfold pushBatchResults pushTxResult at hpush
    rw [Outcome.ok_bind, Outcome.bind_eq_ok] at hpush
    obtain ⟨⟨ops', p₁⟩, hrest, hpush⟩ := hpush
    cases hpush
    obtain ⟨hq, hops⟩ := ih (h.frame _ _ _) hrest
    exact ⟨hq, hops⟩

/-- What was pushed to the lost block can be pushed to the restored one. -/
theorem pushSuccess_mono {chunksNeeded : Nat} {success : OpSuccess}
    {executed : UInt32 → ExecutedOperations} {e : ExecutedOperations}
    (hpush : p.pushSuccess overflowChecks chunksNeeded success executed = .ok (e, p'))
    (hroom : chunksNeeded ≤ p.chunksLeft) (h : RestoredBy overflowChecks limit p q) :
    p'.successOperations = p.successOperations ++ [e] ∧
      ∃ q', q.pushSuccess overflowChecks chunksNeeded success executed = .ok (e, q') ∧
        RestoredBy overflowChecks limit p' q' := by
  obtain ⟨chunksLeft, index, hsub, hincr, rfl, rfl⟩ := pushSuccess_eq_ok.mp hpush
  have hroom' := Nat.le_trans hroom h.chunks
  unfold usizeSub at hsub
  rw [if_pos hroom] at hsub
  obtain rfl := Except.ok.inj hsub
  have hsub' : usizeSub overflowChecks q.chunksLeft chunksNeeded =
      .ok (q.chunksLeft - chunksNeeded) := if_pos hroom'
  refine ⟨rfl, _, pushSuccess_eq_ok.mpr ⟨_, index, hsub', by rw [h.index, hincr],
    by rw [h.index], rfl⟩, ?_⟩
  refine ⟨?_, ?_, ?_, rfl, Nat.sub_le_sub_right h.chunks _, h.commitGas, h.verifyGas, h.withdrawals,
    h.bounded⟩
  · show q.successOperations ++ _ = p.successOperations ++ _
    rw [h.operations, h.index]
  · exact congrArg (· ++ success.updates) h.updates
  · exact congrArg (· ++ success.fee.toList) h.fees

end PendingBlock

end Room

/-! ## The restored keeper -/

/-- The keeper `r` has restored what the keeper `k` had. -/
structure Restored (env : Env) (k r : ZkSyncStateKeeper) : Prop where
  state : Alike k.state r.state
  fits : AllFit k.state ↔ AllFit r.state
  hashed : Hashed env.hasher r.state
  unprocessed : r.currentUnprocessedPriorityOp = k.currentUnprocessedPriorityOp
  limit : r.maxNumberOfWithdrawalsPerBlock = k.maxNumberOfWithdrawalsPerBlock
  block : k.pendingBlock.RestoredBy env.overflowChecks
    (UInt32.ofNat k.maxNumberOfWithdrawalsPerBlock) r.pendingBlock

section Keepers

variable {env : Env} {k k' r : ZkSyncStateKeeper}

/-- A priority operation that was executed is executed again. -/
theorem Restored.priorityOp (h : Restored env k r) {op : PriorityOp} {e : ExecutedOperations}
    (happ : k.applyPriorityOp env op = .ok (.ok e, k')) :
    ∃ r', r.applyPriorityOp env op = .ok (.ok e, r') ∧ Restored env k' r' ∧
      k'.pendingBlock.successOperations = k.pendingBlock.successOperations ++ [e] := by
  have heff := applyPriorityOp_effect happ
  dsimp only at heff
  cases heff with
  | @priorityOp _ nonExecutedOp gasCounter success state _ p next room converted gas executed pushed
      counter =>
    obtain ⟨gasCounter', hgas', hcommit, hverify⟩ := addOp_mono gas h.block.commitGas h.block.verifyGas
    obtain ⟨⟨success', state'⟩, hexec', hs, halike⟩ :=
      (h.state.executePriorityOp op.data).of_ok executed
    obtain rfl : success = success' := hs
    have hb : PendingBlock.RestoredBy env.overflowChecks
        (UInt32.ofNat k.maxNumberOfWithdrawalsPerBlock)
        { k.pendingBlock with gasCounter := gasCounter }
        { r.pendingBlock with gasCounter := gasCounter' } :=
      ⟨h.block.operations, h.block.updates, h.block.fees, h.block.index, h.block.chunks, hcommit,
        hverify, h.block.withdrawals, h.block.bounded⟩
    obtain ⟨hops, q, hpush', hq⟩ := PendingBlock.pushSuccess_mono pushed room hb
    have hconv' : r.state.priorityOpToZksyncOp op.data = .ok nonExecutedOp := by
      rw [← h.state.priorityOpToZksyncOp, converted]
    refine ⟨{ r with state := state', pendingBlock := q, currentUnprocessedPriorityOp := next }, ?_,
      ⟨halike, ?_, (Step.priorityOp hexec' : Step env _ _ _).writes.hashed h.hashed, rfl, h.limit, hq⟩,
      hops⟩
    · unfold ZkSyncStateKeeper.applyPriorityOp
      dsimp only
      rw [if_neg (Nat.not_lt_of_le (Nat.le_trans room h.block.chunks)), hconv']
      simp only [infallible, Outcome.ok_bind]
      rw [hgas']
      simp only [Outcome.ok_bind]
      rw [hexec']
      simp only [Outcome.ok_bind]
      rw [hpush', h.unprocessed, counter]
      rfl
    · exact (executePriorityOp_effect executed).allFit_iff.trans
        (h.fits.trans (executePriorityOp_effect hexec').allFit_iff.symm)

/-- A transaction that was executed is executed again, and one that failed is not. -/
theorem Restored.tx (h : Restored env k r) {tx : SignedZkSyncTx} {e : ExecutedOperations}
    (happ : k.applyTx env tx = .ok (.ok e, k')) :
    (∃ r', r.applyTx env tx = .ok (.ok e, r') ∧ Restored env k' r' ∧
      k'.pendingBlock.successOperations = k.pendingBlock.successOperations ++ [e]) ∨
    Restored env k' r ∧ k'.pendingBlock.successOperations = k.pendingBlock.successOperations := by
  have heff := applyTx_effect happ
  dsimp only at heff
  cases heff with
  -- both push the same result, with the same index
  | @tx _ chunksNeeded p p' result state _ estimate room admitted executed pushed =>
    cases result with
    | ok success =>
      left
      have hexec := executeTx_of_result executed
      obtain ⟨⟨success', state'⟩, hexec', hs, halike⟩ := (h.state.executeTx tx.tx).of_ok hexec
      obtain rfl : success = success' := hs
      obtain ⟨q, hadm', hq⟩ := PendingBlock.admitTx_mono h.state admitted h.block
      have hleft : p.chunksLeft = k.pendingBlock.chunksLeft := by
        rw [PendingBlock.counted_admitTx admitted]
      have hops₀ : p.successOperations = k.pendingBlock.successOperations := by
        rw [PendingBlock.counted_admitTx admitted]
      unfold PendingBlock.pushTxResult at pushed
      obtain ⟨hops, q', hpush', hq'⟩ :=
        PendingBlock.pushSuccess_mono pushed (by rw [hleft]; exact room) hq
      refine ⟨{ r with state := state', pendingBlock := q' }, ?_,
        ⟨halike, ?_, (Step.txOk hexec').writes.hashed h.hashed, h.unprocessed, h.limit, hq'⟩,
        hops.trans (by rw [hops₀])⟩
      · unfold ZkSyncStateKeeper.applyTx
        rw [← h.state.chunksForTx, estimate]
        simp only [infallible, Outcome.ok_bind]
        rw [if_neg (Nat.not_lt_of_le (Nat.le_trans room h.block.chunks)), h.limit, hadm',
          Outcome.ok_bind, ← h.limit]
        dsimp only
        unfold ZkSyncStateKeeper.executeTxResult
        rw [if_pos rfl, hexec', Outcome.ok_bind]
        dsimp only
        unfold PendingBlock.pushTxResult
        dsimp only
        rw [hpush']
        rfl
      · exact (executeTx_effect hexec).allFit_iff.trans
          ((and_congr_left fun _ => h.fits).trans (executeTx_effect hexec').allFit_iff.symm)
    | error error =>
      right
      obtain rfl := state_of_failed executed
      unfold PendingBlock.pushTxResult at pushed
      cases pushed
      refine ⟨⟨h.state, h.fits, h.hashed, h.unprocessed, h.limit,
        (h.block.admitTx admitted).frame _ _ _⟩, ?_⟩
      show p.successOperations = _
      rw [PendingBlock.counted_admitTx admitted]

/-- The record of a priority operation tells what to execute again. -/
theorem restoreOperation_priorityOp {op : PriorityOp} {e : ExecutedOperations}
    (happ : k.applyPriorityOp env op = .ok (.ok e, k')) :
    ZkSyncStateKeeper.restoreOperation env k e = .ok k' := by
  have heff := applyPriorityOp_effect happ
  dsimp only at heff
  cases heff with
  | priorityOp _ _ _ _ pushed _ =>
    obtain ⟨_, _, -, -, rfl, -⟩ := PendingBlock.pushSuccess_eq_ok.mp pushed
    unfold ZkSyncStateKeeper.restoreOperation
    dsimp only
    rw [happ]
    rfl

/-- So does the record of a transaction. -/
theorem restoreOperation_tx {tx : SignedZkSyncTx} {e : ExecutedOperations}
    (happ : k.applyTx env tx = .ok (.ok e, k')) :
    ZkSyncStateKeeper.restoreOperation env k e = .ok k' := by
  have hrecord : ∃ executed : ExecutedTx, e = .Tx executed ∧ executed.signedTx = tx := by
    have heff := applyTx_effect happ
    dsimp only at heff
    cases heff with
    | @tx _ _ _ _ result _ _ _ _ _ _ pushed =>
      cases result with
      | ok success =>
        unfold PendingBlock.pushTxResult at pushed
        obtain ⟨_, _, -, -, rfl, -⟩ := PendingBlock.pushSuccess_eq_ok.mp pushed
        exact ⟨_, rfl, rfl⟩
      | error error =>
        cases pushed
        exact ⟨_, rfl, rfl⟩
  obtain ⟨executed, rfl, rfl⟩ := hrecord
  unfold ZkSyncStateKeeper.restoreOperation
  dsimp only
  rw [happ]
  rfl

/-- Executing the operations of the block again, from `r₀` on, restores the keeper. -/
def RestoredFrom (env : Env) (r₀ k : ZkSyncStateKeeper) : Prop :=
  ∃ r, k.pendingBlock.successOperations.foldlM (ZkSyncStateKeeper.restoreOperation env) r₀ = .ok r ∧
    Restored env k r

variable {r₀ : ZkSyncStateKeeper}

/-- Whether all accounts fit is seen in the root hash. -/
theorem allFit_iff_root {H : Hasher Fr} {s : ZkSyncState} (hs : Hashed H s) :
    AllFit s ↔ ∃ hash, s.root H = .ok hash := by
  rcases rootHash_cases hs with ⟨hok, hall⟩ | ⟨herr, id, a, ha, hnot⟩
  · exact ⟨fun _ => hok, fun _ => hall⟩
  · refine ⟨fun hall => absurd (hall id a ha) hnot, fun ⟨hash, hok⟩ => ?_⟩
    rw [herr] at hok
    cases hok

/-- A state that was hashed can be hashed. -/
theorem allFit_of_rootHash {H : Hasher Fr} {s s' : ZkSyncState} {hash : Fr} (hs : Hashed H s)
    (hroot : s.rootHash H = .ok (hash, s')) : AllFit s' :=
  allFit_rootHash hroot ((allFit_iff_root hs).mpr ⟨hash, Outcome.map_eq_ok.mpr ⟨_, hroot, rfl⟩⟩)

/-- The same accounts and the same index make alike states. -/
theorem Same.alike {H : Hasher Fr} {s s' : ZkSyncState} (h : Same H s s') : Alike s' s where
  accounts := h.accounts
  index := h.index.symm
  size := Finmap.size_congr (mem_items_congr fun id => (rel_isSome (h.accounts id)).symm)

/-- A state that cannot be told from that of the lost keeper is restored as well. -/
theorem Restored.same (h : Restored env k r) (hexact : ExactState env k.state) {s : ZkSyncState}
    (hsame : Same env.hasher k.state s) (hhashed : Hashed env.hasher s) {p : PendingBlock}
    (hp : p.RestoredBy env.overflowChecks (UInt32.ofNat k.maxNumberOfWithdrawalsPerBlock)
      r.pendingBlock) : Restored env { k with state := s, pendingBlock := p } r where
  state := hsame.alike.trans h.state
  fits := by
    show AllFit s ↔ AllFit r.state
    rw [← h.fits, allFit_iff_root hhashed, allFit_iff_root hexact.hashed, hsame.root]
  hashed := h.hashed
  unprocessed := h.unprocessed
  limit := h.limit
  block := hp

/-- The end of a mini block keeps the two together. -/
theorem Restored.countIteration (h : Restored env k r) : Restored env k.countIteration r := by
  unfold ZkSyncStateKeeper.countIteration
  split
  · exact ⟨h.state, h.fits, h.hashed, h.unprocessed, h.limit, h.block.frame _ _ _⟩
  · exact h

theorem operations_countIteration (k : ZkSyncStateKeeper) :
    k.countIteration.pendingBlock.successOperations = k.pendingBlock.successOperations := by
  unfold ZkSyncStateKeeper.countIteration
  split <;> rfl

/-- One call of the lost keeper. -/
theorem RestoredFrom.step (hz : env.NoZeroSigner) (hexact : ExactState env k.state)
    (h : RestoredFrom env r₀ k) {e : KeeperCall × KeeperReply} (htrace : e.1.LeavesNoTrace env k)
    (hbatched : e.1.NotBatched env k) (hkeeps : e.2.KeepsBlock) (hstep : KeeperStep env k e k') :
    RestoredFrom env r₀ k' := by
  obtain ⟨r, hfold, h⟩ := h
  -- both push the same, so they stay together
  have hpush : ∀ {k' r' : ZkSyncStateKeeper} {e : ExecutedOperations},
      k'.pendingBlock.successOperations = k.pendingBlock.successOperations ++ [e] →
      ZkSyncStateKeeper.restoreOperation env r e = .ok r' → Restored env k' r' →
      RestoredFrom env r₀ k' := by
    intro k' r' e hops hr hrestored
    refine ⟨r', ?_, hrestored⟩
    rw [hops, List.foldlM_append, hfold, Outcome.ok_bind, List.foldlM_cons, hr]
    rfl
  obtain ⟨call, reply⟩ := e
  dsimp only at htrace hbatched hkeeps
  cases call with
  | priorityOp op =>
    unfold KeeperStep ZkSyncStateKeeper.answer at hstep
    rw [Outcome.bind_eq_ok] at hstep
    obtain ⟨⟨result, k₁⟩, happ, hstep⟩ := hstep
    cases result with
    | ok op' =>
      cases hstep
      obtain ⟨r', happ', hrestored, hops⟩ := h.priorityOp happ
      exact hpush hops (restoreOperation_priorityOp happ') hrestored
    | error op =>
      cases hstep
      exact hkeeps.elim
  | tx tx =>
    unfold KeeperStep ZkSyncStateKeeper.answer at hstep
    rw [Outcome.bind_eq_ok] at hstep
    obtain ⟨⟨result, k₁⟩, happ, hstep⟩ := hstep
    cases result with
    | ok op' =>
      cases hstep
      rcases h.tx happ with ⟨r', happ', hrestored, hops⟩ | ⟨hrestored, hops⟩
      · exact hpush hops (restoreOperation_tx happ') hrestored
      · exact ⟨r, by rw [hops, hfold], hrestored⟩
    | error u =>
      cases hstep
      exact hkeeps.elim
  | batch txs batchId =>
    -- a batch that found the block full would have left a trace
    have heff := hstep.effect
    dsimp only at heff
    cases heff with
    | full => exact hkeeps.elim
    | @batch _ _ chunksNeeded p p' results state _ estimate room admitted executed pushed =>
      have hletsIn : k.LetsIn env txs := ⟨chunksNeeded, p, estimate, room, admitted⟩
      have hops : p.successOperations = k.pendingBlock.successOperations := by
        rw [PendingBlock.counted_admitBatch admitted]
      have hp := h.block.admitBatch admitted
      rcases batch_cases hz hexact hletsIn htrace executed with
        ⟨es, hes, run, hdone, rfl⟩ | ⟨hsame, hhashed, error, rfl⟩
      · -- a batch that was executed is empty: nothing was pushed
        obtain rfl := hbatched hletsIn hdone
        obtain rfl := List.map_eq_nil_iff.mp hes.symm
        cases run
        cases pushed
        exact ⟨r, by rw [hops, hfold], ⟨h.state, h.fits, h.hashed, h.unprocessed, h.limit, hp⟩⟩
      · obtain ⟨hp', hops'⟩ := hp.pushFailed pushed
        exact ⟨r, by rw [hops', hops, hfold], h.same hexact hsame hhashed hp'⟩
    | sealed => exact hkeeps.elim
  | sealBlock =>
    -- both seal the same block
    have heff := hstep.effect
    dsimp only at heff
    cases heff with
    | full => exact hkeeps.elim
    | sealed => exact hkeeps.elim
  | endMiniBlock =>
    have heff := hstep.effect
    dsimp only at heff
    cases heff with
    | full => exact hkeeps.elim
    | sealed => exact hkeeps.elim
    | stored hstore =>
      obtain ⟨-, -, -, rfl⟩ := storePendingBlock_eq_ok hstore
      have hk := h.countIteration
      refine ⟨r, ?_, ⟨hk.state, hk.fits, hk.hashed, hk.unprocessed, hk.limit, hk.block.frame _ _ _⟩⟩
      show k.countIteration.pendingBlock.successOperations.foldlM _ r₀ = _
      rw [operations_countIteration, hfold]

end Keepers

/-! ## From the last sealed block on -/

/-- What the keepers of a run have in common. -/
structure RunOk (env : Env) (feeAccountAddress : Address) (sizes : List Nat) (maxWithdrawals : Nat)
    (k : ZkSyncStateKeeper) : Prop where
  state : ExactState env k.state
  feeAccount : (k.state.accountIdByAddress.lookup feeAccountAddress).isSome
  creates : CreatesKnown k.pendingBlock.accountUpdates k.state
  sizes : k.availableBlockChunkSizes = sizes
  limit : k.maxNumberOfWithdrawalsPerBlock = maxWithdrawals

/-- The keeper of a block that was just begun, whose root hash is known. -/
structure Begun (env : Env) (k : ZkSyncStateKeeper) : Prop where
  fits : AllFit k.state
  fresh : k.Fresh

section Sealed

variable {env : Env} {feeAccountAddress : Address} {sizes : List Nat} {maxWithdrawals : Nat}
  {k k' : ZkSyncStateKeeper}

/-- Each step of a keeper keeps what a restart relies on. -/
theorem RunOk.step (hz : env.NoZeroSigner)
    (h : RunOk env feeAccountAddress sizes maxWithdrawals k) {e : KeeperCall × KeeperReply}
    (htrace : e.1.LeavesNoTrace env k) (hstep : KeeperStep env k e k') :
    RunOk env feeAccountAddress sizes maxWithdrawals k' := by
  obtain ⟨hgrows, hcreates, -⟩ := createsKnown_step h.creates hstep
  obtain ⟨hsizes, hlimit⟩ := config_step hstep
  exact ⟨h.state.step hz htrace hstep, hgrows _ h.feeAccount, hcreates, hsizes.trans h.sizes,
    hlimit.trans h.limit⟩

/-- Sealing begins a block. -/
theorem begun_of_sealed (h : ExactState env k.state) {call : KeeperCall}
    {request : BlockCommitRequest} {updates : AppliedUpdatesRequest}
    (hstep : KeeperStep env k (call, .sealed request updates) k') : Begun env k' := by
  have heff := hstep.effect
  dsimp only at heff
  cases heff with
  | @sealed _ _ _ k₁ _ before hseal =>
    have hk : k₁.state = k.state := by
      rcases before with ⟨-, rfl⟩ | ⟨-, rfl⟩
      · rfl
      · exact state_countIteration k
    obtain ⟨_, paid, hashed, _, max, hs, -, hmax, rfl⟩ := sealPendingBlock_eq_ok hseal
    have hfees := hs.fees
    rw [hk] at hfees
    have hpaid := (Step.collectFee hfees : Step env _ _ _).writes.hashed h.hashed
    have hfit : AllFit hashed := allFit_of_rootHash hpaid hs.root
    exact ⟨hfit, max, hmax, rfl⟩

/-- Sealing leaves no trace in the next block. -/
theorem leavesNoTrace_of_sealed {call : KeeperCall} {request : BlockCommitRequest}
    {updates : AppliedUpdatesRequest}
    (hstep : KeeperStep env k (call, .sealed request updates) k') : call.LeavesNoTrace env k := by
  have heff := hstep.effect
  dsimp only at heff
  cases heff with
  | sealed before => rcases before with ⟨rfl, -⟩ | ⟨rfl, -⟩ <;> exact trivial

/-- Hashing leaves the accounts and the index. -/
theorem ExactState.rootHash {s s' : ZkSyncState} {hash : Fr} (h : ExactState env s)
    (hroot : s.rootHash env.hasher = .ok (hash, s')) : ExactState env s' := by
  refine ⟨fun address id => ?_, (Step.rootHash hroot : Step env _ _ _).writes.hashed h.hashed⟩
  rw [index_of_rootHash hroot, getAccount_of_rootHash hroot]
  exact h.index address id

variable {accounts : AList fun _ : AccountId => Account} {n : BlockNumber} {unprocessed : UInt64}
  {maxMini fastMini : Nat}

/-- Loading accounts that differ in their addresses gives an exact state. -/
theorem exactState_fromAccMap (hdistinct : ∀ id id' a a', accounts.lookup id = some a →
    accounts.lookup id' = some a' → a.address = a'.address → id = id') (blockNumber : BlockNumber) :
    ExactState env { ZkSyncState.fromAccMap env.hasher accounts n with blockNumber := blockNumber } :=
  ⟨indexExact_fromAccMap env.hasher n hdistinct, hashed_fromAccMap env.hasher accounts n⟩

/-- A new keeper begins a block. -/
theorem new_runOk (hnew : ZkSyncStateKeeper.new env (.fromAccMap env.hasher accounts n unprocessed)
      feeAccountAddress sizes maxMini fastMini maxWithdrawals = .ok k)
    (hdistinct : ∀ id id' a a', accounts.lookup id = some a → accounts.lookup id' = some a' →
      a.address = a'.address → id = id') :
    RunOk env feeAccountAddress sizes maxWithdrawals k ∧ Begun env k := by
  obtain ⟨blockNumber, feeAccountId, max, hok, ⟨hash, hroot⟩, hk⟩ := ZkSyncStateKeeper.new_eq_ok hnew
  have hexact : ExactState env k.state :=
    (exactState_fromAccMap hdistinct blockNumber).rootHash hroot
  obtain ⟨account, hfound⟩ := hok.feeAccount
  have hlast : sizes.getLast? = some max := (max?_eq_getLast? hok.sorted).symm.trans hok.largest
  have hfit : AllFit k.state := allFit_of_rootHash (exactState_fromAccMap hdistinct blockNumber).hashed hroot
  refine ⟨⟨hexact, ?_, ?_, ?_, ?_⟩, hfit, ?_⟩
  · rw [index_of_rootHash hroot]
    exact Option.isSome_of_mem (ZkSyncState.getAccountByAddress_eq_some _ hfound).1
  · rw [hk]
    exact noCreate_nil.createsKnown _
  · rw [hk]
    rfl
  · rw [hk]
    rfl
  · rw [hk]
    exact ⟨max, hlast, rfl⟩

/-- A server that loads the accounts of a block that was just begun gets a keeper
that has restored it. -/
theorem exists_restarted (h : RunOk env feeAccountAddress sizes maxWithdrawals k) (hb : Begun env k)
    (hsorted : sizes.Pairwise (· ≤ ·)) (haccounts : ∀ id, accounts.lookup id = k.state.getAccount id)
    (hn : u32Increment env.overflowChecks n = .ok k.state.blockNumber) (maxMini fastMini : Nat) :
    ∃ r₀, ZkSyncStateKeeper.new env (.fromAccMap env.hasher accounts n
        k.currentUnprocessedPriorityOp) feeAccountAddress sizes maxMini fastMini maxWithdrawals =
      .ok r₀ ∧ RestoredFrom env r₀ k := by
  obtain ⟨max, hmax, hpending⟩ := hb.fresh
  rw [h.sizes] at hmax
  -- stored accounts have addresses of their own, so loading them loses nobody
  have hdistinct : ∀ id id' a a', accounts.lookup id = some a → accounts.lookup id' = some a' →
      a.address = a'.address → id = id' := by
    intro id id' a a' ha ha' hadr
    have hid := (h.state.index a.address id).mpr ⟨a, by rw [← haccounts, ha], rfl⟩
    have hid' := (h.state.index a'.address id').mpr ⟨a', by rw [← haccounts, ha'], rfl⟩
    rw [← hadr, hid] at hid'
    exact Option.some.inj hid'
  let s₀ : ZkSyncState := { ZkSyncState.fromAccMap env.hasher accounts n with
    blockNumber := k.state.blockNumber }
  have hs₀ : ExactState env s₀ := exactState_fromAccMap hdistinct _
  have hget : ∀ id, s₀.getAccount id = k.state.getAccount id :=
    fun id => (getAccount_fromAccMap env.hasher accounts n id).trans (haccounts id)
  have halike : Alike k.state s₀ := by
    refine ⟨fun id => ?_, Finmap.ext_lookup fun address => Option.ext fun id => ?_,
      Finmap.size_congr (mem_items_congr fun id => by rw [hget])⟩
    · rw [hget]
      exact (Alike.refl k.state).accounts id
    · rw [hs₀.index, h.state.index, hget]
  have hfee := h.feeAccount
  rw [← halike.index] at hfee
  obtain ⟨feeAccountId, hfee⟩ := Option.isSome_iff_exists.mp hfee
  obtain ⟨account, haccount, -⟩ := (hs₀.index _ _).mp hfee
  -- the fee account is found again
  have hfound : s₀.getAccountByAddress feeAccountAddress = .ok (some (feeAccountId, account)) := by
    unfold ZkSyncState.getAccountByAddress
    rw [hfee]
    dsimp only
    rw [haccount]
    rfl
  have hok : ZkSyncStateKeeper.NewOk env (.fromAccMap env.hasher accounts n
      k.currentUnprocessedPriorityOp) feeAccountAddress sizes k.state.blockNumber feeAccountId max :=
    ⟨fun hnil => (by rw [hnil] at hmax; cases hmax), hsorted, hn, ⟨account, hfound⟩,
      (max?_eq_getLast? hsorted).trans hmax⟩
  obtain ⟨r₀, hnew, hr₀, hhash⟩ := Hashable.exists_new maxMini fastMini maxWithdrawals
    (fun id a ha => hb.fits id a (by rw [← haccounts, ha])) hok
  refine ⟨r₀, hnew, r₀, by rw [hpending]; rfl, ?_⟩
  have hrest := hr₀.rest
  refine ⟨halike.trans hr₀.state, ⟨fun _ => hhash.accounts, fun _ => hb.fits⟩, hhash.hashed, ?_, ?_, ?_⟩
  · rw [hrest]
    rfl
  · rw [hrest, h.limit]
    rfl
  · rw [hrest, hpending]
    exact ⟨rfl, rfl, rfl, rfl, Nat.le_refl _, Nat.le_refl _, Nat.le_refl _, Or.inl (UInt32.le_refl _),
      UInt32.zero_le⟩

end Sealed

/-! ## Recovery -/

/-- A call of the pending block that can be recovered. -/
def PendingStep (env : Env) (k : ZkSyncStateKeeper) (e : KeeperCall × KeeperReply)
    (k' : ZkSyncStateKeeper) : Prop :=
  e.1.LeavesNoTrace env k ∧ e.1.NotBatched env k ∧ e.2.KeepsBlock ∧ KeeperStep env k e k'

/-- What a server that was started with the keeper `k₀`, and restored a pending block
to get `k₁`, sealed last: `kₛ` is the keeper whose accounts are those of the last
sealed block, and the block under construction goes on from `k`. -/
inductive LastSealed (env : Env) (k₀ k₁ : ZkSyncStateKeeper) :
    ZkSyncStateKeeper → ZkSyncStateKeeper → Prop
  | start : LastSealed env k₀ k₁ k₀ k₁
  | sealed {tr : List (KeeperCall × KeeperReply)} {call : KeeperCall} {request : BlockCommitRequest}
      {updates : AppliedUpdatesRequest} {k₂ kₛ : ZkSyncStateKeeper}
      (run : Run (fun k e k' => e.1.LeavesNoTrace env k ∧ KeeperStep env k e k') k₁ tr k₂)
      (last : KeeperStep env k₂ (call, .sealed request updates) kₛ) : LastSealed env k₀ k₁ kₛ kₛ

/-- The keeper `r` has recovered what the keeper `k` had stored. -/
structure Recovered (env : Env) (k r : ZkSyncStateKeeper) : Prop where
  accounts : ∀ id, Option.Rel Account.Equiv (k.state.getAccount id) (r.state.getAccount id)
  root : r.state.root env.hasher = k.state.root env.hasher
  accountUpdates : r.pendingBlock.accountUpdates = k.pendingBlock.accountUpdates
  storedAccountUpdates : r.pendingBlock.storedAccountUpdates = k.pendingBlock.storedAccountUpdates
  successOperations : r.pendingBlock.successOperations = k.pendingBlock.successOperations
  failedTxs : r.pendingBlock.failedTxs = k.pendingBlock.failedTxs
  collectedFees : r.pendingBlock.collectedFees = k.pendingBlock.collectedFees
  unprocessed : r.currentUnprocessedPriorityOp = k.currentUnprocessedPriorityOp
  chunksLeft : k.pendingBlock.chunksLeft ≤ r.pendingBlock.chunksLeft

section Recovery

variable {env : Env} {feeAccountAddress : Address} {sizes : List Nat} {maxWithdrawals : Nat}
  {k k' r r₀ : ZkSyncStateKeeper}

/-- Each step keeps the restored keeper together with the one before. -/
theorem PendingStep.keep (hz : env.NoZeroSigner)
    (h : RunOk env feeAccountAddress sizes maxWithdrawals k ∧ RestoredFrom env r₀ k)
    {e : KeeperCall × KeeperReply} (hstep : PendingStep env k e k') :
    RunOk env feeAccountAddress sizes maxWithdrawals k' ∧ RestoredFrom env r₀ k' := by
  obtain ⟨htrace, hbatched, hkeeps, hstep⟩ := hstep
  exact ⟨h.1.step hz htrace hstep, h.2.step hz h.1.state htrace hbatched hkeeps hstep⟩

/-- The call that executes an operation again, alone. -/
def ExecutedOperations.call : ExecutedOperations → KeeperCall
  | .Tx tx => .tx tx.signedTx
  | .PriorityOp op => .priorityOp op.priorityOp

/-- Restoring never executes a batch. -/
theorem ExecutedOperations.call_ne_batch (op : ExecutedOperations) (txs : List SignedZkSyncTx)
    (batchId : Int) : op.call ≠ .batch txs batchId := by
  cases op <;> exact fun h => (by cases h)

/-- Restoring an operation is a call that executes it. -/
theorem restoreOperation_step {op : ExecutedOperations}
    (h : ZkSyncStateKeeper.restoreOperation env k op = .ok k') :
    ∃ e, KeeperStep env k (op.call, .executed [e]) k' := by
  cases op with
  | Tx tx =>
    unfold ZkSyncStateKeeper.restoreOperation at h
    dsimp only at h
    rw [Outcome.bind_eq_ok] at h
    obtain ⟨⟨result, k₁⟩, happ, h⟩ := h
    cases result with
    | ok e =>
      cases h
      refine ⟨e, ?_⟩
      unfold KeeperStep ZkSyncStateKeeper.answer ExecutedOperations.call
      dsimp only
      rw [happ]
      rfl
    | error u => cases h
  | PriorityOp op =>
    unfold ZkSyncStateKeeper.restoreOperation at h
    dsimp only at h
    rw [Outcome.bind_eq_ok] at h
    obtain ⟨⟨result, k₁⟩, happ, h⟩ := h
    cases result with
    | ok e =>
      cases h
      refine ⟨e, ?_⟩
      unfold KeeperStep ZkSyncStateKeeper.answer ExecutedOperations.call
      dsimp only
      rw [happ]
      rfl
    | error op => cases h

/-- Restoring an operation is a call that can be recovered. -/
theorem pendingStep_restore {op : ExecutedOperations}
    (h : ZkSyncStateKeeper.restoreOperation env k op = .ok k') : ∃ e, PendingStep env k e k' := by
  obtain ⟨e, hstep⟩ := restoreOperation_step h
  refine ⟨(op.call, .executed [e]), ?_, ?_, trivial, hstep⟩ <;> cases op <;> exact trivial

/-- Restoring a pending block is a run of the keeper. -/
theorem restore_run {ops : List ExecutedOperations}
    (h : ops.foldlM (ZkSyncStateKeeper.restoreOperation env) k = .ok k') :
    ∃ tr, Run (PendingStep env) k tr k' := by
  induction ops generalizing k with
  | nil =>
    cases h
    exact ⟨[], .nil _⟩
  | cons op ops ih =>
    rw [List.foldlM_cons, Outcome.bind_eq_ok] at h
    obtain ⟨k₁, hop, h⟩ := h
    obtain ⟨e, hstep⟩ := pendingStep_restore hop
    obtain ⟨tr, hrun⟩ := ih h
    exact ⟨e :: tr, .cons hstep hrun⟩

/-- What `initialize` did, if it succeeded. -/
theorem initializeWith_eq_ok {block : SendablePendingBlock} :
    k.initializeWith env (some block) = .ok k' ↔ ∃ k₁,
      block.successOperations.foldlM (ZkSyncStateKeeper.restoreOperation env) k = .ok k₁ ∧
      k' = { k₁ with pendingBlock := { k₁.pendingBlock with
        storedAccountUpdates := k₁.pendingBlock.accountUpdates.length
        failedTxs := block.failedTxs } } := by
  unfold ZkSyncStateKeeper.initializeWith
  simp only [Outcome.bind_eq_ok, Outcome.pure_eq, Except.ok.injEq]
  exact exists_congr fun k₁ => and_congr_right fun _ => eq_comm

/-- A keeper that was restored can be restored again. -/
theorem RunOk.initializeWith (hz : env.NoZeroSigner)
    (h : RunOk env feeAccountAddress sizes maxWithdrawals k) {pending : Option SendablePendingBlock}
    (hinit : k.initializeWith env pending = .ok k') :
    RunOk env feeAccountAddress sizes maxWithdrawals k' := by
  cases pending with
  | none =>
    cases hinit
    exact h
  | some block =>
    obtain ⟨k₁, hfold, rfl⟩ := initializeWith_eq_ok.mp hinit
    obtain ⟨tr, hrun⟩ := restore_run hfold
    have hk₁ : RunOk env feeAccountAddress sizes maxWithdrawals k₁ :=
      hrun.invariant (fun _ _ _ hk hstep => hk.step hz hstep.1 hstep.2.2.2) h
    obtain ⟨hstate, hfee, hcreates, hsizes, hlimit⟩ := hk₁
    exact ⟨hstate, hfee, hcreates, hsizes, hlimit⟩

/-- A server that restores a block when it starts is as if it had executed it. -/
theorem RestoredFrom.initializeWith (hz : env.NoZeroSigner)
    (h : RunOk env feeAccountAddress sizes maxWithdrawals k) (hr : RestoredFrom env r₀ k)
    {pending : Option SendablePendingBlock} (hinit : k.initializeWith env pending = .ok k') :
    RestoredFrom env r₀ k' := by
  cases pending with
  | none =>
    cases hinit
    exact hr
  | some block =>
    obtain ⟨k₁, hfold, rfl⟩ := initializeWith_eq_ok.mp hinit
    obtain ⟨tr, hrun⟩ := restore_run hfold
    obtain ⟨-, r, hr, hrestored⟩ := hrun.invariant (fun _ _ _ hk hstep => hstep.keep hz hk) ⟨h, hr⟩
    exact ⟨r, hr, hrestored.state, hrestored.fits, hrestored.hashed, hrestored.unprocessed,
      hrestored.limit, hrestored.block.frame _ _ _⟩

/-- States alike, of which both or none have bits, have one root hash. -/
theorem root_of_alike {H : Hasher Fr} {s s' : ZkSyncState} (h : Alike s s')
    (hfits : AllFit s ↔ AllFit s') (hs : Hashed H s) (hs' : Hashed H s') : s'.root H = s.root H := by
  by_cases hfit : AllFit s
  · have hfit' := hfits.mp hfit
    refine (rootHash_congr hs' hs fun id => ?_).symm
    have hrel := h.accounts id
    have ha := hfit id
    have ha' := hfit' id
    generalize s.getAccount id = o at hrel ha
    generalize s'.getAccount id = o' at hrel ha'
    cases hrel with
    | none => exact .none
    | some hequiv => exact .some ⟨hequiv, fun _ => ha' _ rfl, fun _ => ha _ rfl⟩
  · rcases rootHash_cases hs with ⟨-, hall⟩ | ⟨herr, -⟩
    · exact absurd hall hfit
    rcases rootHash_cases hs' with ⟨-, hall⟩ | ⟨herr', -⟩
    · exact absurd (hfits.mpr hall) hfit
    rw [herr, herr']

/-- What has been restored has the same root hash, or none for the same reason. -/
theorem Restored.root (h : Restored env k r) (hexact : ExactState env k.state) :
    r.state.root env.hasher = k.state.root env.hasher :=
  root_of_alike h.state h.fits hexact.hashed h.hashed

variable {accounts saved : AList fun _ : AccountId => Account} {lastBlockNumber n : BlockNumber}
  {unprocessed : UInt64} {maxMini fastMini : Nat} {k₀ k₁ kₛ kᵦ : ZkSyncStateKeeper}

/-- A server that starts over from the last sealed block and restores the stored
pending block gets back what it had lost, when no failed batch left a trace and no
executed batch is in the pending block. -/
theorem pending_block_recovered (hz : env.NoZeroSigner)
    (hdistinct : ∀ id id' a a', accounts.lookup id = some a → accounts.lookup id' = some a' →
      a.address = a'.address → id = id')
    (hnew : ZkSyncStateKeeper.new env (.fromAccMap env.hasher accounts lastBlockNumber unprocessed)
      feeAccountAddress sizes maxMini fastMini maxWithdrawals = .ok k₀)
    {pending : Option SendablePendingBlock} (hinit : k₀.initializeWith env pending = .ok k₁)
    (hsealed : LastSealed env k₀ k₁ kₛ kᵦ) {tr : List (KeeperCall × KeeperReply)}
    (hblock : Run (PendingStep env) kᵦ tr k) {pendingBlock : SendablePendingBlock}
    {updates : AppliedUpdatesRequest}
    (hstore : KeeperStep env k (.endMiniBlock, .stored pendingBlock updates) k')
    (hsaved : ∀ id, saved.lookup id = kₛ.state.getAccount id)
    (hn : u32Increment env.overflowChecks n = .ok kₛ.state.blockNumber) :
    ∃ r₀ r, ZkSyncStateKeeper.new env (.fromAccMap env.hasher saved n
        kₛ.currentUnprocessedPriorityOp) feeAccountAddress sizes maxMini fastMini maxWithdrawals =
      .ok r₀ ∧ r₀.initializeWith env (some pendingBlock) = .ok r ∧ Recovered env k' r := by
  obtain ⟨_, _, _, hok, -, -⟩ := ZkSyncStateKeeper.new_eq_ok hnew
  obtain ⟨hk₀, hbegun⟩ := new_runOk hnew hdistinct
  -- the server starts over from `kₛ`; what was executed since then is restored
  obtain ⟨r₀, hnew', hkᵦ⟩ : ∃ r₀, ZkSyncStateKeeper.new env (.fromAccMap env.hasher saved n
        kₛ.currentUnprocessedPriorityOp) feeAccountAddress sizes maxMini fastMini maxWithdrawals =
      .ok r₀ ∧ RunOk env feeAccountAddress sizes maxWithdrawals kᵦ ∧ RestoredFrom env r₀ kᵦ := by
    cases hsealed with
    | start =>
      obtain ⟨r₀, hnew', hrestored⟩ :=
        exists_restarted hk₀ hbegun hok.sorted hsaved hn maxMini fastMini
      exact ⟨r₀, hnew', hk₀.initializeWith hz hinit, hrestored.initializeWith hz hk₀ hinit⟩
    | @sealed _ _ _ _ k₂ _ run last =>
      have hk₂ : RunOk env feeAccountAddress sizes maxWithdrawals k₂ :=
        run.invariant (fun _ _ _ hk hstep => hk.step hz hstep.1 hstep.2)
          (hk₀.initializeWith hz hinit)
      have hkₛ := hk₂.step hz (leavesNoTrace_of_sealed last) last
      obtain ⟨r₀, hnew', hrestored⟩ := exists_restarted hkₛ (begun_of_sealed hk₂.state last) hok.sorted
        hsaved hn maxMini fastMini
      exact ⟨r₀, hnew', hkₛ, hrestored⟩
  have hlast : PendingStep env k (.endMiniBlock, .stored pendingBlock updates) k' :=
    ⟨trivial, trivial, trivial, hstore⟩
  obtain ⟨hk, r, hfold, hrestored⟩ := hlast.keep hz
    (hblock.invariant (fun _ _ _ hk hstep => hstep.keep hz hk) hkᵦ)
  have hsent : pendingBlock.successOperations = k'.pendingBlock.successOperations ∧
      pendingBlock.failedTxs = k'.pendingBlock.failedTxs ∧
      k'.pendingBlock.storedAccountUpdates = k'.pendingBlock.accountUpdates.length := by
    have heff := hstore.effect
    dsimp only at heff
    cases heff with
    | stored hstored =>
      obtain ⟨-, rfl, -, rfl⟩ := storePendingBlock_eq_ok hstored
      exact ⟨rfl, rfl, rfl⟩
  obtain ⟨hops, hfailed, hcount⟩ := hsent
  refine ⟨r₀, _, hnew', initializeWith_eq_ok.mpr ⟨r, by rw [hops, hfold], rfl⟩, hrestored.state.accounts,
    hrestored.root hk.state, hrestored.block.updates, ?_, hrestored.block.operations, hfailed,
    hrestored.block.fees, hrestored.unprocessed, hrestored.block.chunks⟩
  show r.pendingBlock.accountUpdates.length = _
  rw [hrestored.block.updates, hcount]

end Recovery

/-! ### A batch in the pending block -/

section Batch

variable {env : Env} {k k' : ZkSyncStateKeeper}

/-- So what it executes has no batch id. -/
theorem noBatch_restoreOperation {op : ExecutedOperations}
    (h : ZkSyncStateKeeper.restoreOperation env k op = .ok k')
    (hk : ∀ tx, .Tx tx ∈ k.pendingBlock.successOperations → tx.batchId = none) :
    ∀ tx, .Tx tx ∈ k'.pendingBlock.successOperations → tx.batchId = none := by
  obtain ⟨e, hstep⟩ := restoreOperation_step h
  have heff := hstep.effect
  have hbatch := op.call_ne_batch
  dsimp only at heff
  generalize op.call = call at heff hbatch
  cases heff with
  | @tx _ _ p _ result _ _ _ _ admitted _ pushed =>
    have hops : p.successOperations = k.pendingBlock.successOperations := by
      rw [PendingBlock.counted_admitTx admitted]
    rw [← hops] at hk
    unfold PendingBlock.pushTxResult at pushed
    cases result with
    | ok success =>
      obtain ⟨_, _, -, -, -, rfl⟩ := PendingBlock.pushSuccess_eq_ok.mp pushed
      intro tx' htx'
      rcases List.mem_append.mp htx' with htx' | htx'
      · exact hk tx' htx'
      · cases List.mem_singleton.mp htx'
        rfl
    | error error =>
      cases pushed
      exact hk
  | priorityOp _ _ _ _ pushed =>
    obtain ⟨_, _, -, -, -, rfl⟩ := PendingBlock.pushSuccess_eq_ok.mp pushed
    intro tx' htx'
    rcases List.mem_append.mp htx' with htx' | htx'
    · exact hk tx' htx'
    · cases List.mem_singleton.mp htx'
  | batch => exact absurd rfl (hbatch _ _)

/-- An operation that was restored belongs to no batch. -/
theorem noBatch_restored {ops : List ExecutedOperations}
    (hfold : ops.foldlM (ZkSyncStateKeeper.restoreOperation env) k = .ok k')
    (hk : ∀ tx, .Tx tx ∈ k.pendingBlock.successOperations → tx.batchId = none) :
    ∀ tx, .Tx tx ∈ k'.pendingBlock.successOperations → tx.batchId = none := by
  induction ops generalizing k with
  | nil =>
    cases hfold
    exact hk
  | cons op ops ih =>
    rw [List.foldlM_cons, Outcome.bind_eq_ok] at hfold
    obtain ⟨k₁, hop, hfold⟩ := hfold
    exact ih hfold (noBatch_restoreOperation hop hk)

variable (env) in
/-- A block that may go on is stored. -/
theorem exists_stored
    (hstored : k.pendingBlock.storedAccountUpdates ≤ k.pendingBlock.accountUpdates.length)
    (hiteration : k.pendingBlock.pendingBlockIteration < k.iterationsAllowed) :
    ∃ pendingBlock updates k', KeeperStep env k (.endMiniBlock, .stored pendingBlock updates) k' ∧
      k'.pendingBlock.successOperations = k.pendingBlock.successOperations := by
  have hcount : k.countIteration.iterationsAllowed = k.iterationsAllowed ∧
      k.countIteration.pendingBlock.pendingBlockIteration ≤
        k.pendingBlock.pendingBlockIteration + 1 ∧
      k.countIteration.pendingBlock.storedAccountUpdates ≤
        k.countIteration.pendingBlock.accountUpdates.length := by
    unfold ZkSyncStateKeeper.countIteration
    split
    · exact ⟨rfl, Nat.le_refl _, hstored⟩
    · exact ⟨rfl, Nat.le_succ _, hstored⟩
  obtain ⟨hallowed, hle, hstored'⟩ := hcount
  have hslice : sliceFrom k.countIteration.pendingBlock.accountUpdates
      k.countIteration.pendingBlock.storedAccountUpdates = .ok _ := sliceFrom_eq_ok.mpr ⟨hstored', rfl⟩
  obtain ⟨⟨⟨pendingBlock, updates⟩, k'⟩, hstore⟩ :
      ∃ x, k.countIteration.storePendingBlock = .ok x := by
    unfold ZkSyncStateKeeper.storePendingBlock
    dsimp only
    rw [hslice]
    exact ⟨_, rfl⟩
  have hops : k'.pendingBlock.successOperations = k.countIteration.pendingBlock.successOperations := by
    obtain ⟨-, -, -, rfl⟩ := storePendingBlock_eq_ok hstore
    rfl
  refine ⟨pendingBlock, updates, k', ?_, hops.trans (operations_countIteration k)⟩
  unfold KeeperStep ZkSyncStateKeeper.answer
  dsimp only
  rw [if_neg (by omega), hstore]
  rfl

end Batch

/-- What a call leaves in the pending block of the sample keeper, computed: it has
not been stored, and its only operation is this transaction with this batch. -/
def ZkSyncStateKeeper.leavesTx (k : ZkSyncStateKeeper) (env : Env) (call : KeeperCall)
    (batchId : Option Int) : Option Bool :=
  (k.answers env [call]).toOption.map fun r =>
    decide (r.2.pendingBlock.storedAccountUpdates = 0) &&
    decide (r.2.pendingBlock.pendingBlockIteration < r.2.iterationsAllowed) &&
    match r.1, r.2.pendingBlock.successOperations with
    | [(_, .executed _)], [.Tx tx] => decide (tx.batchId = batchId)
    | _, _ => false

/-- A call that was computed is answered by a new keeper, and the block is stored. -/
theorem exists_leavesTx (call : KeeperCall) (hentry : call.IsEntry) (batchId : Option Int)
    (hleaves : (oneAccountKeeper sampleAccount).leavesTx (Env.built 1 false) call batchId =
      some true) :
    ∃ k₀ k k' ops pendingBlock updates tx,
      ZkSyncStateKeeper.new (Env.built 1 false) (oneAccountParams sampleAccount) 1 [6, 30] 10 2 5 =
        .ok k₀ ∧
      KeeperStep (Env.built 1 false) k₀ (call, .executed ops) k ∧
      KeeperStep (Env.built 1 false) k (.endMiniBlock, .stored pendingBlock updates) k' ∧
      k'.pendingBlock.successOperations = [.Tx tx] ∧ tx.batchId = batchId := by
  obtain ⟨k₀, hnew, halike, -⟩ := new_oneAccountKeeper fits_sampleAccount rfl
  obtain ⟨⟨tr, k₁⟩, hsome, hleaves⟩ := Option.map_eq_some_iff.mp hleaves
  obtain ⟨⟨tr', k⟩, hanswers, htr, hk⟩ := (halike.answers [call]
    fun c hc => by rw [List.mem_singleton.mp hc]; exact hentry).of_ok (Outcome.toOption_eq_some.mp hsome)
  obtain rfl : tr = tr' := htr
  have hrest : k = { k₁ with state := k.state } := hk.rest
  simp only [Bool.and_eq_true, decide_eq_true_eq] at hleaves
  obtain ⟨⟨hstored, hiteration⟩, hleaves⟩ := hleaves
  split at hleaves
  next ops tx hops =>
    unfold ZkSyncStateKeeper.answers at hanswers
    rw [Outcome.bind_eq_ok] at hanswers
    obtain ⟨⟨reply, k₂⟩, hanswer, hanswers⟩ := hanswers
    cases hanswers
    obtain ⟨pendingBlock, updates, k', hstore, hops'⟩ := exists_stored
      (Env.built 1 false) (k := k) (by rw [hrest, hstored]; exact Nat.zero_le _)
      (by rw [hrest]; exact hiteration)
    refine ⟨k₀, k, k', ops, pendingBlock, updates, tx, hnew, hanswer, hstore, ?_,
      of_decide_eq_true hleaves⟩
    rw [hops', hrest]
    exact hops
  next => cases hleaves

/-- A new keeper can be started again from what it was started from. -/
theorem saved_of_new {env : Env} {accounts : AList fun _ : AccountId => Account} {n : BlockNumber}
    {unprocessed : UInt64} {feeAccountAddress : Address} {sizes : List Nat}
    {maxMini fastMini maxWithdrawals : Nat} {k : ZkSyncStateKeeper}
    (hnew : ZkSyncStateKeeper.new env (.fromAccMap env.hasher accounts n unprocessed)
      feeAccountAddress sizes maxMini fastMini maxWithdrawals = .ok k) :
    (∀ id, accounts.lookup id = k.state.getAccount id) ∧
      u32Increment env.overflowChecks n = .ok k.state.blockNumber ∧
      k.currentUnprocessedPriorityOp = unprocessed := by
  obtain ⟨blockNumber, _, _, hok, ⟨hash, hroot⟩, hk⟩ := ZkSyncStateKeeper.new_eq_ok hnew
  refine ⟨fun id => ?_, ?_, by rw [hk]; rfl⟩
  · rw [getAccount_of_rootHash hroot]
    exact (getAccount_fromAccMap env.hasher accounts n id).symm
  · rw [(Write.hash hroot).blockNumber]
    exact hok.nextBlock

/-- A transfer in a pending block is recovered. -/
theorem pending_block_recovered_sampleTransfer : ∃ k₀ k pendingBlock,
    ZkSyncStateKeeper.new (Env.built 1 false) (oneAccountParams sampleAccount) 1 [6, 30] 10 2 5 =
      .ok k₀ ∧
    (∃ updates ops, Run (KeeperStep (Env.built 1 false)) k₀
      [(.tx ⟨.Transfer (sampleTransfer 1 0), none⟩, .executed ops),
        (.endMiniBlock, .stored pendingBlock updates)] k) ∧
    ∃ r₀ r, ZkSyncStateKeeper.new (Env.built 1 false) (oneAccountParams sampleAccount) 1 [6, 30] 10 2
        5 = .ok r₀ ∧ r₀.initializeWith (Env.built 1 false) (some pendingBlock) = .ok r ∧
      Recovered (Env.built 1 false) k r := by
  obtain ⟨k₀, k, k', ops, pendingBlock, updates, tx, hnew, hstep, hstore, -⟩ :=
    exists_leavesTx (.tx ⟨.Transfer (sampleTransfer 1 0), none⟩) trivial none
      (by decide +kernel)
  obtain ⟨hsaved, hn, hunprocessed⟩ := saved_of_new hnew
  have hblock : Run (PendingStep (Env.built 1 false)) k₀
      [(.tx ⟨.Transfer (sampleTransfer 1 0), none⟩, .executed ops)] k :=
    .single ⟨trivial, trivial, trivial, hstep⟩
  have hz : (Env.built 1 false).NoZeroSigner :=
    noZeroSigner_signedBy (by decide : (1 : PubKeyHash) ≠ 0)
  have hrecovered := pending_block_recovered hz sampleStored_distinct hnew
    (rfl : k₀.initializeWith (Env.built 1 false) none = .ok k₀) .start hblock hstore hsaved hn
  rw [hunprocessed] at hrecovered
  exact ⟨k₀, k', pendingBlock, hnew, ⟨updates, ops, .cons hstep (Run.single hstore)⟩, hrecovered⟩

/-- A batch of one transfer is stored with its id, and recovered without. -/
theorem batch_lost : ∃ k₀ k pendingBlock,
    ZkSyncStateKeeper.new (Env.built 1 false) (oneAccountParams sampleAccount) 1 [6, 30] 10 2 5 =
      .ok k₀ ∧
    (∀ id, sampleStored.lookup id = k₀.state.getAccount id) ∧
    (∃ updates ops, Run (KeeperStep (Env.built 1 false)) k₀
      [(.batch (sampleTransfers.take 1) 1, .executed ops),
        (.endMiniBlock, .stored pendingBlock updates)] k) ∧
    ¬ ∃ r₀ r, ZkSyncStateKeeper.new (Env.built 1 false) (oneAccountParams sampleAccount) 1 [6, 30] 10
        2 5 = .ok r₀ ∧ r₀.initializeWith (Env.built 1 false) (some pendingBlock) = .ok r ∧
      Recovered (Env.built 1 false) k r := by
  obtain ⟨k₀, k, k', ops, pendingBlock, updates, tx, hnew, hstep, hstore, hops, hbatch⟩ :=
    exists_leavesTx (.batch (sampleTransfers.take 1) 1) trivial (some 1)
      (by decide +kernel)
  refine ⟨k₀, k', pendingBlock, hnew, (saved_of_new hnew).1,
    ⟨updates, ops, .cons hstep (Run.single hstore)⟩, ?_⟩
  rintro ⟨r₀, r, hnew', hinit, hrecovered⟩
  obtain ⟨r₁, hfold, rfl⟩ := initializeWith_eq_ok.mp hinit
  obtain ⟨_, _, _, -, -, hr₀⟩ := ZkSyncStateKeeper.new_eq_ok hnew'
  have hempty : r₀.pendingBlock.successOperations = [] := by
    rw [hr₀]
    rfl
  have hsame : r₁.pendingBlock.successOperations = _ := hrecovered.successOperations
  have hnone := noBatch_restored hfold (by rw [hempty]; exact fun _ h => absurd h List.not_mem_nil) tx
    (by rw [hsame, hops]; exact List.mem_singleton_self _)
  rw [hbatch] at hnone
  cases hnone

end ZkSync
