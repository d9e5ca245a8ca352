import Mathlib.Algebra.Order.BigOperators.Group.Finset
import ZkSync.Core.BlockOps
import ZkSync.Core.Recovery
import ZkSync.Core.WithinBlock
import ZkSync.State.Conservation

/-!
# What a block moves

The money side of a block, and its requests. From the state in which a block is begun,
the balances and the fees that are not collected yet follow the operations of the pending
block (`FundsFollow`), whatever the calls; when the block is sealed its fees are
collected, so the balances have moved by what the block deposits and withdraws, and by
nothing else. The requests a block executes are those the keeper was called with, in
their order (`RequestsStep`).
-/

namespace ZkSync

/-! ## Operations -/

/-- The deposit that a request asks for. -/
def ZkSyncPriorityOp.deposited (token : TokenId) : ZkSyncPriorityOp → Nat
  | .Deposit op => if op.token = token then op.amount else 0
  | .FullExit _ => 0

/-- What the operation pays out. -/
def ZkSyncOp.withdrawn (token : TokenId) : ZkSyncOp → Nat
  | .Withdraw op => if op.tx.token = token then op.tx.amount else 0
  | .ForcedExit op => if op.tx.token = token then op.withdrawAmount.getD 0 else 0
  | .FullExit op => if op.priorityOp.token = token then op.withdrawAmount.getD 0 else 0
  | _ => 0

section Sums

variable (token : TokenId) (ops ops' : List ZkSyncOp)

/-- The requests that the operations execute. -/
def requestsOf : List ZkSyncPriorityOp := ops.filterMap ZkSyncOp.tryGetPriorityOp

/-- What the operations bring into the rollup. -/
def depositedBy : Nat := ((requestsOf ops).map (·.deposited token)).sum

/-- What they take out of it. -/
def withdrawnBy : Nat := (ops.map (·.withdrawn token)).sum

theorem requestsOf_append : requestsOf (ops ++ ops') = requestsOf ops ++ requestsOf ops' :=
  List.filterMap_append

/-- Deposits add up. -/
theorem depositedBy_append :
    depositedBy token (ops ++ ops') = depositedBy token ops + depositedBy token ops' := by
  simp [depositedBy, requestsOf_append]

/-- So do withdrawals. -/
theorem withdrawnBy_append :
    withdrawnBy token (ops ++ ops') = withdrawnBy token ops + withdrawnBy token ops' := by
  simp [withdrawnBy]

theorem OpSuccess.deposited_eq (r : OpSuccess) :
    r.deposited token = depositedBy token [r.executedOp] := by
  obtain ⟨fee, updates, op⟩ := r
  cases op <;> rfl

theorem OpSuccess.withdrawn_eq (r : OpSuccess) :
    r.withdrawn token = withdrawnBy token [r.executedOp] := by
  obtain ⟨fee, updates, op⟩ := r
  cases op <;> rfl

theorem OpSuccess.feeOf_eq (r : OpSuccess) :
    r.feeOf token = (r.fee.toList.map (CollectedFee.of token)).sum := by
  unfold OpSuccess.feeOf
  cases r.fee <;> simp

/-- What an operation changes in the sum of the accounts. -/
theorem OpSuccess.net_eq (r : OpSuccess) : r.net token =
    (depositedBy token [r.executedOp] : Int) - withdrawnBy token [r.executedOp] -
      (r.fee.toList.map (CollectedFee.of token)).sum := by
  rw [OpSuccess.net, deposited_eq, withdrawn_eq, feeOf_eq]

end Sums

/-! ## The balances -/

/-- The balances, with the fees that are not collected yet, are those of `base`, moved by
the operations. -/
def FundsFollow (base s : ZkSyncState) (ops : List ZkSyncOp) (fees : List CollectedFee) : Prop :=
  ∀ token, s.totalBalance token + ((fees.map (CollectedFee.of token)).sum : Nat) =
    base.totalBalance token + depositedBy token ops - withdrawnBy token ops

section Funds

variable {env : Env} {base s s' : ZkSyncState} {ops : List ZkSyncOp} {fees : List CollectedFee}

theorem fundsFollow_nil : FundsFollow base base [] [] := by
  intro token
  simp [depositedBy, withdrawnBy, requestsOf]

/-- An operation that moves the balances by what it reports. -/
theorem FundsFollow.push (h : FundsFollow base s ops fees) {r : OpSuccess}
    (hmoved : ∀ token, s'.totalBalance token = s.totalBalance token + r.net token) :
    FundsFollow base s' (ops ++ [r.executedOp]) (fees ++ r.fee.toList) := by
  intro token
  have hbefore := h token
  rw [hmoved, OpSuccess.net_eq, depositedBy_append, withdrawnBy_append, List.map_append,
    List.sum_append]
  omega

/-- A map and the state it mirrors have the same balances: the accounts that only one of
them has are empty. -/
theorem Mirrors.balance_eq {m : Ledger} (h : Mirrors m s) (id : AccountId) (token : TokenId) :
    Ledger.balanceOf (s.getAccount id) token = Ledger.balanceOf (m id) token := by
  cases hm : m id with
  | some a =>
    obtain ⟨a', ha', hcovers⟩ := h.stored id a hm
    rw [ha']
    exact hcovers.equiv.balance token
  | none =>
    cases hs : s.getAccount id with
    | none => rfl
    | some a' => exact (h.absent id a' hm hs).balance token

/-- The stored accounts own what the state says. -/
theorem Mirrors.total_eq {m : Ledger} (h : Mirrors m s) (token : TokenId) :
    s.totalBalance token = m.total token :=
  Ledger.total_congr fun id => h.balance_eq id token

theorem Ledger.total_nonneg (m : Ledger) (token : TokenId) : 0 ≤ m.total token := by
  unfold Ledger.total
  exact Finset.sum_nonneg fun _ _ => Int.natCast_nonneg _

/-- The sums follow the operations of the pending block. -/
theorem fundsFollow_kept (hz : env.NoZeroSigner) (base : ZkSyncState) :
    KeptWithin env (FundsFollow base) where
  tx h _ heffect := by
    refine h.push fun token => ?_
    unfold ZkSyncState.totalBalance
    rw [Ledger.total_run (heffect.run hz), heffect.delta]
  priorityOp h heffect := by
    refine h.push fun token => ?_
    unfold ZkSyncState.totalBalance
    rw [Ledger.total_run heffect.run, heffect.delta]
  undone h hmirrors := fun token => by
    rw [hmirrors.total_eq]
    exact h token

end Funds

/-! ## Sealing -/

section Sealing

variable {env : Env} {base : ZkSyncState} {k k' : ZkSyncStateKeeper} {request : BlockCommitRequest}
  {updates : AppliedUpdatesRequest}

/-- What a block leaves that follows `base`. -/
structure SealedFrom (base : ZkSyncState) (block : Block) (k' : ZkSyncStateKeeper) : Prop where
  funds : ∀ token, k'.state.totalBalance token = base.totalBalance token +
    depositedBy token block.executedOps - withdrawnBy token block.executedOps
  fits : block.chunksUsed ≤ block.blockChunksSize
  next : WithinBlock (FundsFollow k'.state) k'

/-- A sealed block changes the sum by its deposits and withdrawals. -/
theorem FundsFollow.sealed (hz : env.NoZeroSigner) {feeUpdates : AccountUpdates}
    {paid hashed : ZkSyncState} (hk : WithinBlock (FundsFollow base) k)
    (hs : Sealed env k request updates feeUpdates paid hashed) (token : TokenId) :
    hashed.totalBalance token = base.totalBalance token +
      depositedBy token request.block.executedOps - withdrawnBy token request.block.executedOps := by
  have hpaid := totalBalance_step hz token (Step.collectFee hs.fees : Step env _ _ _)
  have hhashed := totalBalance_step hz token (Step.rootHash hs.root : Step env _ _ _)
  have hfollow := hk.rel token
  rw [executedOps_of_sealed hs hk.failed]
  simp only [Event.net, Event.operations, Event.feesCollected, Event.committed, List.map_nil,
    List.sum_nil] at hpaid hhashed
  omega

/-- A sealed block has moved the balances by its deposits and withdrawals: its fees are
collected. -/
theorem sealedFrom_of_step (hz : env.NoZeroSigner) (hk : WithinBlock (FundsFollow base) k)
    {call : KeeperCall} (hstep : KeeperStep env k (call, .sealed request updates) k') :
    SealedFrom base request.block k' ∧
      request.block.executedOps = k.pendingBlock.executedOps := by
  obtain ⟨k₁, feeUpdates, paid, hashed, hk₁, hs, -, hops, haccounts, hnext⟩ := hk.sealed hstep
  have hfunds := FundsFollow.sealed hz hk₁ hs
  refine ⟨⟨fun token => ?_, (smallestBlockSizeForChunks_eq_ok hs.size).2, hnext _ fundsFollow_nil⟩,
    hops⟩
  unfold ZkSyncState.totalBalance
  rw [haccounts]
  exact hfunds token

end Sealing

/-! ## The requests -/

/-- What a call does to the requests that the pending block has executed, and to their
number over all blocks. -/
inductive RequestsStep (k k' : ZkSyncStateKeeper) : KeeperCall × KeeperReply → Prop
  | executed {op : PriorityOp} {reply : KeeperReply} (unsealed : ¬ reply.IsSealed)
      (ops : requestsOf k'.pendingBlock.executedOps =
        requestsOf k.pendingBlock.executedOps ++ [op.data])
      (next : k'.currentUnprocessedPriorityOp = k.currentUnprocessedPriorityOp + 1) :
      RequestsStep k k' (.priorityOp op, reply)
  | idle {e : KeeperCall × KeeperReply} (unsealed : ¬ e.2.IsSealed)
      (ops : requestsOf k'.pendingBlock.executedOps = requestsOf k.pendingBlock.executedOps)
      (next : k'.currentUnprocessedPriorityOp = k.currentUnprocessedPriorityOp) :
      RequestsStep k k' e
  | sealed {call : KeeperCall} {request : BlockCommitRequest} {updates : AppliedUpdatesRequest}
      (ops : k'.pendingBlock.executedOps = [])
      (next : k'.currentUnprocessedPriorityOp = k.currentUnprocessedPriorityOp) :
      RequestsStep k k' (call, .sealed request updates)

section Requests

variable {env : Env} {k k' : ZkSyncStateKeeper}

/-- Transactions execute no request. -/
theorem requestsOf_txs {ops : List ZkSyncOp} (h : ∀ op ∈ ops, ∃ tx, op.tryGetTx = some tx) :
    requestsOf ops = [] := by
  refine List.filterMap_eq_nil_iff.mpr fun op hop => ?_
  obtain ⟨tx, htx⟩ := h op hop
  cases op <;> first | rfl | cases htx

theorem requestsOf_results {results : List (SignedZkSyncTx × Except String OpSuccess)}
    (h : ∀ r ∈ results, ResultOf env r.1.tx r.2) :
    requestsOf (results.flatMap fun r => r.2.toOption.toList.map (·.executedOp)) = [] := by
  refine requestsOf_txs fun op hop => ?_
  obtain ⟨r, hr, hop⟩ := List.mem_flatMap.mp hop
  obtain ⟨success, hsuccess, rfl⟩ := List.mem_map.mp hop
  obtain ⟨tx, result⟩ := r
  cases result with
  | error error => exact absurd hsuccess List.not_mem_nil
  | ok success' =>
    obtain rfl := List.mem_singleton.mp hsuccess
    obtain ⟨s, s', hexec⟩ := h _ hr success rfl
    exact ⟨_, (executeTx_effect hexec).tryGetTx⟩

/-- A failed transaction brings no request. -/
theorem requestsOf_push {p p₁ p' : PendingBlock} {ops : List ZkSyncOp} (hcounted : Counted p p₁)
    (hpushed : PushedOps ops p₁ p') (hops : requestsOf ops = []) :
    requestsOf p'.executedOps = requestsOf p.executedOps := by
  rw [hpushed.ops, requestsOf_append, hops, List.append_nil, (SameExecuted.of_counted hcounted).ops]

theorem current_countIteration (k : ZkSyncStateKeeper) :
    k.countIteration.currentUnprocessedPriorityOp = k.currentUnprocessedPriorityOp := by
  unfold ZkSyncStateKeeper.countIteration
  split <;> rfl

/-- Each step of the keeper takes requests in turn. -/
theorem requestsStep {e : KeeperCall × KeeperReply} (hstep : KeeperStep env k e k') :
    RequestsStep k k' e := by
  obtain ⟨call, reply⟩ := e
  have heff := hstep.effect
  dsimp only at heff
  cases heff with
  | full counted => exact .idle id (congrArg requestsOf (SameExecuted.of_counted counted).ops) rfl
  | priorityOp _ _ _ executed pushed counter =>
    refine .executed id ?_ (u64Increment_eq_ok counter)
    have hops := (pushedOps_pushSuccess (by exact fun _ => rfl) pushed).ops
    have hrequest := (executePriorityOp_effect executed).tryGetPriorityOp
    show requestsOf _ = _
    rw [hops, requestsOf_append]
    show requestsOf k.pendingBlock.executedOps ++ List.filterMap _ [_] = _
    rw [List.filterMap_cons_some hrequest, List.filterMap_nil]
  | @tx tx _ _ _ result _ _ _ _ admitted executed pushed =>
    refine .idle id ?_ rfl
    have hpushed := pushedOps_pushTxResult pushed
    refine requestsOf_push (PendingBlock.counted_admitTx admitted) hpushed (requestsOf_txs ?_)
    intro op hop
    obtain ⟨success, hsuccess, rfl⟩ := List.mem_map.mp hop
    cases result with
    | error error => exact absurd hsuccess List.not_mem_nil
    | ok success' =>
      obtain rfl := List.mem_singleton.mp hsuccess
      exact ⟨_, (executeTx_effect (executeTx_of_result executed)).tryGetTx⟩
  | batch _ _ admitted executed pushed =>
    refine .idle id ?_ rfl
    exact requestsOf_push (PendingBlock.counted_admitBatch admitted)
      (pushedOps_pushBatchResults pushed) (requestsOf_results (resultOf_batch executed))
  | @sealed _ _ _ k₁ _ before hseal =>
    obtain ⟨_, _, _, _, _, _, -, -, rfl⟩ := sealPendingBlock_eq_ok hseal
    refine .sealed rfl ?_
    rcases before with ⟨-, rfl⟩ | ⟨-, rfl⟩
    · rfl
    · exact current_countIteration k
  | stored hstore =>
    obtain ⟨-, -, -, rfl⟩ := storePendingBlock_eq_ok hstore
    exact .idle id (congrArg requestsOf (sameExecuted_countIteration k).ops)
      (current_countIteration k)

end Requests

end ZkSync
