import ZkSync.Core.BlockOps
import ZkSync.Core.Recovery
import ZkSync.Core.Retry
import ZkSync.Types.BlockData

/-!
# The withdrawals of a block

Three kinds of operations have withdrawal data: `Withdraw`, `ForcedExit`, and
the priority operation `FullExit`. The keeper limits what users add of the first
two to a block, with a counter that is raised before a transaction is executed,
alone or in a batch. It counts a transaction by its own pattern, which is
`Withdraw` alone (`countsAsWithdrawal`), while the mempool and the committer
count what `is_withdraw` says, forced exits included.

`KeeperLife` is the life of a server, restarts and restored blocks included.
`withdrawals_limited` says when the limit holds in it: the user withdrawals of
the pending block, those of the next call added, must not exceed the limit, or
else not the value that the counter is raised to.
-/

namespace ZkSync

/-! ## Counting -/

/-- The operation was made of a user transaction and has withdrawal data. -/
def ExecutedOperations.userWithdrawal : ExecutedOperations → Bool
  | .Tx tx => tx.success && (tx.op.bind ZkSyncOp.withdrawalData).isSome
  | .PriorityOp _ => false

/-- How many withdrawals users made in these operations. -/
def userWithdrawals (ops : List ExecutedOperations) : Nat :=
  ops.countP ExecutedOperations.userWithdrawal

section Counting

variable {overflowChecks : Bool} {p p' : PendingBlock} {es : List ExecutedOperations}

theorem userWithdrawals_append (ops ops' : List ExecutedOperations) :
    userWithdrawals (ops ++ ops') = userWithdrawals ops + userWithdrawals ops' :=
  List.countP_append

/-- A user withdrawal is a success. -/
theorem isSuccessful_of_userWithdrawal {e : ExecutedOperations} (h : e.userWithdrawal = true) :
    e.isSuccessful = true := by
  cases e with
  | Tx tx => exact (Bool.and_eq_true _ _ ▸ h : _ ∧ _).1
  | PriorityOp op => cases h

theorem userWithdrawals_filter (es : List ExecutedOperations) :
    userWithdrawals (es.filter ExecutedOperations.isSuccessful) = userWithdrawals es := by
  unfold userWithdrawals
  rw [List.countP_filter]
  refine List.countP_congr fun e _ => ?_
  rw [Bool.and_eq_true]
  exact ⟨And.left, fun h => ⟨h, isSuccessful_of_userWithdrawal h⟩⟩

/-- Failures are no withdrawals. -/
theorem userWithdrawals_failed {failed : List ExecutedTx}
    (h : ∀ tx ∈ failed, tx.success = false) : userWithdrawals (failed.map .Tx) = 0 := by
  refine List.countP_eq_zero.mpr fun op hop => ?_
  obtain ⟨tx, htx, rfl⟩ := List.mem_map.mp hop
  intro hw
  exact Bool.false_ne_true ((h tx htx).symm.trans (isSuccessful_of_userWithdrawal hw))

/-- What has withdrawal data and was made of a transaction was made of a withdrawal. -/
theorem isWithdraw_of_data {op : ZkSyncOp} {tx : ZkSyncTx} (htx : op.tryGetTx = some tx)
    (hdata : op.withdrawalData.isSome = true) : tx.isWithdraw = true := by
  cases op with
  | Withdraw op =>
    cases htx
    rfl
  | ForcedExit op =>
    cases htx
    rfl
  | FullExit op => cases htx
  | _ => cases hdata

/-- The result of a transaction is a withdrawal only if the transaction is one. -/
theorem userWithdrawals_pushTxResult (env : Env) {chunksNeeded : Nat} {batchId : Option Int}
    {tx : SignedZkSyncTx} {result : Except String OpSuccess} {e : ExecutedOperations}
    (hresult : ResultOf env tx.tx result)
    (h : p.pushTxResult overflowChecks chunksNeeded batchId tx result = .ok (e, p')) :
    userWithdrawals [e] ≤ [tx.tx].countP ZkSyncTx.isWithdraw := by
  by_cases hw : e.userWithdrawal = true
  · -- a success, whose operation was made of the transaction
    have htx : tx.tx.isWithdraw = true := by
      cases result with
      | ok success =>
        obtain ⟨s, s', hexec⟩ := hresult success rfl
        unfold PendingBlock.pushTxResult at h
        obtain ⟨_, _, -, -, rfl, -⟩ := PendingBlock.pushSuccess_eq_ok.mp h
        have hdata : success.executedOp.withdrawalData.isSome = true := hw
        exact isWithdraw_of_data (executeTx_effect hexec).tryGetTx hdata
      | error error =>
        cases h
        cases hw
    unfold userWithdrawals
    rw [List.countP_cons_of_pos hw, List.countP_cons_of_pos htx]
    simp
  · unfold userWithdrawals
    rw [List.countP_cons_of_neg hw]
    exact Nat.zero_le _

theorem userWithdrawals_pushBatchResults (env : Env) {chunksNeeded : Nat} {batchId : Int}
    {results : List (SignedZkSyncTx × Except String OpSuccess)}
    (hresults : ∀ r ∈ results, ResultOf env r.1.tx r.2)
    (h : p.pushBatchResults overflowChecks chunksNeeded batchId results = .ok (es, p')) :
    userWithdrawals es ≤ (results.map (·.1.tx)).countP ZkSyncTx.isWithdraw := by
  induction results generalizing p es with
  | nil =>
    cases h
    exact Nat.le_refl 0
  | cons r results ih =>
    obtain ⟨tx, result⟩ := r
    unfold PendingBlock.pushBatchResults at h
    simp only [Outcome.bind_eq_ok] at h
    obtain ⟨⟨e, p₁⟩, h₁, ⟨es', p₂⟩, h₂, h⟩ := h
    cases h
    have hfirst : userWithdrawals [e] ≤ [tx.tx].countP ZkSyncTx.isWithdraw :=
      userWithdrawals_pushTxResult env (hresults _ List.mem_cons_self) h₁
    have hrest := ih (fun r hr => hresults r (List.mem_cons_of_mem _ hr)) h₂
    have hcons := userWithdrawals_append [e] es'
    have htxs : ([tx.tx] ++ results.map (·.1.tx)).countP ZkSyncTx.isWithdraw =
        [tx.tx].countP ZkSyncTx.isWithdraw + (results.map (·.1.tx)).countP ZkSyncTx.isWithdraw :=
      List.countP_append
    show userWithdrawals ([e] ++ es') ≤
      ([tx.tx] ++ results.map (·.1.tx)).countP ZkSyncTx.isWithdraw
    omega

end Counting

/-! ## Admission -/

section Admission

variable {env : Env} {s : ZkSyncState} {maxWithdrawals : Nat} {p p' : PendingBlock}
  {tx : ZkSyncTx} {txs : List ZkSyncTx} {admitted : Bool}

/-- What the admission of transactions does to the counter of withdrawals. -/
structure CountedTo (maxWithdrawals : Nat) (txs : List ZkSyncTx) (p : PendingBlock)
    (admitted : Bool) (p' : PendingBlock) : Prop where
  grows : p.withdrawalsAmount ≤ p'.withdrawalsAmount
  counts : admitted = true → p'.withdrawalsAmount.toNat =
    p.withdrawalsAmount.toNat + txs.countP ZkSyncTx.countsAsWithdrawal
  within : admitted = true → txs ≠ [] → p'.withdrawalsAmount.toNat ≤ maxWithdrawals

/-- The counter does not wrap if there is room for the transaction. -/
theorem countedTo_admitTx {marksFast : Bool}
    (hroom : p.withdrawalsAmount.toNat + [tx].countP ZkSyncTx.countsAsWithdrawal < 2 ^ 32)
    (h : p.admitTx env s maxWithdrawals marksFast tx = .ok (admitted, p')) :
    CountedTo maxWithdrawals [tx] p admitted p' := by
  unfold PendingBlock.admitTx at h
  simp only [Outcome.bind_eq_ok] at h
  obtain ⟨op, -, gasCounter, -, h⟩ := h
  cases gasCounter with
  | none =>
    -- the gas limit is reached before the transaction is counted
    cases h
    exact ⟨UInt32.le_refl _, fun h => (by cases h), fun h => (by cases h)⟩
  | some gasCounter =>
    dsimp only at h
    rw [Outcome.bind_eq_ok] at h
    obtain ⟨p₁, hcount, h⟩ := h
    obtain ⟨rfl, rfl⟩ := Prod.mk.inj (Except.ok.inj h)
    obtain ⟨-, hamount⟩ := countWithdrawal_of_room hcount hroom
    dsimp only at hamount
    refine ⟨?_, fun _ => hamount, fun hle _ => ?_⟩
    · rw [UInt32.le_iff_toNat_le]
      omega
    · have hle := UInt32.le_iff_toNat_le.mp (of_decide_eq_true hle)
      exact Nat.le_trans hle (Nat.mod_le _ _)

theorem countedTo_admitBatch
    (hroom : p.withdrawalsAmount.toNat + txs.countP ZkSyncTx.countsAsWithdrawal < 2 ^ 32)
    (h : p.admitBatch env s maxWithdrawals txs = .ok (admitted, p')) :
    CountedTo maxWithdrawals txs p admitted p' := by
  induction txs generalizing p with
  | nil =>
    cases h
    exact ⟨UInt32.le_refl _, fun _ => rfl, fun _ h => absurd rfl h⟩
  | cons tx txs ih =>
    have hcons : (tx :: txs).countP ZkSyncTx.countsAsWithdrawal =
        [tx].countP ZkSyncTx.countsAsWithdrawal + txs.countP ZkSyncTx.countsAsWithdrawal := by
      rw [← List.countP_append]
      rfl
    unfold PendingBlock.admitBatch at h
    rw [Outcome.bind_eq_ok] at h
    obtain ⟨⟨b, p₁⟩, hp₁, h⟩ := h
    have h₁ := countedTo_admitTx (by omega) hp₁
    cases b with
    | false =>
      cases h
      exact ⟨h₁.grows, fun h => (by cases h), fun h => (by cases h)⟩
    | true =>
      have hcount := h₁.counts rfl
      have h₂ := ih (by omega) h
      refine ⟨UInt32.le_trans h₁.grows h₂.grows, fun ha => ?_, fun ha _ => ?_⟩
      · have hrest := h₂.counts ha
        omega
      · by_cases hne : txs = []
        · -- the check that was made last is that of the first transaction
          subst hne
          cases h
          exact h₁.within rfl (List.cons_ne_nil _ _)
        · exact h₂.within ha hne

end Admission

/-! ## One call -/

/-- There is room for the withdrawals of the call: with those of the pending block
they do not exceed the limit, or else not the value that the counter is raised to. -/
structure KeeperCall.WithdrawalsFit (k : ZkSyncStateKeeper) (call : KeeperCall) : Prop where
  counter : k.pendingBlock.withdrawalsAmount.toNat +
    call.txs.countP ZkSyncTx.countsAsWithdrawal < 2 ^ 32
  withdrawals :
    userWithdrawals k.pendingBlock.successOperations + call.txs.countP ZkSyncTx.isWithdraw ≤
      k.maxNumberOfWithdrawalsPerBlock ∨
    userWithdrawals k.pendingBlock.successOperations + call.txs.countP ZkSyncTx.isWithdraw ≤
      k.pendingBlock.withdrawalsAmount.toNat + call.txs.countP ZkSyncTx.countsAsWithdrawal

/-- The pending block holds no more user withdrawals than it may. -/
structure WithinLimit (k : ZkSyncStateKeeper) : Prop where
  ops : OpsOk k.pendingBlock
  withdrawals : userWithdrawals k.pendingBlock.successOperations ≤ k.maxNumberOfWithdrawalsPerBlock

section Call

variable {env : Env} {k k' : ZkSyncStateKeeper} {call : KeeperCall} {reply : KeeperReply}

/-- A call that fits adds no more withdrawals than the block may hold. -/
theorem userWithdrawals_results (heff : KeeperEffect env k call reply k')
    (hfit : call.WithdrawalsFit k) (hlimit : userWithdrawals k.pendingBlock.successOperations ≤
      k.maxNumberOfWithdrawalsPerBlock) :
    userWithdrawals k.pendingBlock.successOperations + userWithdrawals reply.results ≤
      k.maxNumberOfWithdrawalsPerBlock := by
  obtain ⟨hcounter, hroom⟩ := hfit
  cases heff with
  | full => exact hlimit
  | @priorityOp op nonExecutedOp gasCounter success state e p next room converted gas executed pushed =>
    -- a full exit has withdrawal data, but no user transaction
    obtain ⟨_, _, -, -, rfl, -⟩ := PendingBlock.pushSuccess_eq_ok.mp pushed
    exact hlimit
  | @tx tx chunksNeeded p p' result state e estimate room admitted executed pushed =>
    have hcounted := countedTo_admitTx hcounter admitted
    have hcounts := hcounted.counts rfl
    have hwithin := hcounted.within rfl (List.cons_ne_nil _ _)
    have hresult : userWithdrawals [e] ≤ [tx.tx].countP ZkSyncTx.isWithdraw := by
      refine userWithdrawals_pushTxResult env (fun success hsuccess => ?_) pushed
      subst hsuccess
      exact ⟨_, _, executeTx_of_result executed⟩
    rw [show (KeeperCall.tx tx).txs = [tx.tx] from rfl] at hroom
    show userWithdrawals _ + userWithdrawals [e] ≤ _
    omega
  | @batch txs batchId chunksNeeded p p' results state ops estimate room admitted executed pushed =>
    have hcounted : CountedTo k.maxNumberOfWithdrawalsPerBlock (txs.map (·.tx)) k.pendingBlock true p :=
      countedTo_admitBatch hcounter admitted
    have hresults : userWithdrawals ops ≤ (txs.map (·.tx)).countP ZkSyncTx.isWithdraw := by
      refine Nat.le_trans (userWithdrawals_pushBatchResults env (resultOf_batch executed) pushed) ?_
      have hzip : (txs.zip results).map (·.1.tx) = ((txs.zip results).map (·.1)).map (·.tx) := by
        rw [List.map_map]
        rfl
      rw [hzip, List.zip_eq_zip_take_min, List.map_fst_zip (by simp)]
      exact ((List.take_sublist _ _).map _).countP_le
    show userWithdrawals _ + userWithdrawals ops ≤ _
    rw [show (KeeperCall.batch txs batchId).txs = txs.map (·.tx) from rfl] at hcounter hroom
    by_cases hne : txs.map (·.tx) = []
    · rw [hne] at hresults
      have hnone : ([] : List ZkSyncTx).countP ZkSyncTx.isWithdraw = 0 := rfl
      omega
    · have hcounts := hcounted.counts rfl
      have hwithin := hcounted.within rfl hne
      omega
  | sealed => exact hlimit
  | stored => exact hlimit

theorem opsOk_new (before : UInt64) (chunksLeft : Nat) : OpsOk (PendingBlock.new before chunksLeft) :=
  ⟨rfl, rfl, fun _ h => absurd h List.not_mem_nil, fun _ h => absurd h List.not_mem_nil⟩

/-- A call that fits keeps the pending block within the limit; what it stores has
failures beside its operations, and what it seals is within the limit. -/
theorem WithinLimit.step (h : WithinLimit k) (hstep : KeeperStep env k (call, reply) k')
    (hfit : call.WithdrawalsFit k) : WithinLimit k' := by
  have hadded := userWithdrawals_results hstep.effect hfit h.withdrawals
  have hconfig := (config_step hstep).2
  cases blockOps_step hstep with
  | grown ops =>
    refine ⟨ops.ops h.ops, ?_⟩
    rw [ops.success, userWithdrawals_append, userWithdrawals_filter, hconfig]
    exact hadded
  | stored block success failed kept =>
    refine ⟨kept.ops h.ops, ?_⟩
    rw [kept.success, userWithdrawals_append, hconfig]
    exact h.withdrawals
  | sealed block transactions success failed next =>
    refine ⟨⟨?_, ?_, ?_, ?_⟩, ?_⟩
    · rw [success]
      exact (opsOk_new 0 0).numbered
    · rw [success, next]
      rfl
    · rw [success]
      exact (opsOk_new 0 0).successful
    · rw [failed]
      exact (opsOk_new 0 0).failed
    · rw [success]
      exact Nat.zero_le _

/-- What is sealed is within the limit. -/
theorem WithinLimit.sealed {request : BlockCommitRequest} {updates : AppliedUpdatesRequest}
    (h : WithinLimit k) (hstep : KeeperStep env k (call, .sealed request updates) k') :
    userWithdrawals request.block.blockTransactions ≤ k.maxNumberOfWithdrawalsPerBlock := by
  cases blockOps_step hstep with
  | grown ops faithful number sent => cases sent
  | sealed block transactions =>
    rw [transactions, userWithdrawals_append, userWithdrawals_failed h.ops.failed]
    exact h.withdrawals

end Call

/-! ## The life of a server -/

/-- The pending blocks that a reply stores. -/
def KeeperReply.storedBlocks : KeeperReply → List SendablePendingBlock
  | .stored pendingBlock _ => [pendingBlock]
  | _ => []

/-- The operations that are executed again when a server starts. -/
def restoredOps (pendingBlock : Option SendablePendingBlock) : List ExecutedOperations :=
  (pendingBlock.map (·.successOperations)).getD []

/-- What happens to the keeper of a server, and to the pending blocks it has stored.
`fits` is asked before each call, also of an operation that is restored. -/
inductive KeeperLife (env : Env) (fits : ZkSyncStateKeeper → KeeperCall → Prop) :
    ZkSyncStateKeeper × List SendablePendingBlock → Option (KeeperCall × KeeperReply) →
      ZkSyncStateKeeper × List SendablePendingBlock → Prop
  | call {k k' : ZkSyncStateKeeper} {stored : List SendablePendingBlock} {e : KeeperCall × KeeperReply}
      (fit : fits k e.1) (step : KeeperStep env k e k') :
      KeeperLife env fits (k, stored) (some e) (k', e.2.storedBlocks ++ stored)
  /-- The server may be configured anew, and find any block that was stored. -/
  | restart {k k₀ k' : ZkSyncStateKeeper} {stored : List SendablePendingBlock}
      {pendingBlock : Option SendablePendingBlock} {initialState : ZkSyncStateInitParams}
      {feeAccountAddress : Address} {sizes : List Nat} {maxMini fastMini maxWithdrawals : Nat}
      (new : ZkSyncStateKeeper.new env initialState feeAccountAddress sizes maxMini fastMini
        maxWithdrawals = .ok k₀)
      (found : ∀ block, pendingBlock = some block → block ∈ stored)
      (fit : ∀ ops op ops' k₁, restoredOps pendingBlock = ops ++ op :: ops' →
        ops.foldlM (ZkSyncStateKeeper.restoreOperation env) k₀ = .ok k₁ → fits k₁ op.call)
      (restored : k₀.initializeWith env pendingBlock = .ok k') :
      KeeperLife env fits (k, stored) none (k', stored)

section Life

variable {env : Env} {k k' k₀ : ZkSyncStateKeeper}

theorem withinLimit_new {initialState : ZkSyncStateInitParams} {feeAccountAddress : Address}
    {sizes : List Nat} {maxMini fastMini maxWithdrawals : Nat}
    (hnew : ZkSyncStateKeeper.new env initialState feeAccountAddress sizes maxMini fastMini
      maxWithdrawals = .ok k) : WithinLimit k := by
  obtain ⟨_, _, _, -, -, hk⟩ := ZkSyncStateKeeper.new_eq_ok hnew
  rw [hk]
  exact ⟨opsOk_new _ _, Nat.zero_le _⟩

/-- Restoring keeps the limit, if each operation fits when its turn comes. -/
theorem WithinLimit.restore (h : WithinLimit k) {ops : List ExecutedOperations}
    (hfold : ops.foldlM (ZkSyncStateKeeper.restoreOperation env) k = .ok k')
    (hfit : ∀ ops₁ op ops₂ k₁, ops = ops₁ ++ op :: ops₂ →
      ops₁.foldlM (ZkSyncStateKeeper.restoreOperation env) k = .ok k₁ →
        op.call.WithdrawalsFit k₁) : WithinLimit k' := by
  induction ops generalizing k with
  | nil =>
    cases hfold
    exact h
  | cons op ops ih =>
    rw [List.foldlM_cons, Outcome.bind_eq_ok] at hfold
    obtain ⟨k₁, hop, hfold⟩ := hfold
    obtain ⟨e, hstep⟩ := restoreOperation_step hop
    refine ih (h.step hstep (hfit [] op ops k rfl rfl)) hfold fun ops₁ op' ops₂ k₂ hops hfold₁ => ?_
    refine hfit (op :: ops₁) op' ops₂ k₂ (by rw [hops]; rfl) ?_
    rw [List.foldlM_cons, hop]
    exact hfold₁

/-- The pending block and the blocks that are stored. -/
structure LifeWithin (x : ZkSyncStateKeeper × List SendablePendingBlock) : Prop where
  keeper : WithinLimit x.1
  stored : ∀ block ∈ x.2, ∀ tx ∈ block.failedTxs, tx.success = false

theorem LifeWithin.step {x x' : ZkSyncStateKeeper × List SendablePendingBlock}
    {e : Option (KeeperCall × KeeperReply)} (h : LifeWithin x)
    (hstep : KeeperLife env (fun k call => call.WithdrawalsFit k) x e x') : LifeWithin x' := by
  cases hstep with
  | @call k k' stored e fit step =>
    refine ⟨h.keeper.step step fit, fun block hblock => ?_⟩
    rcases List.mem_append.mp hblock with hblock | hblock
    · obtain ⟨call, reply⟩ := e
      cases blockOps_step step with
      | grown ops faithful number sent =>
        cases reply with
        | stored pendingBlock updates => cases sent
        | _ => cases hblock
      | stored number success failed kept =>
        rw [List.mem_singleton.mp hblock, failed]
        exact h.keeper.ops.failed
      | sealed => cases hblock
    · exact h.stored block hblock
  | @restart k k₀ k' stored pendingBlock _ _ _ _ _ _ new found fit restored =>
    refine ⟨?_, h.stored⟩
    have h₀ := withinLimit_new new
    cases pendingBlock with
    | none =>
      cases restored
      exact h₀
    | some block =>
      obtain ⟨k₁, hfold, rfl⟩ := initializeWith_eq_ok.mp restored
      have h₁ := h₀.restore hfold fit
      exact ⟨⟨h₁.ops.numbered, h₁.ops.next, h₁.ops.successful, h.stored block (found block rfl)⟩,
        h₁.withdrawals⟩

/-- In every life of a server whose calls fit, a block that is sealed holds no more
user withdrawals than the server is configured for. -/
theorem withdrawals_limited {initialState : ZkSyncStateInitParams} {feeAccountAddress : Address}
    {sizes : List Nat} {maxMini fastMini maxWithdrawals : Nat}
    (hnew : ZkSyncStateKeeper.new env initialState feeAccountAddress sizes maxMini fastMini
      maxWithdrawals = .ok k₀) {tr : List (Option (KeeperCall × KeeperReply))}
    {stored : List SendablePendingBlock}
    (hrun : Run (KeeperLife env fun k call => call.WithdrawalsFit k) (k₀, []) tr (k, stored))
    {call : KeeperCall} {request : BlockCommitRequest} {updates : AppliedUpdatesRequest}
    (hsealed : KeeperStep env k (call, .sealed request updates) k') :
    userWithdrawals request.block.blockTransactions ≤ k.maxNumberOfWithdrawalsPerBlock := by
  have hstart : LifeWithin (k₀, []) :=
    ⟨withinLimit_new hnew, fun _ h => absurd h List.not_mem_nil⟩
  have hend : LifeWithin (k, stored) := hrun.invariant (fun _ _ _ h hstep => h.step hstep) hstart
  exact hend.keeper.sealed hsealed

end Life

/-! ### A withdrawal and a forced exit -/

/-- The sample account, and a locked account at address 2. -/
def exitAccounts : AList fun _ : AccountId => Account :=
  (AList.singleton 0 sampleAccount).insert 1 (Account.defaultWithAddress 2)

/-- A server with these accounts that allows one withdrawal in a block. -/
def exitKeeper : ZkSyncStateKeeper :=
  .unhashed (.fromAccMap (Env.built 1 false).hasher exitAccounts 0 0) 1 0 30 [6, 30] 10 2 1

/-- Account 0 forces the account at address 2 out, which has nothing. -/
def sampleForcedExit (nonce : Nonce) : ForcedExit where
  initiatorAccountId := 0
  target := 2
  token := 0
  fee := 0
  nonce := nonce
  signature := ⟨0, 0⟩

theorem exitAccounts_fit {id : AccountId} {a : Account} (h : exitAccounts.lookup id = some a) :
    a.Fits := by
  unfold exitAccounts at h
  by_cases hid : id = 1
  · subst hid
    rw [AList.lookup_insert] at h
    rw [← Option.some.inj h]
    exact Account.Fits.default 2
  · rw [AList.lookup_insert_ne hid] at h
    exact fits_singleton fits_sampleAccount h

/-- A new keeper answers calls as `exitKeeper` was computed to, and seals a block with
as many user withdrawals. -/
theorem exists_withdrawals (calls : List KeeperCall) (n : Nat)
    (hentries : ∀ call ∈ calls, call.IsEntry) (htok : ∀ call ∈ calls, call.FeeTokenOk)
    (hsum : ((exitKeeper.answers (Env.built 1 false) calls).toOption.map fun r => r.2.sealable &&
      (decide (r.2.pendingBlock.failedTxs = []) &&
        decide (userWithdrawals r.2.pendingBlock.successOperations = n))) = some true) :
    ∃ k₀ tr k request updates k', ZkSyncStateKeeper.new (Env.built 1 false)
        (.fromAccMap (Env.built 1 false).hasher exitAccounts 0 0) 1 [6, 30] 10 2 1 = .ok k₀ ∧
      KeeperAlike exitKeeper k₀ ∧ k₀.answers (Env.built 1 false) calls = .ok (tr, k) ∧
      KeeperStep (Env.built 1 false) k (.sealBlock, .sealed request updates) k' ∧
      userWithdrawals request.block.blockTransactions = n := by
  obtain ⟨k₀, hnew, halike, hhashable⟩ := Hashable.exists_new 10 2 1 (fun _ _ => exitAccounts_fit)
    (⟨by decide, by decide, rfl, ⟨sampleAccount, by decide +kernel⟩, rfl⟩ :
      ZkSyncStateKeeper.NewOk (Env.built 1 false)
        (.fromAccMap (Env.built 1 false).hasher exitAccounts 0 0) 1 [6, 30] 1 0 30)
  obtain ⟨tr, k, request, updates, k', hanswers, hblock, hseal⟩ :=
    exists_sealed_computed (f := fun p => decide (p.failedTxs = []) &&
      decide (userWithdrawals p.successOperations = n)) halike hhashable rfl hentries htok hsum
  simp only [Bool.and_eq_true, decide_eq_true_eq] at hblock
  obtain ⟨hfailed, hcount⟩ := hblock
  obtain ⟨_, _, _, _, _, hs, -⟩ := sealPendingBlock_eq_ok hseal
  refine ⟨k₀, tr, k, request, updates, k', hnew, halike, hanswers, sealStep hseal, ?_⟩
  rw [hs.transactions, hfailed, List.map_nil, List.append_nil]
  exact hcount

/-- A withdrawal, alone in its block. -/
theorem withdrawals_limited_sampleWithdraw : ∃ k₀ tr k request updates k',
    ZkSyncStateKeeper.new (Env.built 1 false)
      (.fromAccMap (Env.built 1 false).hasher exitAccounts 0 0) 1 [6, 30] 10 2 1 = .ok k₀ ∧
    Run (KeeperLife (Env.built 1 false) fun k call => call.WithdrawalsFit k) (k₀, []) tr (k, []) ∧
    KeeperStep (Env.built 1 false) k (.sealBlock, .sealed request updates) k' ∧
    userWithdrawals request.block.blockTransactions = 1 ∧
    userWithdrawals request.block.blockTransactions ≤ k.maxNumberOfWithdrawalsPerBlock := by
  obtain ⟨k₀, tr, k, request, updates, k', hnew, halike, hanswers, hseal, hcount⟩ :=
    exists_withdrawals [.tx ⟨.Withdraw (sampleWithdraw 0), none⟩] 1
      (fun c hc => by rw [List.mem_singleton.mp hc]; exact trivial)
      (fun c hc => by rw [List.mem_singleton.mp hc]; exact trivial) (by decide +kernel)
  obtain ⟨reply, -, hstep⟩ := answers_single hanswers
  have hfit : (KeeperCall.tx ⟨.Withdraw (sampleWithdraw 0), none⟩).WithdrawalsFit k₀ := by
    rw [halike.rest]
    exact ⟨show 0 + 1 < 2 ^ 32 by decide, Or.inl (show 0 + 1 ≤ 1 by decide)⟩
  have hstored : reply.storedBlocks = [] := by
    rcases hstep.entry trivial with rfl | ⟨ops, rfl⟩ <;> rfl
  have hlife : KeeperLife (Env.built 1 false) (fun k call => call.WithdrawalsFit k) (k₀, [])
      (some (.tx ⟨.Withdraw (sampleWithdraw 0), none⟩, reply)) (k, reply.storedBlocks ++ []) :=
    .call hfit hstep
  rw [hstored] at hlife
  exact ⟨k₀, _, k, request, updates, k', hnew, Run.single hlife, hseal, hcount,
    withdrawals_limited hnew (Run.single hlife) hseal⟩

/-- A withdrawal and a forced exit make a block with two user withdrawals, although one
is allowed. -/
theorem withdrawals_unlimited : ∃ k₀ tr k request updates k',
    ZkSyncStateKeeper.new (Env.built 1 false)
      (.fromAccMap (Env.built 1 false).hasher exitAccounts 0 0) 1 [6, 30] 10 2 1 = .ok k₀ ∧
    Run (KeeperStep (Env.built 1 false)) k₀ tr k ∧
    tr.map Prod.fst = [.tx ⟨.Withdraw (sampleWithdraw 0), none⟩,
      .tx ⟨.ForcedExit (sampleForcedExit 1), none⟩] ∧
    KeeperStep (Env.built 1 false) k (.sealBlock, .sealed request updates) k' ∧
    k.maxNumberOfWithdrawalsPerBlock = 1 ∧
    ¬ userWithdrawals request.block.blockTransactions ≤ k.maxNumberOfWithdrawalsPerBlock := by
  obtain ⟨k₀, tr, k, request, updates, k', hnew, halike, hanswers, hseal, hcount⟩ :=
    exists_withdrawals [.tx ⟨.Withdraw (sampleWithdraw 0), none⟩,
        .tx ⟨.ForcedExit (sampleForcedExit 1), none⟩] 2
      (fun c hc => by rcases List.mem_pair.mp hc with rfl | rfl <;> exact trivial)
      (fun c hc => by rcases List.mem_pair.mp hc with rfl | rfl <;> exact trivial)
      (by decide +kernel)
  obtain ⟨hrun, hcalls⟩ := answers_run hanswers
  have hmax : k.maxNumberOfWithdrawalsPerBlock = 1 := by
    have hsame : k₀.maxNumberOfWithdrawalsPerBlock = 1 := by
      rw [halike.rest]
      rfl
    exact hrun.invariant (I := fun k => k.maxNumberOfWithdrawalsPerBlock = 1)
      (fun _ _ _ h hstep => (config_step hstep).2.trans h) hsame
  refine ⟨k₀, tr, k, request, updates, k', hnew, hrun, hcalls, hseal, hmax, ?_⟩
  rw [hcount, hmax]
  decide

end ZkSync
