import ZkSync.EthSender.SenderSteps
import ZkSync.EthSender.Waiting

/-!
# An operation is started once

What is put into the queue stays there until it is started, and what is started is
ongoing until it is completed; an Ethereum operation has one nonce, which all its
transactions use. This holds in every run, restarts included, as long as the commit
that ends `initialize_operation` does not fail (`started_once`).

It fails with that commit: the operation is then among the ongoing ones and was sent,
and it is returned to the queue, to be started again (`not_started_once`). Every earlier
error leaves the queue as it was before the operation was popped
(`TxQueue.returnPopped_of_yields`).
-/

namespace ZkSync

/-- The id of the operation of an element, if it has one. -/
def TxData.opId (tx : TxData) : Option Int := tx.operation.bind Operation.id

namespace StartedTx

/-- What the row of a started operation is known by. -/
def key (started : StartedTx) : EthOpId × Nat := (started.ethOpId, started.nonce)

/-- The operation of the server that the row is bound to; a call for withdrawals has none. -/
def binding (started : StartedTx) : Option ETHBinding :=
  started.tx.opId.map fun opId => ⟨opId, started.ethOpId⟩

end StartedTx

/-! ## The statement -/

/-- Every operation is in one place and has one nonce. -/
structure StartedOnce (s : SenderState) : Prop where
  /-- What was put into the queue is in it or was started. -/
  accounted : (s.history.added : Multiset TxData) =
    s.sender.txQueue.waiting + (s.history.started.map StartedTx.tx : List TxData)
  /-- No operation was put into it twice. -/
  distinct : (s.history.added.filterMap TxData.opId).Nodup
  /-- What was started is ongoing or completed. -/
  places : (s.inFlight.map ETHOperation.id ++ s.history.completed).Perm
    (s.history.started.map StartedTx.ethOpId)
  ids : (s.history.started.map StartedTx.ethOpId).Nodup
  nonces : (s.history.started.map StartedTx.nonce).Nodup
  /-- A transaction is sent for what was started, with its nonce. -/
  sent : ∀ e ∈ s.history.sent, ∃ started ∈ s.history.started,
    started.ethOpId = e.1 ∧ started.nonce = e.2.nonce
  /-- Two transactions for one operation have the same nonce. -/
  oneNonce : ∀ e ∈ s.history.sent, ∀ e' ∈ s.history.sent, ∀ started ∈ s.history.started,
    ∀ started' ∈ s.history.started, started.ethOpId = e.1 → started'.ethOpId = e'.1 →
      (started.ethOpId = started'.ethOpId ∨
        started.tx.opId ≠ none ∧ started.tx.opId = started'.tx.opId) → e.2.nonce = e'.2.nonce

/-- If every call of `initialize_operation` before its commit succeeds, the commit
succeeds. -/
def SenderEvent.Commits : SenderEvent → Prop
  | .startNext r => r.Commits
  | _ => True

/-! ## The invariant -/

/-- The queue, as far as the history determines it. `ops` are the stored operations. -/
structure QueueKept (q : TxQueue) (ops : List Operation) (added : List TxData)
    (started : List StartedTx) : Prop where
  sorted : q.Sorted
  accounted : (added : Multiset TxData) = q.waiting + (started.map StartedTx.tx : List TxData)
  known : ∀ tx ∈ added, ∀ op, tx.operation = some op → op ∈ ops
  distinct : (added.filterMap TxData.opId).Nodup

/-- The database knows what was started, with ids and nonces in increasing order. -/
structure Recorded (db : EthDb) (started : List StartedTx) : Prop where
  rows : db.ethOperations.map StorageETHOperation.key = started.map StartedTx.key
  bindings : db.ethOpsBinding = started.filterMap StartedTx.binding
  increasing : (started.map StartedTx.key).Pairwise fun k k' => k.1 < k'.1 ∧ k.2 < k'.2
  below : ∀ k ∈ started.map StartedTx.key,
    k.1 ≤ db.ethOperationsIdSeq ∧ k.2 < db.ethParameters.nonce
  operations : ((db.operations.map OperationRow.intoOp).map Operation.id).Nodup

/-- What was started is in one place. -/
structure Placed (inFlight : List ETHOperation) (started : List StartedTx)
    (completed : List EthOpId) (sent : List (EthOpId × SignedCallResult)) : Prop where
  keys : ∀ op ∈ inFlight, op.key ∈ started.map StartedTx.key
  places : (inFlight.map ETHOperation.id ++ completed).Perm (started.map StartedTx.ethOpId)
  sent : ∀ e ∈ sent, (e.1, e.2.nonce) ∈ started.map StartedTx.key

/-- The rows, the queue and what was sent belong to the operations that were started. -/
structure EthSenderOk (s : SenderState) : Prop where
  queue : QueueKept s.sender.txQueue (s.db.operations.map OperationRow.intoOp) s.history.added
    s.history.started
  recorded : Recorded s.db s.history.started
  placed : Placed s.inFlight s.history.started s.history.completed s.history.sent

/-! ## Filling the queue -/

section Filling

variable {env : SenderEnv} {q q' : TxQueue} {ops : List Operation}

/-- What is made of one element at most has no duplicates. -/
theorem nodup_filterMap_toList {α β : Type} (f : α → Option β) (o : Option α) :
    (o.toList.filterMap f).Nodup := by
  cases o with
  | none => exact List.nodup_nil
  | some a =>
    show (List.filterMap f [a]).Nodup
    rw [List.filterMap_cons]
    cases f a with
    | none => exact List.nodup_nil
    | some b => exact List.nodup_singleton b

/-- Without duplicates, an image has one origin. -/
theorem eq_of_nodup_filterMap {α β : Type} {f : α → Option β} {l : List α} (h : (l.filterMap f).Nodup)
    {a a' : α} (ha : a ∈ l) (ha' : a' ∈ l) {b : β} (hb : f a = some b) (hb' : f a' = some b) :
    a = a' := by
  induction l with
  | nil => cases ha
  | cons x l ih =>
    have htail : (l.filterMap f).Nodup := h.sublist ((List.sublist_cons_self x l).filterMap f)
    have hhead : f x = some b → ∀ a ∈ l, f a ≠ some b := by
      intro hx a ha hb
      rw [List.filterMap_cons, hx] at h
      exact (List.nodup_cons.mp h).1 (List.mem_filterMap.mpr ⟨a, ha, hb⟩)
    rcases List.mem_cons.mp ha with hx | hl
    · rcases List.mem_cons.mp ha' with hx' | hl'
      · exact hx.trans hx'.symm
      · exact absurd hb' (hhead (hx ▸ hb) a' hl')
    · rcases List.mem_cons.mp ha' with hx' | hl'
      · exact absurd hb (hhead (hx' ▸ hb') a hl)
      · exact ih htail hl hl'

/-- A queued operation has the id of its operation. -/
theorem opId_of_operation {tx : TxData} {op : Operation} (h : tx.operation = some op) :
    tx.opId = op.id := by
  unfold TxData.opId
  rw [h]
  rfl

/-- An operation that is added is not in the queue. -/
theorem addOperationToQueue_spec {operation : Operation} {added : Option TxData} (hq : q.Sorted)
    (hknown : ∀ tx ∈ q.waiting, ∀ op, tx.operation = some op → op ∈ ops)
    (hids : (ops.map Operation.id).Nodup) (hoperation : operation ∈ ops)
    (h : env.addOperationToQueue q operation = .ok (added, q')) :
    q'.Sorted ∧ q'.waiting = added.toList + q.waiting ∧
      ∀ tx ∈ added.toList, tx.operation = some operation ∧
        (operation.id ≠ none → ∀ tx' ∈ q.waiting, tx'.opId ≠ tx.opId) := by
  rcases SenderEnv.addOperationToQueue_cases h with ⟨rfl, rfl⟩ | ⟨tx, rfl, hop, hcases⟩
  · exact ⟨hq, (Multiset.zero_add _).symm, fun _ h => absurd h List.not_mem_nil⟩
  -- an operation with the same id is the same operation, and would be found by its block
  have hsame : operation.id ≠ none → ∀ tx' ∈ q.waiting, tx'.opId = tx.opId →
      tx'.operation = some operation := by
    intro hid tx' htx' heq
    rw [opId_of_operation hop] at heq
    unfold TxData.opId at heq
    cases hop' : tx'.operation with
    | none =>
      rw [hop'] at heq
      exact absurd heq.symm hid
    | some op' =>
      rw [hop'] at heq
      rw [List.inj_on_of_nodup_map hids (hknown tx' htx' op' hop') hoperation heq]
  have hadded : ∀ q' : TxQueue, q'.waiting = tx ::ₘ q.waiting →
      q'.waiting = ((some tx).toList : Multiset TxData) + q.waiting := by
    intro q' hq'
    rw [hq']
    rfl
  rcases hcases with ⟨haction, htype, hfound, rfl⟩ | ⟨haction, htype, hfound, hadd⟩
  · refine ⟨hq.addCommitOperation htype hop haction,
      hadded _ (q.waiting_addCommitOperation tx), fun tx₁ htx₁ => ?_⟩
    obtain rfl := List.mem_singleton.mp htx₁
    refine ⟨hop, fun hid tx' htx' heq => ?_⟩
    have hop' := hsame hid tx' htx' heq
    rcases TxQueue.mem_waiting.mp htx' with hmem | ⟨idx, hlookup⟩ | hmem
    · exact TxQueue.anyBlock_eq_false hfound hmem hop' rfl
    · obtain ⟨-, op', hop'', hne, -⟩ := hq.verifies idx tx' hlookup
      rw [hop'] at hop''
      exact hne (Option.some.inj hop'' ▸ haction)
    · rw [(hq.withdraws tx' hmem).2] at hop'
      cases hop'
  · refine ⟨hq.addVerifyOperation htype hop haction hadd,
      hadded _ (TxQueue.waiting_addVerifyOperation hfound hadd), fun tx₁ htx₁ => ?_⟩
    obtain rfl := List.mem_singleton.mp htx₁
    refine ⟨hop, fun hid tx' htx' heq => ?_⟩
    have hop' := hsame hid tx' htx' heq
    rcases TxQueue.mem_waiting.mp htx' with hmem | ⟨idx, hlookup⟩ | hmem
    · obtain ⟨-, op', hop'', hcommit⟩ := hq.commits tx' hmem
      rw [hop'] at hop''
      exact haction (Option.some.inj hop'' ▸ hcommit)
    · obtain ⟨-, op', hop'', -, hidx⟩ := hq.verifies idx tx' hlookup
      rw [hop'] at hop''
      obtain rfl := Option.some.inj hop''
      rw [hidx, hlookup] at hfound
      cases hfound
    · rw [(hq.withdraws tx' hmem).2] at hop'
      cases hop'

/-- What joins the queue is what was handed over, once each. -/
theorem addOperationsToQueue_spec {operations : List Operation} {added : List TxData}
    (hq : q.Sorted) (hknown : ∀ tx ∈ q.waiting, ∀ op, tx.operation = some op → op ∈ ops)
    (hids : (ops.map Operation.id).Nodup) (hoperations : ∀ op ∈ operations, op ∈ ops ∧ op.id ≠ none)
    (h : env.addOperationsToQueue q operations = .ok (added, q')) :
    q'.Sorted ∧ q'.waiting = added + q.waiting ∧
      (∀ tx ∈ added, (∃ op ∈ operations, tx.operation = some op) ∧
        ∀ tx' ∈ q.waiting, tx'.opId ≠ tx.opId) ∧ (added.filterMap TxData.opId).Nodup := by
  -- induction on the operations, each of which waits, or was started before
  induction operations generalizing q added with
  | nil =>
    cases h
    exact ⟨hq, (Multiset.zero_add _).symm, fun _ h => absurd h List.not_mem_nil, List.nodup_nil⟩
  | cons operation operations ih =>
    obtain ⟨⟨first, q₁⟩, hfirst, h⟩ := Outcome.bind_eq_ok.mp h
    obtain ⟨⟨rest, q₂⟩, hrest, h⟩ := Outcome.bind_eq_ok.mp h
    cases h
    obtain ⟨hmem, hid⟩ := hoperations operation List.mem_cons_self
    obtain ⟨hq₁, hwaiting₁, hadded₁⟩ := addOperationToQueue_spec hq hknown hids hmem hfirst
    have hknown₁ : ∀ tx ∈ q₁.waiting, ∀ op, tx.operation = some op → op ∈ ops := by
      intro tx htx op hop
      rw [hwaiting₁, Multiset.mem_add, Multiset.mem_coe] at htx
      rcases htx with htx | htx
      · rw [(hadded₁ tx htx).1] at hop
        exact Option.some.inj hop ▸ hmem
      · exact hknown tx htx op hop
    obtain ⟨hq₂, hwaiting₂, hadded₂, hdistinct⟩ := ih hq₁ hknown₁
      (fun op hop => hoperations op (List.mem_cons_of_mem _ hop)) hrest
    refine ⟨hq₂, ?_, ?_, ?_⟩
    · rw [hwaiting₂, hwaiting₁, ← Multiset.coe_add]
      ac_rfl
    · intro tx htx
      rcases List.mem_append.mp htx with htx | htx
      · obtain ⟨hop, hne⟩ := hadded₁ tx htx
        exact ⟨⟨operation, List.mem_cons_self, hop⟩, hne hid⟩
      · obtain ⟨⟨op, hop, hoperation⟩, hne⟩ := hadded₂ tx htx
        refine ⟨⟨op, List.mem_cons_of_mem _ hop, hoperation⟩, fun tx' htx' => hne tx' ?_⟩
        rw [hwaiting₁]
        exact Multiset.mem_add.mpr (Or.inr htx')
    · rw [List.filterMap_append]
      refine List.nodup_append.mpr ⟨?_, hdistinct, fun id hid₁ id' hid₂ heq => ?_⟩
      · exact nodup_filterMap_toList _ first
      · obtain ⟨tx₁, htx₁, hop₁⟩ := List.mem_filterMap.mp hid₁
        obtain ⟨tx₂, htx₂, hop₂⟩ := List.mem_filterMap.mp hid₂
        refine (hadded₂ tx₂ htx₂).2 tx₁ ?_ (by rw [hop₁, hop₂, heq])
        rw [hwaiting₁]
        exact Multiset.mem_add.mpr (Or.inl (Multiset.mem_coe.mpr htx₁))

end Filling

namespace QueueKept

variable {env : SenderEnv} {q q' : TxQueue} {ops : List Operation} {added : List TxData}
  {started : List StartedTx}

/-- What was added waits in the queue, or was started. -/
theorem mem_added (h : QueueKept q ops added started) {tx : TxData} :
    tx ∈ added ↔ tx ∈ q.waiting ∨ tx ∈ started.map StartedTx.tx := by
  rw [← Multiset.mem_coe, h.accounted, Multiset.mem_add, Multiset.mem_coe]

/-- No operation was started twice. -/
theorem started_distinct (h : QueueKept q ops added started) :
    ((started.map StartedTx.tx).filterMap TxData.opId).Nodup := by
  have hle : ((started.map StartedTx.tx : List TxData) : Multiset TxData) ≤ (added : Multiset TxData) := by
    rw [h.accounted]
    exact Multiset.le_add_left _ _
  obtain ⟨txs, hperm, hsub⟩ := Multiset.coe_le.mp hle
  exact (hperm.filterMap _).nodup_iff.mp (h.distinct.sublist (hsub.filterMap _))

/-- More operations at the server leave the queue as it is. -/
theorem mono (h : QueueKept q ops added started) {ops' : List Operation}
    (hops : ∀ op ∈ ops, op ∈ ops') : QueueKept q ops' added started :=
  { h with known := fun tx htx op hop => hops op (h.known tx htx op hop) }

/-- Operations that were not started are loaded into the queue. -/
theorem load (h : QueueKept q ops added started) (hids : (ops.map Operation.id).Nodup)
    {operations : List Operation} (hoperations : ∀ op ∈ operations, op ∈ ops ∧ op.id ≠ none)
    (hunbound : ∀ op ∈ operations, ∀ st ∈ started, st.tx.opId ≠ op.id) {loaded : List TxData}
    (hload : env.addOperationsToQueue q operations = .ok (loaded, q')) :
    QueueKept q' ops (added ++ loaded) started := by
  obtain ⟨hsorted, hwaiting, hloaded, hdistinct⟩ := addOperationsToQueue_spec h.sorted
    (fun tx htx => h.known tx (h.mem_added.mpr (Or.inl htx))) hids hoperations hload
  refine ⟨hsorted, ?_, ?_, ?_⟩
  · rw [← Multiset.coe_add, h.accounted, hwaiting]
    ac_rfl
  · intro tx htx op hop
    rcases List.mem_append.mp htx with htx | htx
    · exact h.known tx htx op hop
    · obtain ⟨⟨op', hop', htx'⟩, -⟩ := hloaded tx htx
      rw [htx'] at hop
      exact Option.some.inj hop ▸ (hoperations op' hop').1
  · rw [List.filterMap_append]
    refine List.nodup_append.mpr ⟨h.distinct, hdistinct, fun id hid id' hid' heq => ?_⟩
    obtain ⟨tx, htx, hop⟩ := List.mem_filterMap.mp hid
    obtain ⟨tx', htx', hop'⟩ := List.mem_filterMap.mp hid'
    obtain ⟨⟨op', hmem, hoperation⟩, hne⟩ := hloaded tx' htx'
    rcases h.mem_added.mp htx with hwait | hstart
    · exact hne tx hwait (by rw [hop, hop', heq])
    · obtain ⟨st, hst, rfl⟩ := List.mem_map.mp hstart
      refine hunbound op' hmem st hst ?_
      rw [hop, heq, ← hop', opId_of_operation hoperation]

/-- A call for withdrawals stands for no operation. -/
theorem addWithdrawOperation (h : QueueKept q ops added started) {tx : TxData}
    (htype : tx.opType = .Withdraw) (hop : tx.operation = none) :
    QueueKept (q.addWithdrawOperation tx) ops (added ++ [tx]) started := by
  refine ⟨h.sorted.addWithdrawOperation htype hop, ?_, ?_, ?_⟩
  · rw [TxQueue.waiting_addWithdrawOperation, ← Multiset.coe_add, h.accounted,
      Multiset.coe_singleton, ← Multiset.singleton_add]
    ac_rfl
  · intro tx' htx' op hop'
    rcases List.mem_append.mp htx' with htx' | htx'
    · exact h.known tx' htx' op hop'
    · rw [List.mem_singleton.mp htx', hop] at hop'
      cases hop'
  · have hnone : tx.opId = none := by
      unfold TxData.opId
      rw [hop]
      rfl
    rw [List.filterMap_append, List.filterMap_cons, hnone, List.filterMap_nil, List.append_nil]
    exact h.distinct

/-- What is popped is started. -/
theorem start (h : QueueKept q ops added started) {tx : TxData} (hyields : Yields q tx q')
    {ethOpId nonce : Nat} :
    QueueKept q' ops added (started ++ [⟨tx, ethOpId, nonce⟩]) := by
  refine ⟨h.sorted.of_yields hyields, ?_, h.known, h.distinct⟩
  rw [h.accounted, TxQueue.waiting_of_yields hyields, List.map_append, ← Multiset.coe_add,
    ← Multiset.singleton_add]
  show {tx} + q'.waiting + _ = q'.waiting + (_ + {tx})
  ac_rfl

end QueueKept

/-! ## The database and the places -/

namespace Recorded

variable {db db' : EthDb} {started : List StartedTx}

/-- No two started operations share an id. -/
theorem ids (h : Recorded db started) : (started.map StartedTx.ethOpId).Nodup :=
  List.pairwise_map.mpr ((List.pairwise_map.mp h.increasing).imp fun hk => Nat.ne_of_lt hk.1)

/-- No two of them share a nonce. -/
theorem nonces (h : Recorded db started) : (started.map StartedTx.nonce).Nodup :=
  List.pairwise_map.mpr ((List.pairwise_map.mp h.increasing).imp fun hk => Nat.ne_of_lt hk.2)

/-- A database that stores the same of them records them as well. -/
theorem same (h : Recorded db started) (hsame : db.SameStarted db') : Recorded db' started := by
  refine ⟨hsame.keys.trans h.rows, hsame.bindings.trans h.bindings, h.increasing, fun k hk => ?_, ?_⟩
  · rw [hsame.parameters]
    exact ⟨Nat.le_trans (h.below k hk).1 hsame.seq, (h.below k hk).2⟩
  · rw [hsame.operations]
    exact h.operations

theorem start (h : Recorded db started) (tx : TxData) (deadlineBlock : UInt64) (gasPrice : Nat)
    (hash : List UInt8) : Recorded (db.storeStarted tx deadlineBlock gasPrice hash)
      (started ++ [⟨tx, db.ethOperationsIdSeq + 1, db.ethParameters.nonce⟩]) := by
  have hnonce : (db.storeStarted tx deadlineBlock gasPrice hash).ethParameters.nonce =
      db.ethParameters.nonce + 1 := by
    unfold EthDb.storeStarted EthDb.saveNewEthTx EthDb.reportCreatedOperation
    cases tx.opType <;> rfl
  have hkeys : ∀ k ∈ (started ++
      [StartedTx.mk tx (db.ethOperationsIdSeq + 1) db.ethParameters.nonce]).map StartedTx.key, k ∈ started.map StartedTx.key ∨
        k = (db.ethOperationsIdSeq + 1, db.ethParameters.nonce) := by
    intro k hk
    rw [List.map_append, List.mem_append] at hk
    exact hk.imp id List.mem_singleton.mp
  refine ⟨?_, ?_, ?_, fun k hk => ?_, h.operations⟩
  · show (db.ethOperations ++ [_]).map StorageETHOperation.key = _
    rw [List.map_append, List.map_append, h.rows]
    rfl
  · show db.ethOpsBinding ++ ((tx.operation.bind Operation.id).map fun opId =>
      ETHBinding.mk opId (db.ethOperationsIdSeq + 1)).toList = _
    rw [List.filterMap_append, ← h.bindings, List.filterMap_cons]
    unfold StartedTx.binding TxData.opId
    dsimp only
    cases tx.operation.bind Operation.id with
    | none => rfl
    | some opId => rfl
  · rw [List.map_append]
    refine List.pairwise_append.mpr ⟨h.increasing, List.pairwise_singleton _ _, fun k hk k' hk' => ?_⟩
    rw [List.mem_singleton.mp hk']
    exact ⟨Nat.lt_succ_of_le (h.below k hk).1, (h.below k hk).2⟩
  · rw [hnonce]
    show k.1 ≤ db.ethOperationsIdSeq + 1 ∧ _
    rcases hkeys k hk with hold | rfl
    · exact ⟨Nat.le_succ_of_le (h.below k hold).1, Nat.lt_succ_of_lt (h.below k hold).2⟩
    · exact ⟨Nat.le_refl _, Nat.lt_succ_self _⟩

/-- What is stored and was not started. -/
theorem unbound (h : Recorded db started) : ∀ op ∈ db.loadUnprocessedOperations,
    (op ∈ db.operations.map OperationRow.intoOp ∧ op.id ≠ none) ∧
      ∀ st ∈ started, st.tx.opId ≠ op.id := by
  intro op hop
  obtain ⟨row, hrow, rfl⟩ := List.mem_map.mp hop
  obtain ⟨hmem, hfilter⟩ := List.mem_filter.mp hrow
  obtain ⟨-, hbinding⟩ := of_decide_eq_true hfilter
  refine ⟨⟨List.mem_map_of_mem hmem, Option.some_ne_none _⟩, fun st hst heq => hbinding ?_⟩
  refine ⟨⟨row.id, st.ethOpId⟩, ?_, rfl⟩
  rw [h.bindings]
  refine List.mem_filterMap.mpr ⟨st, hst, ?_⟩
  unfold StartedTx.binding
  rw [heq]
  rfl

end Recorded

namespace Placed

variable {inFlight : List ETHOperation} {started : List StartedTx} {completed : List EthOpId}
  {sent : List (EthOpId × SignedCallResult)}

/-- What is sent was started before. -/
theorem send (hp : Placed inFlight started completed sent)
    {sent' : List (EthOpId × SignedCallResult)}
    (hsent : ∀ e ∈ sent', (e.1, e.2.nonce) ∈ started.map StartedTx.key) :
    Placed inFlight started completed (sent ++ sent') :=
  { hp with sent := List.forall_mem_append.mpr ⟨hp.sent, hsent⟩ }

theorem start (hp : Placed inFlight started completed sent) {newOp : ETHOperation} {tx : TxData} :
    Placed (inFlight ++ [newOp]) (started ++ [⟨tx, newOp.id, newOp.nonce⟩]) completed sent := by
  have hmono : ∀ k, k ∈ started.map StartedTx.key →
      k ∈ (started ++ [StartedTx.mk tx newOp.id newOp.nonce]).map StartedTx.key := by
    intro k hk
    rw [List.map_append]
    exact List.mem_append_left _ hk
  refine ⟨fun op hop => ?_, ?_, fun e he => hmono _ (hp.sent e he)⟩
  · rcases List.mem_append.mp hop with hop | hop
    · exact hmono _ (hp.keys op hop)
    · rw [List.mem_singleton.mp hop, List.map_append]
      exact List.mem_append_right _ List.mem_cons_self
  · show ((inFlight ++ [newOp]).map _ ++ completed).Perm ((started ++ [_]).map _)
    rw [List.map_append, List.map_append, List.append_assoc]
    refine (List.Perm.append_left _ List.perm_append_comm).trans ?_
    rw [← List.append_assoc]
    exact hp.places.append_right _

/-- Only the ids and nonces of the ongoing operations matter, and not their order. -/
theorem perm (hp : Placed inFlight started completed sent) {inFlight' : List ETHOperation}
    (hkeys : (inFlight'.map ETHOperation.key).Perm (inFlight.map ETHOperation.key)) :
    Placed inFlight' started completed sent := by
  refine ⟨fun op hop => ?_, ?_, hp.sent⟩
  · obtain ⟨op', hop', heq⟩ := List.mem_map.mp (hkeys.subset (List.mem_map_of_mem hop))
    exact heq ▸ hp.keys op' hop'
  · have hids := hkeys.map Prod.fst
    rw [List.map_map, List.map_map] at hids
    exact (hids.append_right _).trans hp.places

/-- One ongoing operation is completed. -/
theorem complete {op : ETHOperation} (hp : Placed (op :: inFlight) started completed sent) :
    Placed inFlight started (completed ++ [op.id]) sent := by
  refine ⟨fun op' hop' => hp.keys op' (List.mem_cons_of_mem _ hop'), ?_, hp.sent⟩
  refine List.Perm.trans ?_ hp.places
  show (inFlight.map _ ++ (completed ++ [op.id])).Perm (op.id :: (inFlight.map _ ++ completed))
  rw [← List.append_assoc]
  exact List.perm_append_singleton _ _

end Placed

/-! ## Steps -/

namespace EthSenderOk

variable {env : SenderEnv} {s s' : SenderState}

/-- A sender on an empty database has started nothing. -/
theorem first (env : SenderEnv) (nonce : Nat) : EthSenderOk (SenderState.first env nonce) where
  queue := ⟨.build _, rfl, fun _ h => absurd h List.not_mem_nil, List.nodup_nil⟩
  recorded := ⟨rfl, rfl, .nil, fun _ h => absurd h List.not_mem_nil, List.nodup_nil⟩
  placed := ⟨fun _ h => absurd h List.not_mem_nil, .nil, fun _ h => absurd h List.not_mem_nil⟩

/-- A new operation is stored with an id above all others. -/
theorem store (h : EthSenderOk s) {id : Int} {action : Action} {block : Block}
    (hnew : ∀ row ∈ s.db.operations, row.id < id) :
    EthSenderOk { s with db := { s.db with
      operations := s.db.operations ++ [⟨id, action, block, false⟩] } } := by
  refine ⟨h.queue.mono fun op hop => ?_, { h.recorded with operations := ?_ }, h.placed⟩
  · show op ∈ (s.db.operations ++ [_]).map OperationRow.intoOp
    rw [List.map_append]
    exact List.mem_append_left _ hop
  · show (((s.db.operations ++ [_]).map OperationRow.intoOp).map Operation.id).Nodup
    rw [List.map_append, List.map_append]
    refine List.nodup_append.mpr ⟨h.recorded.operations, List.nodup_singleton _, ?_⟩
    intro id₁ hid₁ id₂ hid₂ heq
    rw [List.mem_singleton.mp hid₂] at heq
    rw [List.map_map] at hid₁
    obtain ⟨row, hrow, rfl⟩ := List.mem_map.mp hid₁
    exact absurd (hnew row hrow) (by rw [Option.some.inj heq]; exact Int.lt_irrefl _)

/-- The queue is filled with what was not started. -/
theorem filled (h : EthSenderOk s) {q q' : TxQueue} {added loaded : List TxData}
    (hq : QueueKept q (s.db.operations.map OperationRow.intoOp) added s.history.started)
    (hload : env.addOperationsToQueue q s.db.loadUnprocessedOperations = .ok (loaded, q')) :
    QueueKept q' (s.db.operations.map OperationRow.intoOp) (added ++ loaded) s.history.started :=
  hq.load h.recorded.operations (fun op hop => (h.recorded.unbound op hop).1)
    (fun op hop => (h.recorded.unbound op hop).2) hload

/-- Loading starts nothing and sends nothing. -/
theorem loadNewOperations_frame {connection load : Except String Unit}
    (h : env.loadNewOperations s connection load = .ok s') :
    s'.db = s.db ∧ s'.phase = s.phase ∧ s'.sender.ongoingOps = s.sender.ongoingOps ∧
      s'.history.started = s.history.started ∧ s'.history.sent = s.history.sent := by
  unfold SenderEnv.loadNewOperations at h
  split at h
  next =>
    cases h
    exact ⟨rfl, rfl, rfl, rfl, rfl⟩
  next =>
    obtain ⟨⟨loaded, q'⟩, -, h⟩ := Outcome.bind_eq_ok.mp h
    cases h
    exact ⟨rfl, rfl, rfl, rfl, rfl⟩

/-- It keeps the invariant. -/
theorem loadNewOperations (h : EthSenderOk s) {connection load : Except String Unit}
    (hload : env.loadNewOperations s connection load = .ok s') : EthSenderOk s' := by
  unfold SenderEnv.loadNewOperations at hload
  split at hload
  next =>
    cases hload
    exact h
  next =>
    obtain ⟨⟨loaded, q'⟩, hadd, hload⟩ := Outcome.bind_eq_ok.mp hload
    cases hload
    exact ⟨h.filled h.queue hadd, h.recorded, h.placed⟩

/-- An operation that is popped is started, or everything is as before it was popped. -/
theorem startNext_cases (h : s.sender.txQueue.Sorted) {tx : TxData} {q : TxQueue}
    (hyields : Yields s.sender.txQueue tx q) {r : InitReplies} (hcommit : r.Commits)
    (hstart : env.startNext { s with sender := { s.sender with txQueue := q } } tx r = .ok s') :
    s' = s.skipIds r.skippedIds ∨ ∃ signedTx deadlineBlock gasPrice,
      env.SignedWith s.db.ethParameters.nonce signedTx ∧
      s' = { (({ s with sender := { s.sender with txQueue := q } } : SenderState).pushOngoing tx
          (startedOp s.db tx deadlineBlock gasPrice signedTx.hash)).sendTx
            (s.db.ethOperationsIdSeq + 1) signedTx with
        db := s.db.storeStarted tx deadlineBlock gasPrice signedTx.hash } := by
  have hends := env.initializes { s with sender := { s.sender with txQueue := q } } tx r
  unfold SenderEnv.startNext at hstart
  rcases hinit : env.initializeOperation { s with sender := { s.sender with txQueue := q } } tx r with
    ⟨result, s₁⟩
  rw [hinit] at hends hstart
  cases hends with
  | failed e =>
    cases e with
    | panic => cases hstart
    | error =>
      -- the element goes back to where it was
      obtain ⟨q', hreturn, hstart⟩ := Outcome.bind_eq_ok.mp hstart
      cases hstart
      have hsame : q' = s.sender.txQueue := Except.ok.inj
        (hreturn.symm.trans (TxQueue.returnPopped_of_yields env.overflowChecks h hyields))
      rw [hsame]
      exact Or.inl rfl
  | uncommitted _ hstored hnot => exact absurd (hcommit hstored) hnot
  | started _ hsigned =>
    cases hstart
    exact Or.inr ⟨_, _, _, hsigned, rfl⟩

/-- What is popped was waiting. -/
theorem yields_of_popFront {q q' : TxQueue} {tx : TxData} (h : q.popFront = (some tx, q')) :
    Yields q tx q' := by
  rcases popFront_cases h with ⟨hnone, -⟩ | ⟨tx', hsome, -, hyields⟩
  · cases hnone
  · cases hsome
    exact hyields

/-- The operation that is popped is started once it was stored. -/
theorem startNext (h : EthSenderOk s) (hphase : s.phase = .starting) {tx : TxData} {q : TxQueue}
    (hyields : Yields s.sender.txQueue tx q) {r : InitReplies} (hcommit : r.Commits)
    (hstart : env.startNext { s with sender := { s.sender with txQueue := q } } tx r = .ok s') :
    EthSenderOk s' := by
  have hinFlight : ∀ s' : SenderState, s'.phase = s.phase → s'.inFlight = s'.sender.ongoingOps := by
    intro s' hs'
    unfold SenderState.inFlight
    rw [hs', hphase]
  have hplaced := h.placed
  rw [hinFlight s rfl] at hplaced
  rcases startNext_cases h.queue.sorted hyields hcommit hstart with
    rfl | ⟨signedTx, deadlineBlock, gasPrice, hsigned, rfl⟩
  · exact ⟨h.queue, h.recorded.same (.skipIds s _), h.placed⟩
  · refine ⟨h.queue.start hyields, h.recorded.start tx _ _ _, ?_⟩
    rw [hinFlight]
    · refine Placed.send hplaced.start fun e he => ?_
      rw [List.mem_singleton.mp he, hsigned.1]
      show _ ∈ (s.history.started ++ [_]).map StartedTx.key
      rw [List.map_append]
      exact List.mem_append_right _ List.mem_cons_self
    · rfl

/-- A commitment is reported to the queue and to the history. -/
theorem reportCommitted_frame {op : ETHOperation} (h : env.reportCommitted s op = .ok s') :
    s'.db = s.db ∧ s'.phase = s.phase ∧ s'.sender.ongoingOps = s.sender.ongoingOps ∧
      s'.history.started = s.history.started ∧ s'.history.sent = s.history.sent := by
  obtain ⟨q, hq, h⟩ := Outcome.bind_eq_ok.mp h
  dsimp only at h
  split at h
  next =>
    obtain ⟨syncOp, -, h⟩ := Outcome.bind_eq_ok.mp h
    obtain ⟨withdrawalsData, -, h⟩ := Outcome.bind_eq_ok.mp h
    split at h
    next =>
      cases h
      exact ⟨rfl, rfl, rfl, rfl, rfl⟩
    next =>
      cases h
      exact ⟨rfl, rfl, rfl, rfl, rfl⟩
  next =>
    cases h
    exact ⟨rfl, rfl, rfl, rfl, rfl⟩

/-- What is committed leaves those in flight. -/
theorem reportCommitted {newOngoingOps : List ETHOperation} {op : ETHOperation}
    (hqueue : QueueKept s.sender.txQueue (s.db.operations.map OperationRow.intoOp)
      s.history.added s.history.started)
    (hrecorded : Recorded s.db s.history.started) (hphase : s.phase = .sifting newOngoingOps)
    (hplaced : Placed (op :: (newOngoingOps ++ s.sender.ongoingOps)) s.history.started
      s.history.completed s.history.sent)
    (hreport : env.reportCommitted s op = .ok s') : EthSenderOk s' := by
  obtain ⟨q, hq, hreport⟩ := Outcome.bind_eq_ok.mp hreport
  obtain rfl := TxQueue.reportCommitment_eq_ok hq
  have hdone : EthSenderOk { s with
      sender := { s.sender with txQueue := { s.sender.txQueue with
        sentPendingTxs := s.sender.txQueue.sentPendingTxs - 1 } }
      history := { s.history with completed := s.history.completed ++ [op.id] } } := by
    refine ⟨⟨⟨hqueue.sorted.commits, hqueue.sorted.verifies, hqueue.sorted.withdraws⟩,
      hqueue.accounted, hqueue.known, hqueue.distinct⟩, hrecorded, ?_⟩
    unfold SenderState.inFlight
    dsimp only
    rw [hphase]
    exact hplaced.complete
  dsimp only at hreport
  split at hreport
  next =>
    obtain ⟨syncOp, -, hreport⟩ := Outcome.bind_eq_ok.mp hreport
    obtain ⟨withdrawalsData, -, hreport⟩ := Outcome.bind_eq_ok.mp hreport
    split at hreport
    next =>
      cases hreport
      exact hdone
    next =>
      cases hreport
      exact ⟨hdone.queue.addWithdrawOperation rfl rfl, hdone.recorded, hdone.placed⟩
  next =>
    cases hreport
    exact hdone

/-- One look at the first of the ongoing operations. -/
theorem siftNext (h : EthSenderOk s) {newOngoingOps ongoingOps : List ETHOperation}
    {op : ETHOperation} (hphase : s.phase = .sifting newOngoingOps)
    (hongoing : s.sender.ongoingOps = op :: ongoingOps) {r : SiftReplies}
    (hsift : env.siftNext { s with sender := { s.sender with ongoingOps } } newOngoingOps op r =
      .ok s') : EthSenderOk s' := by
  have hplaced : Placed (op :: (newOngoingOps ++ ongoingOps)) s.history.started
      s.history.completed s.history.sent := by
    have := h.placed
    unfold SenderState.inFlight at this
    rw [hphase, hongoing] at this
    exact this.perm ((List.perm_middle.map _).symm)
  have hends := env.performs { s with sender := { s.sender with ongoingOps } } op r
  unfold SenderEnv.siftNext at hsift
  rcases hperform : env.performCommitmentStep
    { s with sender := { s.sender with ongoingOps } } op r with ⟨result, op', s₁⟩
  rw [hperform] at hends hsift
  obtain ⟨hkey, hsender, hphase₁, hsame, sent, hhistory, hsent⟩ := hends.frame
  dsimp only at hkey hsender hphase₁ hsame hhistory hsent
  -- the state after the look, with the operation set aside
  have hplaced₁ : Placed (op' :: (newOngoingOps ++ s₁.sender.ongoingOps)) s₁.history.started
      s₁.history.completed s₁.history.sent := by
    rw [hhistory, hsender]
    refine (hplaced.perm ?_).send fun e he => ?_
    · rw [List.map_cons, List.map_cons, hkey]
    · rw [hsent e he]
      exact hplaced.keys op List.mem_cons_self
  have hqueue₁ : QueueKept s₁.sender.txQueue (s₁.db.operations.map OperationRow.intoOp)
      s₁.history.added s₁.history.started := by
    rw [hsame.operations, hhistory, hsender]
    exact h.queue
  have hrecorded₁ : Recorded s₁.db s₁.history.started := by
    rw [hhistory]
    exact h.recorded.same hsame
  have hpending : EthSenderOk { s₁ with phase := .sifting (newOngoingOps ++ [op']) } := by
    refine ⟨hqueue₁, hrecorded₁, hplaced₁.perm ?_⟩
    show ((newOngoingOps ++ [op'] ++ s₁.sender.ongoingOps).map ETHOperation.key).Perm _
    rw [List.append_assoc]
    exact List.perm_middle.map _
  cases result with
  | ok commitment =>
    cases commitment with
    | Pending =>
      cases hsift
      exact hpending
    | Committed =>
      exact reportCommitted hqueue₁ hrecorded₁ (hphase₁.trans hphase) hplaced₁ hsift
  | error e =>
    cases e with
    | panic => cases hsift
    | error =>
      cases hsift
      exact hpending

/-- What is loaded are rows that were not confirmed. -/
theorem loaded_keys {db : EthDb} {rows : List StorageETHOperation} {ops : List ETHOperation}
    (h : rows.mapM db.loadUnconfirmedOperation = .ok ops) :
    ops.map ETHOperation.key = rows.map StorageETHOperation.key := by
  induction rows generalizing ops with
  | nil =>
    cases h
    rfl
  | cons row rows ih =>
    rw [List.mapM_cons] at h
    obtain ⟨op, hop, h⟩ := Outcome.bind_eq_ok.mp h
    obtain ⟨ops, hops, h⟩ := Outcome.bind_eq_ok.mp h
    obtain ⟨_, -, hop⟩ := Outcome.bind_eq_ok.mp hop
    obtain ⟨price, -, hop⟩ := Outcome.bind_eq_ok.mp hop
    cases hop
    cases h
    rw [List.map_cons, List.map_cons, ih hops]
    rfl

/-- A sender that starts again finds in the database what was started. -/
theorem restart (h : EthSenderOk s) (hrestart : env.restart s = .ok s') : EthSenderOk s' := by
  obtain ⟨⟨added, sender⟩, hnew, hrestart⟩ := Outcome.bind_eq_ok.mp hrestart
  obtain ⟨ongoingOps, hongoing, hnew⟩ := Outcome.bind_eq_ok.mp hnew
  obtain ⟨⟨loaded, q⟩, hload, hnew⟩ := Outcome.bind_eq_ok.mp hnew
  cases hnew
  cases hrestart
  have hkeys := loaded_keys hongoing
  have hempty : ∀ b : TxQueueBuilder, QueueKept b.build
      (s.db.operations.map OperationRow.intoOp) (s.history.started.map StartedTx.tx)
      s.history.started := by
    intro b
    refine ⟨.build b, (Multiset.zero_add _).symm, fun tx htx => ?_, ?_⟩
    · exact h.queue.known tx (h.queue.mem_added.mpr (Or.inr htx))
    · exact h.queue.started_distinct
  refine ⟨h.filled (hempty _) hload, h.recorded, ?_, ?_, h.placed.sent⟩
  · intro op hop
    have hmem : op.key ∈ ongoingOps.map ETHOperation.key := List.mem_map_of_mem hop
    rw [hkeys] at hmem
    rw [← h.recorded.rows]
    exact (List.filter_sublist.map _).subset hmem
  · have hids : ongoingOps.map ETHOperation.id =
        (s.db.ethOperations.filter fun row => row.confirmed = false).map StorageETHOperation.id := by
      have := congrArg (List.map Prod.fst) hkeys
      rwa [List.map_map, List.map_map] at this
    have hrows : s.db.ethOperations.map StorageETHOperation.id =
        s.history.started.map StartedTx.ethOpId := by
      have := congrArg (List.map Prod.fst) h.recorded.rows
      rwa [List.map_map, List.map_map] at this
    show (ongoingOps.map ETHOperation.id ++ _).Perm _
    rw [hids, ← hrows, ← List.map_append]
    refine List.Perm.map _ ?_
    have hnot : (s.db.ethOperations.filter fun row => row.confirmed = false) =
        s.db.ethOperations.filter fun row => !row.confirmed := by
      refine List.filter_congr fun row _ => ?_
      cases row.confirmed <;> rfl
    rw [hnot]
    exact List.perm_append_comm.trans (List.filter_append_perm _ _)

/-- Whatever the sender does next, the invariant is kept. -/
theorem step (h : EthSenderOk s) {e : SenderEvent} (hcommits : e.Commits)
    (hstep : SenderStep env s e s') : EthSenderOk s' := by
  cases hstep.moves with
  | store hnew => exact h.store hnew
  | @loadNewOperations _ _ s₁ hphase hload =>
    have h₁ := h.loadNewOperations hload
    have hphase₁ := (loadNewOperations_frame hload).2.1
    refine ⟨h₁.queue, h₁.recorded, ?_⟩
    have hinFlight : SenderState.inFlight
        { s₁ with phase := if env.options.isEnabled then .starting else .idle } = s₁.inFlight := by
      unfold SenderState.inFlight
      rw [hphase₁, hphase]
      cases env.options.isEnabled <;> rfl
    rw [hinFlight]
    exact h₁.placed
  | startNext hphase hpop hstart =>
    exact h.startNext hphase (yields_of_popFront hpop) hcommits hstart
  | startSifting hphase hpop =>
    refine ⟨h.queue, h.recorded, ?_⟩
    have := h.placed
    unfold SenderState.inFlight at this ⊢
    rwa [hphase] at this
  | siftNext hphase hongoing hsift => exact h.siftNext hphase hongoing hsift
  | finish hphase hongoing =>
    refine ⟨h.queue, h.recorded, ?_⟩
    have := h.placed
    unfold SenderState.inFlight at this ⊢
    rw [hphase, hongoing] at this
    dsimp only at this ⊢
    rwa [List.append_nil] at this
  | restart hrestart => exact h.restart hrestart

/-- Under the invariant no operation is started twice. -/
theorem startedOnce (h : EthSenderOk s) : StartedOnce s := by
  have hids := h.recorded.ids
  have hsent : ∀ e ∈ s.history.sent, ∃ started ∈ s.history.started,
      started.ethOpId = e.1 ∧ started.nonce = e.2.nonce := by
    intro e he
    obtain ⟨started, hstarted, heq⟩ := List.mem_map.mp (h.placed.sent e he)
    exact ⟨started, hstarted, (Prod.mk.inj heq).1, (Prod.mk.inj heq).2⟩
  refine ⟨h.queue.accounted, h.queue.distinct, h.placed.places, hids, h.recorded.nonces, hsent, ?_⟩
  intro e he e' he' st hst st' hst' hid hid' hsame
  obtain ⟨st₁, hst₁, hid₁, hnonce₁⟩ := hsent e he
  obtain ⟨st₂, hst₂, hid₂, hnonce₂⟩ := hsent e' he'
  obtain rfl := List.inj_on_of_nodup_map hids hst₁ hst (hid₁.trans hid.symm)
  obtain rfl := List.inj_on_of_nodup_map hids hst₂ hst' (hid₂.trans hid'.symm)
  rw [← hnonce₁, ← hnonce₂]
  rcases hsame with heq | ⟨hsome, heq⟩
  · rw [List.inj_on_of_nodup_map hids hst₁ hst₂ heq]
  · obtain ⟨opId, hopId⟩ := Option.ne_none_iff_exists'.mp hsome
    have hdistinct := h.queue.started_distinct
    rw [List.filterMap_map] at hdistinct
    rw [eq_of_nodup_filterMap hdistinct hst₁ hst₂ hopId (heq.symm.trans hopId)]

end EthSenderOk

/-- In every run in which the commits of `initialize_operation` succeed, every operation
is in one place and has one nonce. -/
theorem started_once {env : SenderEnv} {nonce : Nat} {tr : List SenderEvent} {s : SenderState}
    (hrun : Run (SenderStep env) (.first env nonce) tr s) (hcommits : ∀ e ∈ tr, e.Commits) :
    StartedOnce s :=
  EthSenderOk.startedOnce <| (hrun.guard fun e he _ => hcommits e he).invariant (I := EthSenderOk)
    (fun _ _ _ h hstep => h.step hstep.1 hstep.2) (.first env nonce)

/-! ## Two runs -/

/-- Run the sender through the events, if they can happen. -/
def SenderEnv.play (env : SenderEnv) : SenderState → List SenderEvent → Option SenderState
  | s, [] => some s
  | s, e :: tr => do env.play (← env.next s e) tr

/-- What was played is a run. -/
theorem SenderEnv.run_of_play {env : SenderEnv} {s s' : SenderState} {tr : List SenderEvent}
    (h : env.play s tr = some s') : Run (SenderStep env) s tr s' := by
  induction tr generalizing s with
  | nil =>
    cases h
    exact .nil _
  | cons e tr ih =>
    obtain ⟨s₁, hnext, h⟩ := Option.bind_eq_some_iff.mp h
    exact .cons hnext (ih h)

/-- Encodes no call, and signs the gas price and the nonce; the hash is the signed
transaction. -/
def sampleSenderEnv : SenderEnv where
  overflowChecks := true
  options := ⟨10, 1, 2, true⟩
  encodeTxData _ := []
  signTransaction _ options := options.gasPrice.toUInt8 :: List.replicate options.nonce 0
  sha3 rawTx := rawTx

/-- An empty block, with gas limits. -/
def sampleEmptyBlock : Block where
  blockNumber := 1
  newRootHash := 0
  feeAccount := 0
  blockTransactions := []
  processedPriorityOps := (0, 0)
  blockChunksSize := 0
  commitGasLimit := 100
  verifyGasLimit := 100

/-- One commit operation is stored and loaded. -/
def sampleLoaded : List SenderEvent :=
  [.store 1 .Commit sampleEmptyBlock, .loadNewOperations (.ok ()) (.ok ())]

def sampleInit : InitReplies := { blockNumber := .ok 5, gas := ⟨.ok 3, 7⟩ }

/-- The operation gets stuck once and is then confirmed. -/
def sampleSifts : List SenderEvent :=
  [.startSifting,
    .siftNext { blockNumber := .ok 15, getTxStatus := fun _ => .ok none, supplement := { gas := ⟨.ok 4, 7⟩ } },
    .finish, .restart, .loadNewOperations (.ok ()) (.ok ()), .startSifting,
    .siftNext { blockNumber := .ok 16, getTxStatus := fun _ => .ok (some ⟨1, true, false⟩),
                supplement := { gas := ⟨.ok 4, 7⟩ } },
    .finish]

/-- The first start fails at the signer, the second one succeeds. -/
def sampleTrace : List SenderEvent :=
  sampleLoaded ++ [.startNext { sampleInit with sign := .error "" }, .startNext sampleInit] ++ sampleSifts

theorem started_once_sample : ∃ s, Run (SenderStep sampleSenderEnv)
    (.first sampleSenderEnv 4) sampleTrace s ∧ s.history.completed = [1] ∧
      s.history.sent.map (fun e => (e.1, e.2.nonce, e.2.hash)) = [(1, 4, [3, 0, 0, 0, 0]), (1, 4, [4, 0, 0, 0, 0])] ∧
      StartedOnce s := by
  obtain ⟨s, hplay, hs⟩ := Option.map_eq_some_iff.mp (show (sampleSenderEnv.play
    (.first sampleSenderEnv 4) sampleTrace).map (fun s => (s.history.completed,
      s.history.sent.map fun e => (e.1, e.2.nonce, e.2.hash))) = some _ from rfl)
  have hrun := SenderEnv.run_of_play hplay
  refine ⟨s, hrun, congrArg Prod.fst hs, congrArg Prod.snd hs, started_once hrun fun e he => ?_⟩
  simp only [sampleTrace, sampleLoaded, sampleSifts, List.cons_append, List.nil_append,
    List.mem_cons, List.not_mem_nil, or_false] at he
  rcases he with rfl | rfl | rfl | rfl | rfl | rfl | rfl | rfl | rfl | rfl | rfl | rfl
  all_goals first | trivial | exact fun _ => rfl

/-- The commit of `initialize_operation` fails: the operation is ongoing, and it is in
the queue. -/
theorem not_started_once : ∃ s, Run (SenderStep sampleSenderEnv) (.first sampleSenderEnv 4)
    (sampleLoaded ++ [.startNext { sampleInit with commit := .error "" }]) s ∧ ¬ StartedOnce s := by
  obtain ⟨s, hplay, hs⟩ := Option.map_eq_some_iff.mp (show (sampleSenderEnv.play
    (.first sampleSenderEnv 4)
      (sampleLoaded ++ [.startNext { sampleInit with commit := .error "" }])).map (fun s =>
        (s.history.added.length, s.sender.txQueue.waiting.card, s.history.started.length)) =
      some (1, 1, 1) from rfl)
  refine ⟨s, SenderEnv.run_of_play hplay, fun h => ?_⟩
  have hcard := congrArg Multiset.card h.accounted
  rw [Multiset.card_add, Multiset.coe_card, Multiset.coe_card, List.length_map] at hcard
  obtain ⟨hadded, hwaiting, hstarted⟩ : _ ∧ _ ∧ _ :=
    ⟨congrArg Prod.fst hs, congrArg (fun n => n.2.1) hs, congrArg (fun n => n.2.2) hs⟩
  dsimp only at hadded hwaiting hstarted
  omega

end ZkSync
