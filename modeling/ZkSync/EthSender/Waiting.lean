import ZkSync.EthSender.QueueDiscipline

/-!
# What waits in the queue

The three queues as one bag of operations (`TxQueue.waiting`). An operation that is
popped leaves the bag; one that is returned right after it was popped leaves the queue
as it was before (`returnPopped_of_yields`).
-/

namespace ZkSync

namespace TxQueue

/-- What the queue holds. -/
def waiting (q : TxQueue) : Multiset TxData :=
  (q.commitOperations.elements : Multiset TxData) +
    q.verifyOperations.elements.entries.map Sigma.snd + (q.withdrawOperations.elements : Multiset TxData)

/-- Each queue holds operations of its own type; a verify operation is at the index of
its block. -/
structure Sorted (q : TxQueue) : Prop where
  commits : ∀ tx ∈ q.commitOperations.elements,
    tx.opType = .Commit ∧ ∃ op, tx.operation = some op ∧ op.action = .Commit
  verifies : ∀ idx tx, q.verifyOperations.elements.lookup idx = some tx →
    tx.opType = .Verify ∧ ∃ op, tx.operation = some op ∧ op.action ≠ .Commit ∧
      op.block.blockNumber.toNat = idx
  withdraws : ∀ tx ∈ q.withdrawOperations.elements, tx.opType = .Withdraw ∧ tx.operation = none

variable {q q' : TxQueue} {tx : TxData}

theorem mem_waiting : tx ∈ q.waiting ↔ tx ∈ q.commitOperations.elements ∨
    (∃ idx, q.verifyOperations.elements.lookup idx = some tx) ∨
      tx ∈ q.withdrawOperations.elements := by
  unfold waiting
  rw [Multiset.mem_add, Multiset.mem_add, Multiset.mem_coe, Multiset.mem_coe, Multiset.mem_map,
    or_assoc]
  refine or_congr_right (or_congr_left ⟨?_, ?_⟩)
  · rintro ⟨⟨idx, tx'⟩, hmem, rfl⟩
    exact ⟨idx, Finmap.lookup_eq_some_iff.mpr hmem⟩
  · rintro ⟨idx, hlookup⟩
    exact ⟨⟨idx, tx⟩, Finmap.lookup_eq_some_iff.mp hlookup, rfl⟩

/-! ## Adding -/

theorem waiting_addCommitOperation (q : TxQueue) (tx : TxData) :
    (q.addCommitOperation tx).waiting = tx ::ₘ q.waiting := by
  unfold waiting addCommitOperation CounterQueue.pushBack
  dsimp only
  rw [← Multiset.coe_add, Multiset.coe_singleton, ← Multiset.singleton_add]
  ac_rfl

theorem waiting_addWithdrawOperation (q : TxQueue) (tx : TxData) :
    (q.addWithdrawOperation tx).waiting = tx ::ₘ q.waiting := by
  unfold waiting addWithdrawOperation CounterQueue.pushBack
  dsimp only
  rw [← Multiset.coe_add, Multiset.coe_singleton, ← Multiset.singleton_add]
  ac_rfl

theorem waiting_addVerifyOperation {blockIdx : Nat}
    (hfresh : q.verifyOperations.elements.lookup blockIdx = none)
    (h : q.addVerifyOperation blockIdx tx = .ok q') : q'.waiting = tx ::ₘ q.waiting := by
  obtain ⟨verifyOperations, hinsert, h⟩ := Outcome.bind_eq_ok.mp h
  cases h
  obtain ⟨_, -, hinsert⟩ := Outcome.bind_eq_ok.mp hinsert
  cases hinsert
  unfold waiting
  dsimp only
  rw [Finmap.entries_insert_of_notMem (Finmap.lookup_eq_none.mp hfresh), Multiset.map_cons,
    ← Multiset.singleton_add, ← Multiset.singleton_add]
  ac_rfl

namespace Sorted

theorem addCommitOperation (h : q.Sorted) {op : Operation} (htype : tx.opType = .Commit)
    (hop : tx.operation = some op) (haction : op.action = .Commit) :
    (q.addCommitOperation tx).Sorted :=
  { h with
    commits := List.forall_mem_append.mpr
      ⟨h.commits, List.forall_mem_singleton.mpr ⟨htype, op, hop, haction⟩⟩ }

theorem addWithdrawOperation (h : q.Sorted) (htype : tx.opType = .Withdraw)
    (hop : tx.operation = none) : (q.addWithdrawOperation tx).Sorted :=
  { h with
    withdraws := List.forall_mem_append.mpr
      ⟨h.withdraws, List.forall_mem_singleton.mpr ⟨htype, hop⟩⟩ }

theorem addVerifyOperation (h : q.Sorted) {op : Operation} (htype : tx.opType = .Verify)
    (hop : tx.operation = some op) (haction : op.action ≠ .Commit)
    (hq : q.addVerifyOperation op.block.blockNumber.toNat tx = .ok q') : q'.Sorted := by
  obtain ⟨verifyOperations, hinsert, hq⟩ := Outcome.bind_eq_ok.mp hq
  cases hq
  obtain ⟨_, -, hinsert⟩ := Outcome.bind_eq_ok.mp hinsert
  cases hinsert
  refine { h with verifies := fun idx tx' hlookup => ?_ }
  by_cases hidx : idx = op.block.blockNumber.toNat
  · rw [hidx, Finmap.lookup_insert] at hlookup
    exact Option.some.inj hlookup ▸ ⟨htype, op, hop, haction, hidx.symm⟩
  · rw [Finmap.lookup_insert_of_ne _ hidx] at hlookup
    exact h.verifies idx tx' hlookup

theorem build (b : TxQueueBuilder) : b.build.Sorted where
  commits := fun _ h => absurd h List.not_mem_nil
  verifies := fun _ _ h => (by cases h)
  withdraws := fun _ h => absurd h List.not_mem_nil

end Sorted

/-- A block without a commit operation in the queue. -/
theorem anyBlock_eq_false {blockIdx : BlockNumber} {items : List TxData}
    (h : commitOperationExists.anyBlock blockIdx items = .ok false) {op : Operation} {tx : TxData}
    (htx : tx ∈ items) (hop : tx.operation = some op) : op.block.blockNumber ≠ blockIdx := by
  induction items with
  | nil => cases htx
  | cons item items ih =>
    obtain ⟨block, hblock, h⟩ := Outcome.bind_eq_ok.mp h
    split at h
    next => cases h
    next hne =>
      rcases List.mem_cons.mp htx with rfl | htx
      · obtain ⟨operation, hoperation, hblock⟩ := Outcome.bind_eq_ok.mp hblock
        cases hblock
        rw [hop] at hoperation
        cases hoperation
        exact hne
      · exact ih h htx

/-! ## Popping and returning -/

theorem insert_erase_of_lookup {elements : Finmap fun _ : Nat => TxData} {idx : Nat}
    (h : elements.lookup idx = some tx) : (elements.erase idx).insert idx tx = elements := by
  refine Finmap.ext_lookup fun idx' => ?_
  by_cases hidx : idx' = idx
  · rw [hidx, Finmap.lookup_insert, h]
  · rw [Finmap.lookup_insert_of_ne _ hidx, Finmap.lookup_erase_ne hidx]

theorem waiting_of_yields (h : Yields q tx q') : q.waiting = tx ::ₘ q'.waiting := by
  unfold waiting
  cases h with
  | verify hlookup _ =>
    have hentries := congrArg Finmap.entries (insert_erase_of_lookup hlookup)
    rw [Finmap.entries_insert_of_notMem Finmap.notMem_erase_self] at hentries
    rw [← hentries, Multiset.map_cons, ← Multiset.singleton_add, ← Multiset.singleton_add]
    dsimp only
    ac_rfl
  | withdraw hfront _ =>
    rw [hfront]
    dsimp only
    rw [← Multiset.cons_coe, Multiset.add_cons]
  | commit hfront =>
    rw [hfront]
    dsimp only
    rw [← Multiset.cons_coe, Multiset.cons_add, Multiset.cons_add]

theorem Sorted.of_yields (hq : q.Sorted) (h : Yields q tx q') : q'.Sorted := by
  cases h with
  | verify hlookup _ =>
    refine { hq with verifies := fun idx tx' hlookup' => ?_ }
    by_cases hidx : idx = q.verifyOperations.nextExpectedIdx
    · rw [hidx, Finmap.lookup_erase] at hlookup'
      cases hlookup'
    · rw [Finmap.lookup_erase_ne hidx] at hlookup'
      exact hq.verifies idx tx' hlookup'
  | withdraw hfront _ =>
    exact { hq with
      withdraws := fun tx' h' => hq.withdraws tx' (hfront ▸ List.mem_cons_of_mem _ h') }
  | commit hfront =>
    exact { hq with commits := fun tx' h' => hq.commits tx' (hfront ▸ List.mem_cons_of_mem _ h') }

theorem usizeSub_succ (overflowChecks : Bool) (n : Nat) : usizeSub overflowChecks (n + 1) 1 = .ok n := by
  unfold usizeSub
  rw [if_pos (Nat.le_add_left _ _)]
  rfl

/-- What was just popped can be returned, and nothing has changed. -/
theorem returnPopped_of_yields (overflowChecks : Bool) (hq : q.Sorted) (h : Yields q tx q') :
    q'.returnPopped overflowChecks tx = .ok q := by
  cases h with
  | verify hlookup _ =>
    have htype := (hq.verifies _ _ hlookup).1
    unfold returnPopped
    dsimp only
    rw [Outcome.assert_ok _ (Nat.succ_pos _), Outcome.ok_bind, htype]
    dsimp only
    unfold SparseQueue.returnPopped
    dsimp only
    rw [usizeSub_succ, Outcome.ok_bind, insert_erase_of_lookup hlookup]
    rfl
  | withdraw hfront _ =>
    have htype := (hq.withdraws tx (hfront ▸ List.mem_cons_self)).1
    unfold returnPopped
    dsimp only
    rw [Outcome.assert_ok _ (Nat.succ_pos _), Outcome.ok_bind, htype]
    dsimp only
    unfold CounterQueue.returnPopped
    dsimp only
    rw [usizeSub_succ, Outcome.ok_bind, ← hfront]
    rfl
  | commit hfront =>
    have htype := (hq.commits tx (hfront ▸ List.mem_cons_self)).1
    unfold returnPopped
    dsimp only
    rw [Outcome.assert_ok _ (Nat.succ_pos _), Outcome.ok_bind, htype]
    dsimp only
    unfold CounterQueue.returnPopped
    dsimp only
    rw [usizeSub_succ, Outcome.ok_bind, ← hfront]
    rfl

/-- A commitment only frees a slot. -/
theorem reportCommitment_eq_ok (h : q.reportCommitment = .ok q') :
    q' = { q with sentPendingTxs := q.sentPendingTxs - 1 } := by
  obtain ⟨_, -, h⟩ := Outcome.bind_eq_ok.mp h
  exact (Except.ok.inj h).symm

end TxQueue

end ZkSync
