import ZkSync.EthSender.TxQueue
import ZkSync.Lib.Run

/-!
# The queue keeps its order

What was added to the queue, what it yielded, and what of that is in flight is a
`QueueHistory`. In every run of calls that a sender may make (`QueueHistory.Allows`)
the queue is what the history says (`TxQueueOk`): the counters count the operations
that were yielded and not returned. The order of the yields is in `TxQueueOk.ahead`,
which speaks of every prefix of them, so that returning the last one keeps it.
-/

namespace ZkSync

/-! ## Calls -/

/-- What the sender asks of its queue. -/
inductive QueueCall where
  | addCommit (tx : TxData)
  | addVerify (blockIdx : Nat) (tx : TxData)
  | addWithdraw (tx : TxData)
  | pop
  | returnPopped (tx : TxData)
  | report (tx : TxData)

/-- The answer is the operation that was popped. -/
def TxQueue.answer (overflowChecks : Bool) (q : TxQueue) :
    QueueCall → Outcome (Option TxData × TxQueue)
  | .addCommit tx => .ok (none, q.addCommitOperation tx)
  | .addVerify blockIdx tx => do return (none, ← q.addVerifyOperation blockIdx tx)
  | .addWithdraw tx => .ok (none, q.addWithdrawOperation tx)
  | .pop => .ok q.popFront
  | .returnPopped tx => do return (none, ← q.returnPopped overflowChecks tx)
  | .report _ => do return (none, ← q.reportCommitment)

/-- What was added, what was yielded and not returned, and what of it is in flight. -/
structure QueueHistory where
  commits : List TxData := []
  /-- With the number of the block. -/
  verifies : List (Nat × TxData) := []
  withdraws : List TxData := []
  yielded : List TxData := []
  inFlight : List TxData := []

namespace QueueHistory

variable (h : QueueHistory)

/-- The history remembers what was added and what was yielded. -/
def record : QueueCall × Option TxData → QueueHistory
  | (.addCommit tx, _) => { h with commits := h.commits ++ [tx] }
  | (.addVerify blockIdx tx, _) => { h with verifies := h.verifies ++ [(blockIdx, tx)] }
  | (.addWithdraw tx, _) => { h with withdraws := h.withdraws ++ [tx] }
  | (.pop, popped) =>
    { h with yielded := h.yielded ++ popped.toList, inFlight := h.inFlight ++ popped.toList }
  | (.returnPopped tx, _) =>
    { h with yielded := h.yielded.dropLast, inFlight := h.inFlight.erase tx }
  | (.report tx, _) => { h with inFlight := h.inFlight.erase tx }

/-- What a sender may ask. The commit operation of block `n` is the `n`-th that is
added; the verify operation of a block is added once, after it. The operation that is
returned is the last one that was popped, and it is in flight, as is an operation
that is reported. -/
def Allows : QueueCall → Prop
  | .addCommit tx => tx.opType = .Commit
  | .addVerify blockIdx tx => tx.opType = .Verify ∧ 1 ≤ blockIdx ∧ blockIdx ≤ h.commits.length ∧
    blockIdx ∉ h.verifies.map Prod.fst
  | .addWithdraw tx => tx.opType = .Withdraw
  | .pop => True
  | .returnPopped tx => h.yielded.getLast? = some tx ∧ tx ∈ h.inFlight
  | .report tx => tx ∈ h.inFlight

instance (call : QueueCall) : Decidable (h.Allows call) :=
  match call with
  | .addCommit tx => inferInstanceAs (Decidable (tx.opType = .Commit))
  | .addVerify blockIdx tx => inferInstanceAs (Decidable (tx.opType = .Verify ∧ 1 ≤ blockIdx ∧
    blockIdx ≤ h.commits.length ∧ blockIdx ∉ h.verifies.map Prod.fst))
  | .addWithdraw tx => inferInstanceAs (Decidable (tx.opType = .Withdraw))
  | .pop => inferInstanceAs (Decidable True)
  | .returnPopped tx => inferInstanceAs (Decidable (h.yielded.getLast? = some tx ∧ tx ∈ h.inFlight))
  | .report tx => inferInstanceAs (Decidable (tx ∈ h.inFlight))

/-- The yielded operations of one type, in order. -/
def yieldedOf (opType : OperationType) : List TxData :=
  h.yielded.filter fun tx => tx.opType = opType

end QueueHistory

/-- A call that a sender may make, and its answer. -/
def TxQueueStep (overflowChecks : Bool) (x : TxQueue × QueueHistory)
    (e : QueueCall × Option TxData) (x' : TxQueue × QueueHistory) : Prop :=
  x.2.Allows e.1 ∧ x.1.answer overflowChecks e.1 = .ok (e.2, x'.1) ∧ x'.2 = x.2.record e

/-- Make the calls, if they may be made. -/
def playQueue (overflowChecks : Bool) : TxQueue × QueueHistory → List QueueCall →
    Option (List (QueueCall × Option TxData) × (TxQueue × QueueHistory))
  | x, [] => some ([], x)
  | x, call :: calls =>
    if x.2.Allows call then do
      let (popped, q) ← (x.1.answer overflowChecks call).toOption
      let (tr, x') ← playQueue overflowChecks (q, x.2.record (call, popped)) calls
      return ((call, popped) :: tr, x')
    else none

/-- What was played is a run. -/
theorem run_of_playQueue {overflowChecks : Bool} {calls : List QueueCall}
    {x x' : TxQueue × QueueHistory} {tr : List (QueueCall × Option TxData)}
    (h : playQueue overflowChecks x calls = some (tr, x')) : Run (TxQueueStep overflowChecks) x tr x' := by
  induction calls generalizing x tr with
  | nil =>
    cases h
    exact .nil _
  | cons call calls ih =>
    unfold playQueue at h
    split at h
    next hallows =>
      obtain ⟨⟨popped, q⟩, hanswer, h⟩ := Option.bind_eq_some_iff.mp h
      obtain ⟨⟨tr', x₁⟩, hrest, h⟩ := Option.bind_eq_some_iff.mp h
      cases h
      exact .cons ⟨hallows, Outcome.toOption_eq_some.mp hanswer, rfl⟩ (ih hrest)
    next => cases h

/-! ## The queues by themselves -/

section Queues

variable {α : Type} {yields : List α} {element : α}

/-- The queue holds what was added and not yielded, in the order it was added. -/
structure CounterQueue.Ok (q : CounterQueue α) (yields added : List α) : Prop where
  rest : yields ++ q.elements = added
  counter : q.counter = yields.length

namespace CounterQueue.Ok

variable {q : CounterQueue α} {added : List α}

/-- What is added waits behind the others. -/
theorem pushBack (h : q.Ok yields added) (element : α) :
    (q.pushBack element).Ok yields (added ++ [element]) := by
  refine ⟨?_, h.counter⟩
  show yields ++ (q.elements ++ [element]) = added ++ [element]
  rw [← List.append_assoc, h.rest]

theorem popFront (h : q.Ok yields added) {rest : List α} (hfront : q.elements = element :: rest) :
    Ok ⟨rest, q.counter + 1⟩ (yields ++ [element]) added := by
  refine ⟨?_, ?_⟩
  · rw [List.append_assoc, ← h.rest, hfront]
    rfl
  · rw [List.length_append, ← h.counter]
    rfl

theorem returnPopped (overflowChecks : Bool) (h : q.Ok (yields ++ [element]) added) :
    ∃ q', q.returnPopped overflowChecks element = .ok q' ∧ q'.Ok yields added := by
  have hcounter : q.counter = yields.length + 1 := h.counter.trans List.length_append
  have hsub : usizeSub overflowChecks q.counter 1 = .ok yields.length := by
    unfold usizeSub
    rw [if_pos (by omega), hcounter]
    rfl
  refine ⟨⟨element :: q.elements, yields.length⟩, ?_, ?_, rfl⟩
  · unfold CounterQueue.returnPopped
    rw [hsub]
    rfl
  · rw [← h.rest, List.append_assoc]
    rfl

end CounterQueue.Ok

/-- The elements with the indices `1`, `2`, … were yielded, in this order, and the
queue holds the rest of what was added, at its index. -/
structure SparseQueue.Ok (q : SparseQueue α) (yields : List α) (added : List (Nat × α)) : Prop where
  next : q.nextExpectedIdx = yields.length + 1
  yielded : ∀ i element, yields[i]? = some element ↔
    (i + 1, element) ∈ added ∧ i + 1 < q.nextExpectedIdx
  waiting : ∀ idx element, q.elements.lookup idx = some element ↔
    (idx, element) ∈ added ∧ q.nextExpectedIdx ≤ idx
  once : (added.map Prod.fst).Nodup

namespace SparseQueue.Ok

variable {q : SparseQueue α} {added : List (Nat × α)}

/-- What was not added was not yielded. -/
theorem next_le (h : q.Ok yields added) {idx : Nat} (hpos : 1 ≤ idx)
    (hfresh : idx ∉ added.map Prod.fst) : q.nextExpectedIdx ≤ idx := by
  by_contra hlt
  rw [h.next] at hlt
  obtain ⟨element, helement⟩ : ∃ element, yields[idx - 1]? = some element :=
    ⟨_, List.getElem?_eq_getElem (by omega)⟩
  have hmem := ((h.yielded _ _).mp helement).1
  rw [Nat.sub_add_cancel hpos] at hmem
  exact hfresh (List.mem_map_of_mem hmem)

theorem insert (h : q.Ok yields added) {idx : Nat} (hpos : 1 ≤ idx)
    (hfresh : idx ∉ added.map Prod.fst) (element : α) :
    ∃ q', q.insert idx element = .ok q' ∧ q'.Ok yields (added ++ [(idx, element)]) := by
  have hnext := h.next_le hpos hfresh
  have hmem : ∀ e, e ∈ added ++ [(idx, element)] ↔ e ∈ added ∨ e = (idx, element) :=
    fun e => by rw [List.mem_append, List.mem_singleton]
  refine ⟨⟨q.nextExpectedIdx, q.elements.insert idx element⟩, ?_, h.next, fun i element' => ?_,
    fun idx' element' => ?_, ?_⟩
  · unfold SparseQueue.insert
    rw [Outcome.assert_ok _ hnext]
    rfl
  · rw [h.yielded, hmem]
    refine and_congr_left fun hlt => ⟨Or.inl, fun hor => hor.resolve_right fun he => ?_⟩
    have := (Prod.mk.inj he).1
    omega
  · rw [hmem]
    by_cases hidx : idx' = idx
    · subst hidx
      rw [Finmap.lookup_insert]
      refine ⟨fun he => ⟨Or.inr (by rw [Option.some.inj he]), hnext⟩, fun ⟨hor, _⟩ => ?_⟩
      rcases hor with hold | he
      · exact absurd (List.mem_map_of_mem hold) hfresh
      · rw [(Prod.mk.inj he).2]
    · rw [Finmap.lookup_insert_of_ne _ hidx, h.waiting]
      refine and_congr_left fun _ => ⟨Or.inl, fun hor => hor.resolve_right fun he => ?_⟩
      exact hidx (Prod.mk.inj he).1
  · rw [List.map_append, List.map_singleton]
    refine List.nodup_append.mpr ⟨h.once, List.nodup_singleton _, fun a ha b hb he => ?_⟩
    have hb : b = idx := List.mem_singleton.mp hb
    exact hfresh (hb ▸ he ▸ ha)

/-- There is one element at each index. -/
theorem unique (h : q.Ok yields added) {idx : Nat} {element element' : α}
    (hmem : (idx, element) ∈ added) (hmem' : (idx, element') ∈ added) : element = element' :=
  (Prod.mk.inj (List.inj_on_of_nodup_map h.once hmem hmem' rfl)).2

theorem popFront (h : q.Ok yields added)
    (hlookup : q.elements.lookup q.nextExpectedIdx = some element) :
    Ok ⟨q.nextExpectedIdx + 1, q.elements.erase q.nextExpectedIdx⟩ (yields ++ [element]) added := by
  obtain ⟨hmem, -⟩ := (h.waiting _ _).mp hlookup
  rw [h.next] at hmem
  refine ⟨?_, fun i element' => ?_, fun idx element' => ?_, h.once⟩
  · rw [List.length_append, h.next]
    rfl
  · dsimp only
    rw [h.next]
    by_cases hi : i < yields.length
    · rw [List.getElem?_append_left hi, h.yielded, h.next]
      exact and_congr_right fun _ => by omega
    · rw [List.getElem?_append_right (Nat.le_of_not_lt hi)]
      refine ⟨fun he => ?_, fun ⟨hmem', hlt⟩ => ?_⟩
      · obtain ⟨hlt, he⟩ := List.getElem?_eq_some_iff.mp he
        rw [List.length_singleton] at hlt
        obtain rfl : i = yields.length := by omega
        have helement : element = element' := by simpa using he
        exact ⟨helement ▸ hmem, by omega⟩
      · obtain rfl : i = yields.length := by omega
        rw [h.unique hmem' hmem, Nat.sub_self]
        rfl
  · by_cases hidx : idx = q.nextExpectedIdx
    · rw [hidx, Finmap.lookup_erase]
      exact ⟨fun he => (by cases he), fun he => absurd he.2 (Nat.not_succ_le_self _)⟩
    · rw [Finmap.lookup_erase_ne hidx, h.waiting]
      show _ ∧ q.nextExpectedIdx ≤ idx ↔ _ ∧ q.nextExpectedIdx + 1 ≤ idx
      exact and_congr_right fun _ => by omega

theorem returnPopped (overflowChecks : Bool) (h : q.Ok (yields ++ [element]) added) :
    ∃ q', q.returnPopped overflowChecks element = .ok q' ∧ q'.Ok yields added := by
  have hnext : q.nextExpectedIdx = yields.length + 1 + 1 := by
    rw [h.next, List.length_append]
    rfl
  have hsub : usizeSub overflowChecks q.nextExpectedIdx 1 = .ok (yields.length + 1) := by
    unfold usizeSub
    rw [if_pos (by omega), hnext]
    rfl
  have hmem : (yields.length + 1, element) ∈ added :=
    ((h.yielded yields.length element).mp (by simp)).1
  refine ⟨⟨yields.length + 1, q.elements.insert (yields.length + 1) element⟩, ?_, rfl,
    fun i element' => ?_, fun idx element' => ?_, h.once⟩
  · unfold SparseQueue.returnPopped
    rw [hsub]
    rfl
  · have hold := h.yielded i element'
    rw [hnext] at hold
    show _ ↔ _ ∧ i + 1 < yields.length + 1
    by_cases hi : i < yields.length
    · rw [List.getElem?_append_left hi] at hold
      exact hold.trans (and_congr_right fun _ => by omega)
    · rw [List.getElem?_eq_none (Nat.le_of_not_lt hi)]
      exact ⟨fun he => (by cases he), fun he => by omega⟩
  · show _ ↔ _ ∧ yields.length + 1 ≤ idx
    by_cases hidx : idx = yields.length + 1
    · subst hidx
      rw [Finmap.lookup_insert]
      refine ⟨fun he => ⟨Option.some.inj he ▸ hmem, Nat.le_refl _⟩, fun he => ?_⟩
      rw [h.unique he.1 hmem]
    · rw [Finmap.lookup_insert_of_ne _ hidx, h.waiting, hnext]
      exact and_congr_right fun _ => by omega

end SparseQueue.Ok

end Queues

/-! ## The invariant -/

/-- There are no more verify than commit operations, and no more withdraw than verify
operations. -/
def Ahead (yielded : List TxData) : Prop :=
  yielded.countP (·.opType = .Verify) ≤ yielded.countP (·.opType = .Commit) ∧
    yielded.countP (·.opType = .Withdraw) ≤ yielded.countP (·.opType = .Verify)

/-- The queue is what the history says. -/
structure TxQueueOk (max : Nat) (q : TxQueue) (h : QueueHistory) : Prop where
  limit : q.maxPendingTxs = max
  sent : q.sentPendingTxs = h.inFlight.length
  inFlight : h.inFlight.length ≤ max
  /-- Commit operations are yielded in the order of their blocks, and none is lost. -/
  commits : q.commitOperations.Ok (h.yieldedOf .Commit) h.commits
  /-- Verify operations are yielded block by block, and none is lost. -/
  verifies : q.verifyOperations.Ok (h.yieldedOf .Verify) h.verifies
  withdraws : q.withdrawOperations.Ok (h.yieldedOf .Withdraw) h.withdraws
  /-- At any time: no prefix of the yields is out of order. -/
  ahead : ∀ front, front <+: h.yielded → Ahead front
  types : (∀ tx ∈ h.commits, tx.opType = .Commit) ∧ (∀ e ∈ h.verifies, e.2.opType = .Verify) ∧
    ∀ tx ∈ h.withdraws, tx.opType = .Withdraw

section Yields

variable {h : QueueHistory} {yielded : List TxData} {tx : TxData} {opType : OperationType}

/-- Counting what was yielded of one kind. -/
theorem length_filter_opType (yielded : List TxData) (opType : OperationType) :
    (yielded.filter fun tx => tx.opType = opType).length = yielded.countP (·.opType = opType) :=
  List.countP_eq_length_filter.symm

/-- Among its own kind the yielded operation is the last one. -/
theorem filter_push_of_eq (h : tx.opType = opType) :
    (yielded ++ [tx]).filter (fun tx => tx.opType = opType) =
      yielded.filter (fun tx => tx.opType = opType) ++ [tx] := by
  rw [List.filter_append, List.filter_singleton, decide_eq_true h]
  rfl

/-- Another kind is not touched. -/
theorem filter_push_of_ne (h : tx.opType ≠ opType) :
    (yielded ++ [tx]).filter (fun tx => tx.opType = opType) =
      yielded.filter (fun tx => tx.opType = opType) := by
  rw [List.filter_append, List.filter_singleton, decide_eq_false h]
  exact List.append_nil _

/-- One more yield is in order if it is in order at the end. -/
theorem ahead_push (h : ∀ front, front <+: yielded → Ahead front) (htx : Ahead (yielded ++ [tx])) :
    ∀ front, front <+: yielded ++ [tx] → Ahead front := by
  intro front hfront
  rcases List.prefix_concat_iff.mp hfront with rfl | hfront
  · exact htx
  · exact h front hfront

/-- A statement about all beginnings only has to be proved for the whole. -/
theorem ahead_dropLast (h : ∀ front, front <+: yielded ++ [tx] → Ahead front) :
    ∀ front, front <+: yielded → Ahead front :=
  fun front hfront => h front (hfront.trans (List.prefix_append _ _))

end Yields

/-! ## Popping, read backwards -/

/-- What `popFront` yields. -/
inductive Yields (q : TxQueue) : TxData → TxQueue → Prop
  | verify {tx : TxData}
      (hlookup : q.verifyOperations.elements.lookup q.verifyOperations.nextExpectedIdx = some tx)
      (hahead : q.verifyOperations.nextExpectedIdx < q.commitOperations.counter + 1) :
      Yields q tx { q with
        verifyOperations := ⟨q.verifyOperations.nextExpectedIdx + 1,
          q.verifyOperations.elements.erase q.verifyOperations.nextExpectedIdx⟩
        sentPendingTxs := q.sentPendingTxs + 1 }
  | withdraw {tx : TxData} {rest : List TxData}
      (hfront : q.withdrawOperations.elements = tx :: rest)
      (hahead : q.withdrawOperations.counter + 1 < q.verifyOperations.nextExpectedIdx) :
      Yields q tx { q with
        withdrawOperations := ⟨rest, q.withdrawOperations.counter + 1⟩
        sentPendingTxs := q.sentPendingTxs + 1 }
  | commit {tx : TxData} {rest : List TxData} (hfront : q.commitOperations.elements = tx :: rest) :
      Yields q tx { q with
        commitOperations := ⟨rest, q.commitOperations.counter + 1⟩
        sentPendingTxs := q.sentPendingTxs + 1 }

/-- Verify operations of committed blocks go first, then withdrawals, then commits. -/
theorem getNextOperation_cases (q : TxQueue) :
    q.getNextOperation = (none, q) ∨ ∃ tx q', q.getNextOperation = (some tx, q') ∧
      Yields q tx { q' with sentPendingTxs := q.sentPendingTxs + 1 } := by
  unfold TxQueue.getNextOperation
  dsimp only
  split
  next hverify =>
    obtain ⟨hahead, hnext⟩ := hverify
    unfold SparseQueue.hasNext at hnext
    obtain ⟨tx, hlookup⟩ := Option.isSome_iff_exists.mp hnext
    unfold SparseQueue.popFront
    rw [hlookup]
    exact Or.inr ⟨tx, _, rfl, .verify hlookup hahead⟩
  next =>
    have hcommit : (q.commitOperations.popFront.1, { q with
          commitOperations := q.commitOperations.popFront.2 }) = (none, q) ∨
        ∃ tx q', (q.commitOperations.popFront.1, { q with
          commitOperations := q.commitOperations.popFront.2 }) = (some tx, q') ∧
          Yields q tx { q' with sentPendingTxs := q.sentPendingTxs + 1 } := by
      unfold CounterQueue.popFront
      cases hfront : q.commitOperations.elements with
      | nil => exact Or.inl rfl
      | cons tx rest => exact Or.inr ⟨tx, _, rfl, .commit hfront⟩
    by_cases hahead : q.withdrawOperations.counter + 1 < q.verifyOperations.nextExpectedIdx
    · rw [if_pos hahead]
      cases hfront : q.withdrawOperations.elements with
      | nil =>
        have hnone : q.withdrawOperations.popFront = (none, q.withdrawOperations) := by
          unfold CounterQueue.popFront
          rw [hfront]
        rw [hnone]
        exact hcommit
      | cons tx rest =>
        have hsome : q.withdrawOperations.popFront =
            (some tx, ⟨rest, q.withdrawOperations.counter + 1⟩) := by
          unfold CounterQueue.popFront
          rw [hfront]
        rw [hsome]
        exact Or.inr ⟨tx, _, rfl, .withdraw hfront hahead⟩
    · rw [if_neg hahead]
      exact hcommit

/-- Nothing is yielded at the limit, or from an empty queue. -/
theorem popFront_cases {q q' : TxQueue} {popped : Option TxData} (h : q.popFront = (popped, q')) :
    popped = none ∧ q' = q ∨
      ∃ tx, popped = some tx ∧ q.sentPendingTxs < q.maxPendingTxs ∧ Yields q tx q' := by
  unfold TxQueue.popFront at h
  split at h
  next =>
    cases h
    exact Or.inl ⟨rfl, rfl⟩
  next hroom =>
    rcases getNextOperation_cases q with hnone | ⟨tx, q₁, hsome, hyields⟩
    · rw [hnone] at h
      cases h
      exact Or.inl ⟨rfl, rfl⟩
    · rw [hsome] at h
      cases h
      have hsent : q₁.sentPendingTxs = q.sentPendingTxs := by
        have hnext : q.getNextOperation.2.sentPendingTxs = q.sentPendingTxs := by
          unfold TxQueue.getNextOperation
          dsimp only
          repeat' split
          all_goals rfl
        rwa [hsome] at hnext
      rw [← hsent] at hyields
      exact Or.inr ⟨tx, rfl, Nat.lt_of_not_le hroom, hyields⟩

/-! ## Steps -/

namespace TxQueueOk

variable {max : Nat} {q q' : TxQueue} {h : QueueHistory} {tx : TxData}

/-- An empty queue is in order. -/
theorem build (max : Nat) : TxQueueOk max (TxQueueBuilder.build { maxPendingTxs := max }) {} where
  limit := rfl
  sent := rfl
  inFlight := Nat.zero_le _
  commits := ⟨rfl, rfl⟩
  verifies := ⟨rfl, fun _ _ => ⟨fun h => (by cases h), fun h => absurd h.1 List.not_mem_nil⟩,
    fun _ _ => ⟨fun h => (by cases h), fun h => absurd h.1 List.not_mem_nil⟩, List.nodup_nil⟩
  withdraws := ⟨rfl, rfl⟩
  ahead := fun front hfront => by
    rw [List.prefix_nil.mp hfront]
    exact ⟨Nat.le_refl _, Nat.le_refl _⟩
  types := ⟨fun _ h => absurd h List.not_mem_nil, fun _ h => absurd h List.not_mem_nil,
    fun _ h => absurd h List.not_mem_nil⟩

/-- A commit that joins leaves it in order. -/
theorem addCommit (hq : TxQueueOk max q h) (htx : tx.opType = .Commit) :
    TxQueueOk max (q.addCommitOperation tx) (h.record (.addCommit tx, none)) :=
  { hq with
    commits := hq.commits.pushBack tx
    types := ⟨List.forall_mem_append.mpr ⟨hq.types.1, List.forall_mem_singleton.mpr htx⟩, hq.types.2⟩ }

/-- So does a withdrawal. -/
theorem addWithdraw (hq : TxQueueOk max q h) (htx : tx.opType = .Withdraw) :
    TxQueueOk max (q.addWithdrawOperation tx) (h.record (.addWithdraw tx, none)) :=
  { hq with
    withdraws := hq.withdraws.pushBack tx
    types := ⟨hq.types.1, hq.types.2.1,
      List.forall_mem_append.mpr ⟨hq.types.2.2, List.forall_mem_singleton.mpr htx⟩⟩ }

/-- So does a verify operation, at the number of its block. -/
theorem addVerify (hq : TxQueueOk max q h) {blockIdx : Nat}
    (hallows : h.Allows (.addVerify blockIdx tx)) :
    ∃ q', q.addVerifyOperation blockIdx tx = .ok q' ∧
      TxQueueOk max q' (h.record (.addVerify blockIdx tx, none)) := by
  obtain ⟨htx, hpos, -, hfresh⟩ := hallows
  obtain ⟨verifyOperations, hinsert, hverifies⟩ := hq.verifies.insert hpos hfresh tx
  refine ⟨{ q with verifyOperations }, ?_, { hq with verifies := hverifies, types := ?_ }⟩
  · unfold TxQueue.addVerifyOperation
    rw [hinsert]
    rfl
  · exact ⟨hq.types.1, List.forall_mem_append.mpr ⟨hq.types.2.1, List.forall_mem_singleton.mpr htx⟩,
      hq.types.2.2⟩

/-- The yields after one more, of each type. -/
theorem countP_push (yielded : List TxData) (tx : TxData) (opType : OperationType) :
    (yielded ++ [tx]).countP (·.opType = opType) =
      yielded.countP (·.opType = opType) + if tx.opType = opType then 1 else 0 := by
  rw [List.countP_append, List.countP_singleton]
  simp only [decide_eq_true_eq]

/-- The counters, read as numbers of yields. -/
theorem counts (hq : TxQueueOk max q h) :
    q.commitOperations.counter = h.yielded.countP (·.opType = .Commit) ∧
      q.verifyOperations.nextExpectedIdx = h.yielded.countP (·.opType = .Verify) + 1 ∧
      q.withdrawOperations.counter = h.yielded.countP (·.opType = .Withdraw) := by
  rw [hq.commits.counter, hq.verifies.next, hq.withdraws.counter]
  exact ⟨length_filter_opType _ _, congrArg (· + 1) (length_filter_opType _ _),
    length_filter_opType _ _⟩

/-- So does yielding the next one. -/
theorem pop (hq : TxQueueOk max q h) {popped : Option TxData} (hpop : q.popFront = (popped, q')) :
    TxQueueOk max q' (h.record (.pop, popped)) := by
  rcases popFront_cases hpop with ⟨rfl, rfl⟩ | ⟨tx, rfl, hroom, hyields⟩
  · have hsame : h.record (.pop, none) = h := by
      unfold QueueHistory.record
      simp only [Option.toList_none, List.append_nil]
    rw [hsame]
    exact hq
  obtain ⟨hcommitted, hnext, hwithdrawn⟩ := hq.counts
  have hlast := hq.ahead h.yielded (List.prefix_refl _)
  have hlength : (h.record (.pop, some tx)).inFlight.length = h.inFlight.length + 1 :=
    List.length_append
  have hsent : q.sentPendingTxs + 1 = (h.record (.pop, some tx)).inFlight.length := by
    rw [hlength, hq.sent]
  have hmax : (h.record (.pop, some tx)).inFlight.length ≤ max := by
    rw [hlength, ← hq.sent, ← hq.limit]
    exact hroom
  -- the yielded operation is the last of its kind, and the other kinds are as before
  have hyes : ∀ opType : OperationType, tx.opType = opType →
      (h.record (.pop, some tx)).yieldedOf opType = h.yieldedOf opType ++ [tx] :=
    fun _ => filter_push_of_eq
  have hno : ∀ opType : OperationType, tx.opType ≠ opType →
      (h.record (.pop, some tx)).yieldedOf opType = h.yieldedOf opType :=
    fun _ => filter_push_of_ne
  have hahead' : Ahead (h.yielded ++ [tx]) →
      ∀ front, front <+: (h.record (.pop, some tx)).yielded → Ahead front := ahead_push hq.ahead
  unfold Ahead at hlast
  cases hyields with
  | verify hlookup hahead =>
    -- the block was committed, so the verify operation may go
    have htype : tx.opType = .Verify := hq.types.2.1 _ ((hq.verifies.waiting _ _).mp hlookup).1
    refine ⟨hq.limit, hsent, hmax, ?_, ?_, ?_, hahead' ?_, hq.types⟩
    · exact hno .Commit (by rw [htype]; decide) ▸ hq.commits
    · exact hyes _ htype ▸ hq.verifies.popFront hlookup
    · exact hno .Withdraw (by rw [htype]; decide) ▸ hq.withdraws
    · unfold Ahead
      simp only [countP_push, htype, reduceCtorEq, if_true, if_false]
      omega
  | withdraw hfront hahead =>
    -- its block was verified
    have htype : tx.opType = .Withdraw := hq.types.2.2 _ (by
      rw [← hq.withdraws.rest, hfront]
      exact List.mem_append_right _ List.mem_cons_self)
    refine ⟨hq.limit, hsent, hmax, ?_, ?_, ?_, hahead' ?_, hq.types⟩
    · exact hno .Commit (by rw [htype]; decide) ▸ hq.commits
    · exact hno .Verify (by rw [htype]; decide) ▸ hq.verifies
    · exact hyes _ htype ▸ hq.withdraws.popFront hfront
    · unfold Ahead
      simp only [countP_push, htype, reduceCtorEq, if_true, if_false]
      omega
  | commit hfront =>
    have htype : tx.opType = .Commit := hq.types.1 _ (by
      rw [← hq.commits.rest, hfront]
      exact List.mem_append_right _ List.mem_cons_self)
    refine ⟨hq.limit, hsent, hmax, ?_, ?_, ?_, hahead' ?_, hq.types⟩
    · exact hyes _ htype ▸ hq.commits.popFront hfront
    · exact hno .Verify (by rw [htype]; decide) ▸ hq.verifies
    · exact hno .Withdraw (by rw [htype]; decide) ▸ hq.withdraws
    · unfold Ahead
      simp only [countP_push, htype, reduceCtorEq, if_true, if_false]
      omega

/-- What is in flight can be reported. -/
theorem report (hq : TxQueueOk max q h) (htx : tx ∈ h.inFlight) :
    ∃ q', q.reportCommitment = .ok q' ∧ TxQueueOk max q' (h.record (.report tx, none)) := by
  have hlength : (h.inFlight.erase tx).length = h.inFlight.length - 1 := List.length_erase_of_mem htx
  have hpos : 0 < q.sentPendingTxs := hq.sent ▸ List.length_pos_of_mem htx
  refine ⟨{ q with sentPendingTxs := q.sentPendingTxs - 1 }, ?_, { hq with sent := ?_, inFlight := ?_ }⟩
  · unfold TxQueue.reportCommitment
    rw [Outcome.assert_ok _ hpos]
    rfl
  · show q.sentPendingTxs - 1 = (h.inFlight.erase tx).length
    rw [hlength, hq.sent]
  · show (h.inFlight.erase tx).length ≤ max
    rw [hlength]
    exact Nat.le_trans (Nat.sub_le _ _) hq.inFlight

/-- The last yield can be returned. -/
theorem returnPopped (overflowChecks : Bool) (hq : TxQueueOk max q h) (hlast : h.yielded.getLast? = some tx)
    (htx : tx ∈ h.inFlight) : ∃ q', q.returnPopped overflowChecks tx = .ok q' ∧
      TxQueueOk max q' (h.record (.returnPopped tx, none)) := by
  have hlength : (h.record (.returnPopped tx, none)).inFlight.length = h.inFlight.length - 1 :=
    List.length_erase_of_mem htx
  have hpos : 0 < q.sentPendingTxs := hq.sent ▸ List.length_pos_of_mem htx
  have hsent : q.sentPendingTxs - 1 = (h.record (.returnPopped tx, none)).inFlight.length := by
    rw [hlength, hq.sent]
  have hmax : (h.record (.returnPopped tx, none)).inFlight.length ≤ max := by
    rw [hlength]
    exact Nat.le_trans (Nat.sub_le _ _) hq.inFlight
  have hyielded : h.yielded = (h.record (.returnPopped tx, none)).yielded ++ [tx] :=
    (List.dropLast_append_getLast? tx hlast).symm
  -- what is returned was the last one that was yielded
  have hyes : ∀ opType : OperationType, tx.opType = opType →
      h.yieldedOf opType = (h.record (.returnPopped tx, none)).yieldedOf opType ++ [tx] := by
    intro opType htype
    unfold QueueHistory.yieldedOf
    rw [hyielded]
    exact filter_push_of_eq htype
  have hno : ∀ opType : OperationType, tx.opType ≠ opType →
      h.yieldedOf opType = (h.record (.returnPopped tx, none)).yieldedOf opType := by
    intro opType htype
    unfold QueueHistory.yieldedOf
    rw [hyielded]
    exact filter_push_of_ne htype
  have hahead : ∀ front, front <+: (h.record (.returnPopped tx, none)).yielded → Ahead front :=
    ahead_dropLast (hyielded ▸ hq.ahead)
  have hassert : Outcome.assert (0 < q.sentPendingTxs)
      "No transactions are expected to be returned" = .ok () := Outcome.assert_ok _ hpos
  unfold TxQueue.returnPopped
  rw [hassert, Outcome.ok_bind]
  cases htype : tx.opType with
  | Commit =>
    obtain ⟨commitOperations, hreturn, hcommits⟩ :=
      (hyes _ htype ▸ hq.commits).returnPopped overflowChecks
    refine ⟨{ q with commitOperations, sentPendingTxs := q.sentPendingTxs - 1 }, ?_,
      hq.limit, hsent, hmax, hcommits, ?_, ?_, hahead, hq.types⟩
    · dsimp only
      rw [hreturn]
      rfl
    · exact hno .Verify (by rw [htype]; decide) ▸ hq.verifies
    · exact hno .Withdraw (by rw [htype]; decide) ▸ hq.withdraws
  | Verify =>
    -- its place is the number of its block, which nobody has taken meanwhile
    obtain ⟨verifyOperations, hreturn, hverifies⟩ :=
      (hyes _ htype ▸ hq.verifies).returnPopped overflowChecks
    refine ⟨{ q with verifyOperations, sentPendingTxs := q.sentPendingTxs - 1 }, ?_,
      hq.limit, hsent, hmax, ?_, hverifies, ?_, hahead, hq.types⟩
    · dsimp only
      rw [hreturn]
      rfl
    · exact hno .Commit (by rw [htype]; decide) ▸ hq.commits
    · exact hno .Withdraw (by rw [htype]; decide) ▸ hq.withdraws
  | Withdraw =>
    obtain ⟨withdrawOperations, hreturn, hwithdraws⟩ :=
      (hyes _ htype ▸ hq.withdraws).returnPopped overflowChecks
    refine ⟨{ q with withdrawOperations, sentPendingTxs := q.sentPendingTxs - 1 }, ?_,
      hq.limit, hsent, hmax, ?_, ?_, hwithdraws, hahead, hq.types⟩
    · dsimp only
      rw [hreturn]
      rfl
    · exact hno .Commit (by rw [htype]; decide) ▸ hq.commits
    · exact hno .Verify (by rw [htype]; decide) ▸ hq.verifies

/-- A call that is allowed does not panic, and keeps the discipline. -/
theorem answer (overflowChecks : Bool) (hq : TxQueueOk max q h) {call : QueueCall} (hallows : h.Allows call) :
    ∃ popped q', q.answer overflowChecks call = .ok (popped, q') ∧
      TxQueueOk max q' (h.record (call, popped)) := by
  cases call with
  | addCommit tx => exact ⟨none, _, rfl, hq.addCommit hallows⟩
  | addVerify blockIdx tx =>
    obtain ⟨q', hadd, hq'⟩ := hq.addVerify hallows
    refine ⟨none, q', ?_, hq'⟩
    unfold TxQueue.answer
    dsimp only
    rw [hadd]
    rfl
  | addWithdraw tx => exact ⟨none, _, rfl, hq.addWithdraw hallows⟩
  | pop => exact ⟨q.popFront.1, q.popFront.2, rfl, hq.pop rfl⟩
  | returnPopped tx =>
    obtain ⟨q', hreturn, hq'⟩ := hq.returnPopped overflowChecks hallows.1 hallows.2
    refine ⟨none, q', ?_, hq'⟩
    unfold TxQueue.answer
    dsimp only
    rw [hreturn]
    rfl
  | report tx =>
    obtain ⟨q', hreport, hq'⟩ := hq.report hallows
    refine ⟨none, q', ?_, hq'⟩
    unfold TxQueue.answer
    dsimp only
    rw [hreport]
    rfl

/-- So does every call. -/
theorem step {overflowChecks : Bool} {x x' : TxQueue × QueueHistory} {e : QueueCall × Option TxData}
    (hq : TxQueueOk max x.1 x.2) (hstep : TxQueueStep overflowChecks x e x') :
    TxQueueOk max x'.1 x'.2 := by
  obtain ⟨call, popped⟩ := e
  obtain ⟨hallows, hanswer, hrecord⟩ := hstep
  obtain ⟨popped', q', hanswer', hq'⟩ := hq.answer overflowChecks hallows
  obtain ⟨rfl, rfl⟩ := Prod.mk.inj (Except.ok.inj (hanswer'.symm.trans hanswer))
  rw [hrecord]
  exact hq'

end TxQueueOk

/-! ## Runs -/

/-- In every run the queue keeps its discipline, and no call that is allowed panics. -/
theorem queue_disciplined {overflowChecks : Bool} {max : Nat} {tr : List (QueueCall × Option TxData)}
    {q : TxQueue} {h : QueueHistory} (hrun : Run (TxQueueStep overflowChecks)
      (TxQueueBuilder.build { maxPendingTxs := max }, {}) tr (q, h)) :
    TxQueueOk max q h ∧
      ∀ call, h.Allows call → ∃ popped q', q.answer overflowChecks call = .ok (popped, q') := by
  have hq : TxQueueOk max q h := hrun.invariant (I := fun x => TxQueueOk max x.1 x.2)
    (fun _ _ _ hq hstep => hq.step hstep) (.build max)
  refine ⟨hq, fun call hallows => ?_⟩
  obtain ⟨popped, q', hanswer, -⟩ := hq.answer overflowChecks hallows
  exact ⟨popped, q', hanswer⟩

def sampleCommit : TxData := .fromRaw .Commit [0, 0]

def sampleVerify : TxData := .fromRaw .Verify [1, 0]

def sampleWithdrawal : TxData := .fromRaw .Withdraw [2, 0]

/-- A commit operation is popped, then the verify operation of its block, which is
returned once, then a withdraw operation; the fourth pop meets the limit. -/
theorem queue_disciplined_sample : ∃ tr q h, Run (TxQueueStep true)
      (TxQueueBuilder.build { maxPendingTxs := 3 }, {}) tr (q, h) ∧
    tr = [(.addWithdraw sampleWithdrawal, none), (.addCommit sampleCommit, none),
      (.addVerify 1 sampleVerify, none), (.addCommit sampleCommit, none),
      (.pop, some sampleCommit), (.pop, some sampleVerify), (.returnPopped sampleVerify, none),
      (.pop, some sampleVerify), (.pop, some sampleWithdrawal), (.pop, none),
      (.report sampleCommit, none), (.pop, some sampleCommit)] ∧ TxQueueOk 3 q h := by
  obtain ⟨⟨tr, q, h⟩, hplay, htr⟩ := Option.map_eq_some_iff.mp (show (playQueue true
      (TxQueueBuilder.build { maxPendingTxs := 3 }, {})
      [.addWithdraw sampleWithdrawal, .addCommit sampleCommit, .addVerify 1 sampleVerify,
        .addCommit sampleCommit, .pop, .pop, .returnPopped sampleVerify, .pop, .pop, .pop,
        .report sampleCommit, .pop]).map Prod.fst = some _ from rfl)
  have hrun := run_of_playQueue hplay
  exact ⟨tr, q, h, hrun, htr, (queue_disciplined hrun).1⟩

end ZkSync
