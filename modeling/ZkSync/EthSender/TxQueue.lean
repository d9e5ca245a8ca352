import Mathlib.Data.Finmap
import ZkSync.Lib.MachineInt
import ZkSync.Types.Block

/-!
# The queue of the Ethereum sender

`zksync_eth_sender::tx_queue`: commit, verify and withdraw operations wait in three
queues of their own, and `popFront` chooses the next one to send. The queues are
coupled only through their counters: a verify operation waits until its block was
committed, and a withdraw operation until there are more verified blocks than
withdraw operations. At most `maxPendingTxs` operations are in flight.

The log is not modelled.
-/

namespace ZkSync

/-! ## Operations -/

/-- A proof, as the contract takes it. -/
structure EncodedProofPlonk where
  inputs : List Nat
  proof : List Nat
  deriving DecidableEq

/-- What is done to a block on Ethereum. -/
inductive Action where
  | Commit
  | Verify (proof : EncodedProofPlonk)
  deriving DecidableEq

/-- `zksync_types::Operation`. -/
structure Operation where
  id : Option Int
  action : Action
  block : Block
  deriving DecidableEq

/-- The kinds of transactions that the sender knows. -/
inductive OperationType where
  | Commit
  | Verify
  | Withdraw
  deriving DecidableEq

/-- A transaction that waits, with the operation it is for. -/
structure TxData where
  opType : OperationType
  /-- Not signed. -/
  raw : List UInt8
  operation : Option Operation
  deriving DecidableEq

namespace TxData

/-- A transaction for an operation of the server. -/
def fromOperation (opType : OperationType) (operation : Operation) (raw : List UInt8) : TxData where
  opType := opType
  raw := raw
  operation := some operation

/-- A transaction without one, such as a call for withdrawals. -/
def fromRaw (opType : OperationType) (raw : List UInt8) : TxData where
  opType := opType
  raw := raw
  operation := none

/-- The number of the block; a call for withdrawals has none. -/
def block (tx : TxData) : Outcome BlockNumber := do
  let operation ← Outcome.expect tx.operation "called `Option::unwrap()` on a `None` value"
  return operation.block.blockNumber

end TxData

/-! ## The queues -/

/-- A queue that counts the elements it has yielded. -/
structure CounterQueue (α : Type) where
  elements : List α
  counter : Nat

namespace CounterQueue

variable {α : Type} (q : CounterQueue α)

def new (counter : Nat) : CounterQueue α := ⟨[], counter⟩

def returnPopped (overflowChecks : Bool) (element : α) : Outcome (CounterQueue α) := do
  let counter ← usizeSub overflowChecks q.counter 1
  return ⟨element :: q.elements, counter⟩

/-- Elements leave the queue in the order in which they came. -/
def pushBack (element : α) : CounterQueue α := ⟨q.elements ++ [element], q.counter⟩

def popFront : Option α × CounterQueue α :=
  match q.elements with
  | element :: elements => (some element, ⟨elements, q.counter + 1⟩)
  | [] => (none, q)

end CounterQueue

/-- A queue whose elements come with their index; it yields none before the gap in
front of it is filled. -/
structure SparseQueue (α : Type) where
  nextExpectedIdx : Nat
  elements : Finmap fun _ : Nat => α

namespace SparseQueue

variable {α : Type} (q : SparseQueue α)

def new (nextExpectedIdx : Nat) : SparseQueue α := ⟨nextExpectedIdx, ∅⟩

def returnPopped (overflowChecks : Bool) (element : α) : Outcome (SparseQueue α) := do
  let poppedIndex ← usizeSub overflowChecks q.nextExpectedIdx 1
  return ⟨poppedIndex, q.elements.insert poppedIndex element⟩

/-- Elements of the sparse queue have a number, and wait for their turn. -/
def insert (idx : Nat) (element : α) : Outcome (SparseQueue α) := do
  Outcome.assert (q.nextExpectedIdx ≤ idx)
    "Can't insert the element with index lower than the next expected one"
  return { q with elements := q.elements.insert idx element }

def popFront : Option α × SparseQueue α :=
  match q.elements.lookup q.nextExpectedIdx with
  | some value => (some value, ⟨q.nextExpectedIdx + 1, q.elements.erase q.nextExpectedIdx⟩)
  | none => (none, q)

/-- The element whose turn it is has come. -/
def hasNext : Bool := (q.elements.lookup q.nextExpectedIdx).isSome

end SparseQueue

/-- Three queues, and how many transactions are on their way. -/
structure TxQueue where
  maxPendingTxs : Nat
  sentPendingTxs : Nat
  commitOperations : CounterQueue TxData
  verifyOperations : SparseQueue TxData
  withdrawOperations : CounterQueue TxData

/-- The settings that a queue is built with. -/
structure TxQueueBuilder where
  maxPendingTxs : Nat
  sentPendingTxs : Nat := 0
  commitOperationsCount : Nat := 0
  verifyOperationsCount : Nat := 0
  withdrawOperationsCount : Nat := 0

/-- Block numbers are indexed starting from 1. -/
def TxQueueBuilder.build (b : TxQueueBuilder) : TxQueue where
  maxPendingTxs := b.maxPendingTxs
  sentPendingTxs := b.sentPendingTxs
  commitOperations := .new b.commitOperationsCount
  verifyOperations := .new (b.verifyOperationsCount + 1)
  withdrawOperations := .new b.withdrawOperationsCount

namespace TxQueue

variable (q : TxQueue)

/-- Panics if an element before the block has no operation. -/
def commitOperationExists (blockIdx : BlockNumber) : Outcome Bool :=
  anyBlock q.commitOperations.elements
where
  anyBlock : List TxData → Outcome Bool
    | [] => .ok false
    | item :: items => do
      let block ← item.block
      if block = blockIdx then return true else anyBlock items

/-- Whether a verify operation waits at this number. -/
def verifyOperationExists (blockIdx : BlockNumber) : Bool :=
  (q.verifyOperations.elements.lookup blockIdx.toNat).isSome

/-- Commits leave in the order in which they came. -/
def addCommitOperation (commitOperation : TxData) : TxQueue :=
  { q with commitOperations := q.commitOperations.pushBack commitOperation }

/-- Verify operations leave in the order of their blocks. -/
def addVerifyOperation (blockIdx : Nat) (verifyOperation : TxData) : Outcome TxQueue := do
  let verifyOperations ← q.verifyOperations.insert blockIdx verifyOperation
  return { q with verifyOperations }

/-- Withdrawals wait for the verify operations before them. -/
def addWithdrawOperation (withdrawOperation : TxData) : TxQueue :=
  { q with withdrawOperations := q.withdrawOperations.pushBack withdrawOperation }

/-- Returns a previously popped element to the front of its queue. -/
def returnPopped (overflowChecks : Bool) (element : TxData) : Outcome TxQueue := do
  Outcome.assert (0 < q.sentPendingTxs) "No transactions are expected to be returned"
  let sentPendingTxs := q.sentPendingTxs - 1
  match element.opType with
  | .Commit =>
    let commitOperations ← q.commitOperations.returnPopped overflowChecks element
    return { q with commitOperations, sentPendingTxs }
  | .Verify =>
    let verifyOperations ← q.verifyOperations.returnPopped overflowChecks element
    return { q with verifyOperations, sentPendingTxs }
  | .Withdraw =>
    let withdrawOperations ← q.withdrawOperations.returnPopped overflowChecks element
    return { q with withdrawOperations, sentPendingTxs }

/-- Verify operations come first, then withdraw operations, then commit operations. -/
def getNextOperation : Option TxData × TxQueue :=
  let nextVerifyOpId := q.verifyOperations.nextExpectedIdx
  let nextCommitOpId := q.commitOperations.counter + 1
  if nextVerifyOpId < nextCommitOpId ∧ q.verifyOperations.hasNext then
    let (op, verifyOperations) := q.verifyOperations.popFront
    (op, { q with verifyOperations })
  else
    let nextWithdrawOpId := q.withdrawOperations.counter + 1
    match (if nextWithdrawOpId < nextVerifyOpId then q.withdrawOperations.popFront
      else (none, q.withdrawOperations)) with
    | (some withdrawOperation, withdrawOperations) =>
      (some withdrawOperation, { q with withdrawOperations })
    | (none, _) =>
      let (op, commitOperations) := q.commitOperations.popFront
      (op, { q with commitOperations })

def popFront : Option TxData × TxQueue :=
  if q.maxPendingTxs ≤ q.sentPendingTxs then (none, q)
  else
    match q.getNextOperation with
    | (some op, q) => (some op, { q with sentPendingTxs := q.sentPendingTxs + 1 })
    | (none, q) => (none, q)

/-- A transaction was confirmed. -/
def reportCommitment : Outcome TxQueue := do
  Outcome.assert (0 < q.sentPendingTxs) "No transactions are expected to be confirmed"
  return { q with sentPendingTxs := q.sentPendingTxs - 1 }

end TxQueue

end ZkSync
