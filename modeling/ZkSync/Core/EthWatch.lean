import ZkSync.Lib.FinMap
import ZkSync.Lib.Run
import ZkSync.Types.Block

/-!
# The Ethereum watcher

`zksync_core::eth_watch`: the watcher reads the `NewPriorityRequest` events of
the contract, block range by block range, and keeps those with enough
confirmations in a queue for the state keeper.

Two functions compute ranges. `process_new_blocks` reads, for a new chain head
`h` after `last`, the blocks `last + 1 - c ..= h - c`: the ranges of successive
heads tile the chain. `restore_state_from_eth`, which fills the queue at a start
at block `b`, subtracts the confirmations twice and stops at `b - 2c`, although
it records `b` as the last block seen. The blocks `b - 2c + 1 ..= b - c` belong to
no range, at the start or later, and an event in them never reaches the queue
(`watcher_complete_iff`).

The contract's events are one list, in the order of the chain, and the web3
client answers a query with its events in the range. Block numbers are natural
numbers: `saturating_sub` is their subtraction. The `PendingWithdrawalsComplete`
events, which the watcher writes to the database along the way, are left out.
-/

namespace ZkSync

/-- `params::PRIORITY_EXPIRATION`, in Ethereum blocks. -/
def priorityExpiration : Nat := 35000

/-- `PRIORITY_OP_EXPIRATION`: six days and two hours, in seconds. -/
def priorityOpExpiration : Nat := 6 * 24 * 3600 + 2 * 3600

/-- The block of the event. -/
def PriorityOp.block (op : PriorityOp) : Nat := op.ethBlock.toNat

/-! ## The events of the contract -/

/-- The `NewPriorityRequest` events of a chain: the contract numbers them with a
counter, so the serial ids are consecutive in the order of the blocks. -/
structure EthEvents where
  ops : List PriorityOp
  first : Nat
  serialIds : ∀ i (h : i < ops.length), ops[i].serialId.toNat = first + i
  blocks : ops.Pairwise fun op op' => op.block ≤ op'.block

namespace EthEvents

/-- `eth().logs` of the filter `get_priority_op_event_filter(from, to)`. -/
def logs (chain : EthEvents) (blockFrom blockTo : Nat) : List PriorityOp :=
  chain.ops.filter fun op => decide (blockFrom ≤ op.block ∧ op.block ≤ blockTo)

/-- A filter returns the events of its blocks, the last one included. -/
theorem mem_logs {chain : EthEvents} {blockFrom blockTo : Nat} {op : PriorityOp} :
    op ∈ chain.logs blockFrom blockTo ↔
      op ∈ chain.ops ∧ blockFrom ≤ op.block ∧ op.block ≤ blockTo := by
  rw [logs, List.mem_filter, decide_eq_true_iff]

/-- A serial id belongs to one event. -/
theorem eq_of_serialId {chain : EthEvents} {op op' : PriorityOp} (h : op ∈ chain.ops)
    (h' : op' ∈ chain.ops) (hid : op.serialId = op'.serialId) : op = op' := by
  obtain ⟨i, hi, rfl⟩ := List.getElem_of_mem h
  obtain ⟨j, hj, rfl⟩ := List.getElem_of_mem h'
  have hij : chain.first + i = chain.first + j := by
    rw [← chain.serialIds i hi, ← chain.serialIds j hj, hid]
  obtain rfl : i = j := Nat.add_left_cancel hij
  rfl

end EthEvents

/-! ## The state of the watcher -/

/-- An operation, with the time at which the watcher saw it. -/
structure ReceivedPriorityOp where
  op : PriorityOp
  receivedAt : Nat
  deriving DecidableEq

/-- An operation is dropped some days after it was seen. -/
def ReceivedPriorityOp.isOutdated (now : Nat) (received : ReceivedPriorityOp) : Bool :=
  decide (priorityOpExpiration ≤ now - received.receivedAt)

/-- The confirmed operations, by their serial ids. -/
abbrev PriorityQueue := Finmap fun _ : UInt64 => ReceivedPriorityOp

/-- What is outdated is dropped. -/
def siftOutdatedOps (now : Nat) (ops : PriorityQueue) : PriorityQueue :=
  ops.filter fun _ op => !op.isOutdated now

/-- What the watcher knows of the contract. -/
structure ETHState where
  /-- The last block of the Ethereum network known to the watcher. -/
  lastEthereumBlock : Nat
  unconfirmedQueue : List (Nat × PriorityOp)
  priorityQueue : PriorityQueue

/-- The loop that inserts the events of a range by their serial ids. -/
def insertPriorityOps (now : Nat) (events : List PriorityOp) (queue : PriorityQueue) :
    PriorityQueue :=
  events.foldl (fun queue op => queue.insert op.serialId ⟨op, now⟩) queue

/-- The clock and the chain as the watcher finds them. -/
structure Poll where
  head : Nat
  /-- The last block the client knows when it is asked for the latest events. -/
  latest : Nat
  now : Nat

section Watcher

variable (chain : EthEvents) (confirmations : Nat)

/-- The events of the last blocks, which may still be reverted. -/
def getUnconfirmedOps (latest currentEthereumBlock : Nat) :
    List (Nat × PriorityOp) :=
  let blockFrom := currentEthereumBlock - confirmations + 1
  (chain.logs blockFrom latest).map fun op => (op.block, op)

/-- At its start the watcher reads the blocks of some days. -/
def restoreStateFromEth (poll : Poll) : ETHState :=
  let currentEthereumBlock := poll.head - confirmations
  -- The confirmations are subtracted a second time here.
  let newBlockWithAcceptedEvents := currentEthereumBlock - confirmations
  let previousBlockWithAcceptedEvents := newBlockWithAcceptedEvents - priorityExpiration
  let unconfirmedQueue := getUnconfirmedOps chain confirmations poll.latest currentEthereumBlock
  let events := chain.logs previousBlockWithAcceptedEvents newBlockWithAcceptedEvents
  { lastEthereumBlock := poll.head
    unconfirmedQueue
    priorityQueue := insertPriorityOps poll.now events ∅ }

/-- It reads the blocks that were confirmed since the last poll. -/
def ETHState.processNewBlocks (s : ETHState) (poll : Poll) : ETHState :=
  let previousBlockWithAcceptedEvents := s.lastEthereumBlock + 1 - confirmations
  let newBlockWithAcceptedEvents := poll.head - confirmations
  let events := chain.logs previousBlockWithAcceptedEvents newBlockWithAcceptedEvents
  { lastEthereumBlock := poll.head
    unconfirmedQueue := getUnconfirmedOps chain confirmations poll.latest poll.head
    priorityQueue := insertPriorityOps poll.now events (siftOutdatedOps poll.now s.priorityQueue) }

/-- Without a new block there is nothing to read. -/
def ETHState.pollEthNode (s : ETHState) (poll : Poll) : ETHState :=
  if s.lastEthereumBlock < poll.head then s.processNewBlocks chain confirmations poll else s

/-- One request of `PollETHNode`. An error of the client or of the database, and
the backoff after one, leave the state as it was: it is replaced at the end. -/
inductive PollStep : ETHState → Poll → ETHState → Prop
  | polled (s : ETHState) (poll : Poll) : PollStep s poll (s.pollEthNode chain confirmations poll)
  | failed (s : ETHState) (poll : Poll) : PollStep s poll s

end Watcher

/-- The loop of `get_priority_requests`. -/
def collectPriorityRequests (queue : PriorityQueue) (maxChunks usedChunks : Nat)
    (currentPriorityOp : UInt64) : List PriorityOp :=
  match queue.lookup currentPriorityOp with
  | none => []
  | some op =>
    if usedChunks + op.op.data.chunks ≤ maxChunks then
      op.op :: collectPriorityRequests queue maxChunks (usedChunks + op.op.data.chunks)
        (currentPriorityOp + 1)
    else []
  termination_by maxChunks - usedChunks
  decreasing_by
    have : 0 < op.op.data.chunks := by cases op.op.data <;> exact Nat.succ_pos _
    omega

/-- The operations from an id on, as far as they fit and none is missing. -/
def ETHState.getPriorityRequests (s : ETHState) (firstSerialId : UInt64) (maxChunks : Nat) :
    List PriorityOp :=
  collectPriorityRequests s.priorityQueue maxChunks 0 firstSerialId

/-- The room that some operations take. -/
def chunksOfRequests (ops : List PriorityOp) : Nat := (ops.map fun op => op.data.chunks).sum

/-! ## What a queue holds -/

/-- The queue holds the events with the property `P`, each at its serial id. -/
def PriorityQueue.Holds (chain : EthEvents) (P : PriorityOp → Prop) (queue : PriorityQueue) :
    Prop :=
  ∀ id op, (∃ received ∈ queue.lookup id, received.op = op) ↔
    op ∈ chain.ops ∧ op.serialId = id ∧ P op

section Holds

variable {chain : EthEvents} {P Q : PriorityOp → Prop} {queue : PriorityQueue}

/-- The empty queue holds nothing. -/
theorem holds_empty : PriorityQueue.Holds chain (fun _ => False) ∅ := by
  intro id op
  rw [Finmap.lookup_empty]
  exact ⟨fun ⟨_, h, _⟩ => (by cases h), fun h => h.2.2.elim⟩

theorem PriorityQueue.Holds.congr (h : queue.Holds chain P)
    (hPQ : ∀ op ∈ chain.ops, (P op ↔ Q op)) : queue.Holds chain Q := by
  intro id op
  rw [h id op]
  constructor
  · rintro ⟨hop, hid, hP⟩
    exact ⟨hop, hid, (hPQ op hop).mp hP⟩
  · rintro ⟨hop, hid, hQ⟩
    exact ⟨hop, hid, (hPQ op hop).mpr hQ⟩

/-- One operation more is held. -/
theorem PriorityQueue.Holds.insert (h : queue.Holds chain P) {op : PriorityOp}
    (hop : op ∈ chain.ops) (now : Nat) :
    PriorityQueue.Holds chain (fun op' => P op' ∨ op' = op)
      (Finmap.insert op.serialId ⟨op, now⟩ queue) := by
  intro id op'
  rw [Finmap.lookup_insert_if]
  split
  next hid =>
    constructor
    · rintro ⟨received, hreceived, rfl⟩
      obtain rfl := Option.mem_some_iff.mp hreceived
      exact ⟨hop, hid.symm, .inr rfl⟩
    · rintro ⟨hop', hid', -⟩
      -- The serial id determines the event, so nothing else is overwritten.
      have heq : op = op' := EthEvents.eq_of_serialId hop hop' (hid.symm.trans hid'.symm)
      exact ⟨_, rfl, heq⟩
  next hid =>
    rw [h id op']
    constructor
    · rintro ⟨hop', hid', hP⟩
      exact ⟨hop', hid', .inl hP⟩
    · rintro ⟨hop', hid', hP | rfl⟩
      · exact ⟨hop', hid', hP⟩
      · exact absurd hid'.symm hid

/-- The events of a poll are held behind it. -/
theorem PriorityQueue.Holds.insertPriorityOps (h : queue.Holds chain P) (now : Nat)
    {events : List PriorityOp} (hevents : events ⊆ chain.ops) :
    PriorityQueue.Holds chain (fun op => P op ∨ op ∈ events)
      (insertPriorityOps now events queue) := by
  induction events generalizing P queue with
  | nil => exact h.congr fun op _ => (or_iff_left List.not_mem_nil).symm
  | cons op events ih =>
    have hop : op ∈ chain.ops := hevents List.mem_cons_self
    have hrest : events ⊆ chain.ops := fun op' h' => hevents (List.mem_cons_of_mem op h')
    refine (ih (h.insert hop now) hrest).congr fun op' _ => ?_
    rw [List.mem_cons, or_assoc]

/-- A range of blocks adds its events. -/
theorem PriorityQueue.Holds.logs (h : queue.Holds chain P) (now : Nat)
    (blockFrom blockTo : Nat) :
    PriorityQueue.Holds chain (fun op => P op ∨ blockFrom ≤ op.block ∧ op.block ≤ blockTo)
      (ZkSync.insertPriorityOps now (chain.logs blockFrom blockTo) queue) := by
  have hsub : chain.logs blockFrom blockTo ⊆ chain.ops := fun op hop =>
    (EthEvents.mem_logs.mp hop).1
  refine (h.insertPriorityOps now hsub).congr fun op hop => ?_
  rw [EthEvents.mem_logs, and_iff_right hop]

/-- No operation of the queue has reached the expiration age. -/
def PriorityQueue.Fresh (queue : PriorityQueue) (now : Nat) : Prop :=
  ∀ id, ∀ received ∈ queue.lookup id, received.isOutdated now = false

/-- Nothing is dropped while all is fresh. -/
theorem PriorityQueue.Fresh.sift {now : Nat} (h : queue.Fresh now) :
    siftOutdatedOps now queue = queue := by
  refine Finmap.ext_lookup fun id => ?_
  rw [siftOutdatedOps, Finmap.lookup_filter]
  cases hl : queue.lookup id with
  | none => rfl
  | some received =>
    rw [Option.filter_some, h id received hl]
    rfl

end Holds

/-! ## What the requests of the keeper see -/

/-- The requests stop at the first operation that is absent or does not fit. -/
theorem collectPriorityRequests_stop {queue : PriorityQueue} {maxChunks usedChunks : Nat}
    {currentPriorityOp id : UInt64} {received : ReceivedPriorityOp}
    (hid : id = currentPriorityOp + UInt64.ofNat
      (collectPriorityRequests queue maxChunks usedChunks currentPriorityOp).length)
    (h : received ∈ queue.lookup id) :
    maxChunks < usedChunks + chunksOfRequests
      (collectPriorityRequests queue maxChunks usedChunks currentPriorityOp) +
        received.op.data.chunks := by
  fun_induction collectPriorityRequests queue maxChunks usedChunks currentPriorityOp with
  | case1 usedChunks current habsent =>
    obtain rfl : id = current := hid.trans (UInt64.add_zero current)
    rw [habsent] at h
    cases h
  | case2 usedChunks current op hop hfits ih =>
    have hid' : id = current + 1 + UInt64.ofNat (collectPriorityRequests queue maxChunks
        (usedChunks + op.op.data.chunks) (current + 1)).length := by
      rw [hid, List.length_cons, UInt64.ofNat_add, UInt64.add_assoc, UInt64.add_comm 1]
      rfl
    have hrest := ih hid'
    rw [chunksOfRequests, List.map_cons, List.sum_cons, ← Nat.add_assoc]
    exact hrest
  | case3 usedChunks current op hop hfull =>
    obtain rfl : id = current := hid.trans (UInt64.add_zero current)
    obtain rfl : op = received := Option.some.inj (hop.symm.trans h)
    exact Nat.lt_of_not_le hfull

/-! ## Runs of the watcher -/

section Runs

variable {chain : EthEvents} {confirmations : Nat}

/-- The oldest block that a restore at block `restart` reads. -/
def restoreStart (confirmations : Nat) (restart : Nat) : Nat :=
  restart - confirmations - confirmations - priorityExpiration

/-- The blocks a watcher has read that was restored at block `restart` and has
processed the head `head`: two intervals, which need not touch. -/
def BlockRead (confirmations : Nat) (restart head n : Nat) : Prop :=
  (restoreStart confirmations restart ≤ n ∧ n ≤ restart - confirmations - confirmations) ∨
    (restart < head ∧ restart + 1 - confirmations ≤ n ∧ n ≤ head - confirmations)

/-- The queue of a watcher that has dropped nothing: the events of the blocks it
has read. -/
structure Tracks (chain : EthEvents) (confirmations : Nat) (restart : Nat) (s : ETHState) :
    Prop where
  restarted : restart ≤ s.lastEthereumBlock
  holds : s.priorityQueue.Holds chain fun op =>
    BlockRead confirmations restart s.lastEthereumBlock op.block

/-- A watcher that was just restored holds the confirmed events of its range. -/
theorem tracks_restore (poll : Poll) :
    Tracks chain confirmations poll.head (restoreStateFromEth chain confirmations poll) := by
  refine ⟨Nat.le_refl _, ?_⟩
  refine (holds_empty.logs poll.now _ _).congr fun op _ => ?_
  show False ∨ _ ↔ BlockRead confirmations poll.head poll.head op.block
  rw [BlockRead, false_or, restoreStart]
  constructor
  · exact Or.inl
  · rintro (h | ⟨h, -⟩)
    · exact h
    · exact absurd h (Nat.lt_irrefl _)

/-- The ranges of two heads in a row tile the chain. -/
theorem blockRead_processed {restart last head : Nat} (hlast : restart ≤ last)
    (hhead : last < head) (n : Nat) :
    BlockRead confirmations restart last n ∨
        (last + 1 - confirmations ≤ n ∧ n ≤ head - confirmations) ↔
      BlockRead confirmations restart head n := by
  unfold BlockRead
  constructor
  · rintro ((h | ⟨-, h⟩) | h)
    · exact .inl h
    · exact .inr ⟨by omega, by omega, by omega⟩
    · exact .inr ⟨by omega, by omega, by omega⟩
  · rintro (h | ⟨-, hfrom, hto⟩)
    · exact .inl (.inl h)
    · by_cases hn : restart < last ∧ n ≤ last - confirmations
      · exact .inl (.inr ⟨hn.1, hfrom, hn.2⟩)
      · exact .inr ⟨by omega, hto⟩

/-- A poll adds the events of the blocks that it reads. -/
theorem Tracks.processNewBlocks {restart : Nat} {s : ETHState} {poll : Poll}
    (h : Tracks chain confirmations restart s) (hfresh : s.priorityQueue.Fresh poll.now)
    (hhead : s.lastEthereumBlock < poll.head) :
    Tracks chain confirmations restart (s.processNewBlocks chain confirmations poll) := by
  refine ⟨h.restarted.trans hhead.le, ?_⟩
  unfold ETHState.processNewBlocks
  rw [hfresh.sift]
  exact (h.holds.logs poll.now _ _).congr fun op _ =>
    blockRead_processed h.restarted hhead op.block

/-- A poll that finds no operation of the queue outdated. -/
def FreshPoll (chain : EthEvents) (confirmations : Nat) (s : ETHState) (poll : Poll)
    (s' : ETHState) : Prop :=
  s.priorityQueue.Fresh poll.now ∧ PollStep chain confirmations s poll s'

/-- Whatever the node answers, what is held is what was read. -/
theorem Tracks.step {restart : Nat} {s s' : ETHState} {poll : Poll}
    (h : Tracks chain confirmations restart s) (hstep : FreshPoll chain confirmations s poll s') :
    Tracks chain confirmations restart s' := by
  obtain ⟨hfresh, hstep⟩ := hstep
  cases hstep with
  | failed => exact h
  | polled =>
    unfold ETHState.pollEthNode
    split
    next hhead => exact h.processNewBlocks hfresh hhead
    next => exact h

/-- Nothing is skipped: every event with enough confirmations, from the block
`oldest` on, is in the queue once, at its serial id, and the requests of the keeper
never stop at one because it is missing. -/
structure ETHState.Complete (chain : EthEvents) (confirmations : Nat) (oldest : Nat)
    (s : ETHState) : Prop where
  once : ∀ op ∈ chain.ops, oldest ≤ op.block → op.block ≤ s.lastEthereumBlock - confirmations →
    ∀ id, (∃ received ∈ s.priorityQueue.lookup id, received.op = op) ↔ id = op.serialId
  requests : ∀ (firstSerialId : UInt64) (maxChunks : Nat), ∀ op ∈ chain.ops, oldest ≤ op.block →
    op.block ≤ s.lastEthereumBlock - confirmations →
    op.serialId = firstSerialId +
      UInt64.ofNat (s.getPriorityRequests firstSerialId maxChunks).length →
    maxChunks < chunksOfRequests (s.getPriorityRequests firstSerialId maxChunks) + op.data.chunks

/-- The events a restore leaves between its own range and that of the next head. -/
def EthEvents.Gap (chain : EthEvents) (confirmations : Nat) (restart : Nat)
    (op : PriorityOp) : Prop :=
  op ∈ chain.ops ∧ restart - confirmations - confirmations < op.block ∧
    op.block ≤ restart - confirmations

/-- The queue is complete unless an event lies in a gap between two ranges. -/
theorem Tracks.complete_iff {restart : Nat} {s : ETHState}
    (h : Tracks chain confirmations restart s) (hnew : restart < s.lastEthereumBlock) :
    s.Complete chain confirmations (restoreStart confirmations restart) ↔
      ∀ op, ¬ chain.Gap confirmations restart op := by
  constructor
  · rintro hcomplete op ⟨hop, hafter, hbefore⟩
    have hfrom : restoreStart confirmations restart ≤ op.block := by
      unfold restoreStart
      omega
    have hqueue := (hcomplete.once op hop hfrom (by omega) op.serialId).mpr rfl
    obtain ⟨-, -, hread⟩ := (h.holds op.serialId op).mp hqueue
    unfold BlockRead at hread
    omega
  · intro hgap
    have hread : ∀ op ∈ chain.ops, restoreStart confirmations restart ≤ op.block →
        op.block ≤ s.lastEthereumBlock - confirmations →
        BlockRead confirmations restart s.lastEthereumBlock op.block := by
      intro op hop hfrom hto
      have := hgap op
      simp only [EthEvents.Gap, hop, true_and, not_and] at this
      unfold BlockRead
      omega
    refine ⟨fun op hop hfrom hto id => ?_, fun first maxChunks op hop hfrom hto hid => ?_⟩
    · rw [h.holds id op]
      constructor
      · exact fun hheld => hheld.2.1.symm
      · rintro rfl
        exact ⟨hop, rfl, hread op hop hfrom hto⟩
    · obtain ⟨received, hreceived, rfl⟩ :=
        (h.holds op.serialId op).mpr ⟨hop, rfl, hread op hop hfrom hto⟩
      have hstop := collectPriorityRequests_stop hid hreceived
      rw [Nat.zero_add] at hstop
      exact hstop

/-- After a restart the watcher skips exactly the confirmed events of the gap. -/
theorem watcher_complete_iff {restart : Poll} {polls : List Poll} {s : ETHState}
    (hrun : Run (FreshPoll chain confirmations)
      (restoreStateFromEth chain confirmations restart) polls s)
    (hnew : restart.head < s.lastEthereumBlock) :
    s.Complete chain confirmations (restoreStart confirmations restart.head) ↔
      ∀ op, ¬ chain.Gap confirmations restart.head op := by
  have htracks : Tracks chain confirmations restart.head s :=
    hrun.invariant (fun _ _ _ h hstep => h.step hstep) (tracks_restore restart)
  exact htracks.complete_iff hnew

/-! ### A restart at block 10 with one confirmation -/

/-- A deposit requested in the given block, the first of its contract. -/
def depositRequest (ethBlock : UInt64) : PriorityOp where
  serialId := 0
  data := .Deposit ⟨1, 0, 5, 1⟩
  deadlineBlock := ethBlock + 35000
  ethHash := []
  ethBlock

/-- A chain with one deposit, in a block of choice. -/
def lonelyDepositAt (ethBlock : UInt64) : EthEvents where
  ops := [depositRequest ethBlock]
  first := 0
  serialIds i h := by
    obtain rfl : i = 0 := Nat.lt_one_iff.mp h
    rfl
  blocks := List.pairwise_singleton _ _

/-- A restart at block ten. -/
def restartAtTen : Poll := ⟨10, 10, 0⟩

/-- The poll at the next block. -/
def nextHead : Poll := ⟨11, 11, 0⟩

/-- The watcher that was restored at block 10 and has processed block 11. -/
def watcherAtEleven (chain : EthEvents) : ETHState :=
  (restoreStateFromEth chain 1 restartAtTen).pollEthNode chain 1 nextHead

theorem run_watcherAtEleven (chain : EthEvents) : Run (FreshPoll chain 1)
    (restoreStateFromEth chain 1 restartAtTen) [nextHead] (watcherAtEleven chain) := by
  apply Run.single
  refine ⟨fun id received _ => ?_, PollStep.polled _ _⟩
  show decide (priorityOpExpiration ≤ 0 - received.receivedAt) = false
  rw [Nat.zero_sub]
  rfl

/-- A deposit of block 8 was read by the restore. -/
theorem watcher_complete_iff_block_eight :
    (watcherAtEleven (lonelyDepositAt 8)).Complete (lonelyDepositAt 8) 1 (restoreStart 1 10) := by
  refine (watcher_complete_iff (run_watcherAtEleven (lonelyDepositAt 8)) (by decide)).mpr ?_
  rintro op ⟨hop, hafter, -⟩
  obtain rfl := List.mem_singleton.mp hop
  exact absurd hafter (by decide)

/-- A deposit of block 9 is read by nobody: the restore stops at block 8 and the
next head starts at block 10. -/
theorem watcher_skips_block_nine :
    Run (FreshPoll (lonelyDepositAt 9) 1) (restoreStateFromEth (lonelyDepositAt 9) 1 restartAtTen)
        [nextHead] (watcherAtEleven (lonelyDepositAt 9)) ∧
      restartAtTen.head < (watcherAtEleven (lonelyDepositAt 9)).lastEthereumBlock ∧
      ¬ (watcherAtEleven (lonelyDepositAt 9)).Complete (lonelyDepositAt 9) 1 (restoreStart 1 10) := by
  refine ⟨run_watcherAtEleven _, by decide, fun hcomplete => ?_⟩
  have hop : depositRequest 9 ∈ (lonelyDepositAt 9).ops := List.mem_singleton_self _
  obtain ⟨received, hreceived, -⟩ :=
    (hcomplete.once _ hop (by decide) (by decide) 0).mpr rfl
  have habsent : (watcherAtEleven (lonelyDepositAt 9)).priorityQueue.lookup 0 = none := by decide
  rw [habsent] at hreceived
  cases hreceived

end Runs

end ZkSync
