import ZkSync.Core.EthWatch
import ZkSync.Core.Mempool

/-!
# Proposing a block

`zksync_core::mempool::propose_new_block` and `zksync_core::block_proposer`: the
proposer asks for a block with its number of the next priority operation, the
mempool asks the Ethereum watcher for priority operations from that number on,
and fills the chunks they leave with transactions from the front of its queue.

The two selectors share one budget of chunks. The watcher stops at the first
operation that does not fit, so what is left of the budget is no less than zero
(`chunksOfRequests_le`); the mempool puts back the first element that does not
fit. Each takes a prefix, and `proposeNewBlock_fair` says which. `proposals_fair`
is about the life of a proposer: its blocks, one after the other, are the
priority operations in their order and the elements of the queue in theirs, each
once, whatever the mempool and the watcher receive between them.

The requests over channels are calls. Serial ids are 64 bit counters and wrap, as
in a release build.
-/

namespace ZkSync

/-! ## The selectors -/

namespace MempoolState

def requiredChunks (m : MempoolState) : SignedTxVariant → Nat
  | .Tx tx => m.chunksForTx tx.tx
  | .Batch batch => m.chunksForBatch batch.txs

/-- The loop of `prepare_tx_for_block` over the queue: the chunks that are left, the
elements taken and the queue that stays. -/
def takeForBlock (overflowChecks : Bool) (m : MempoolState) :
    Nat → List SignedTxVariant → Outcome (Nat × List SignedTxVariant × List SignedTxVariant)
  | chunksLeft, [] => .ok (chunksLeft, [], [])
  | chunksLeft, tx :: readyTxs =>
    if m.requiredChunks tx ≤ chunksLeft then do
      let chunksLeft ← usizeSub overflowChecks chunksLeft (m.requiredChunks tx)
      let (chunksLeft, taken, rest) ← takeForBlock overflowChecks m chunksLeft readyTxs
      return (chunksLeft, tx :: taken, rest)
    else .ok (chunksLeft, [], tx :: readyTxs)

end MempoolState

namespace Mempool

def selectPriorityOps (overflowChecks : Bool) (m : Mempool) (watcher : ETHState)
    (currentUnprocessedPriorityOp : UInt64) : Outcome (Nat × List PriorityOp) := do
  let priorityOps := watcher.getPriorityRequests currentUnprocessedPriorityOp m.maxBlockSizeChunks
  let chunksLeft ← usizeSub overflowChecks m.maxBlockSizeChunks (chunksOfRequests priorityOps)
  return (chunksLeft, priorityOps)

def prepareTxForBlock (overflowChecks : Bool) (m : Mempool) (chunksLeft : Nat) :
    Outcome ((Nat × List SignedTxVariant) × Mempool) := do
  let (chunksLeft, txsForCommit, readyTxs) ←
    m.mempoolState.takeForBlock overflowChecks chunksLeft m.mempoolState.readyTxs
  return ((chunksLeft, txsForCommit),
    { m with mempoolState := { m.mempoolState with readyTxs := readyTxs } })

def proposeNewBlock (overflowChecks : Bool) (m : Mempool) (watcher : ETHState)
    (currentUnprocessedPriorityOp : UInt64) : Outcome (ProposedBlock × Mempool) := do
  let (chunksLeft, priorityOps) ←
    m.selectPriorityOps overflowChecks watcher currentUnprocessedPriorityOp
  let ((_, txs), m) ← m.prepareTxForBlock overflowChecks chunksLeft
  return ({ priorityOps := priorityOps, txs := txs }, m)

end Mempool

/-! ## Priority operations -/

/-- Every operation is kept at its serial id. -/
def PriorityQueue.Keyed (queue : PriorityQueue) : Prop :=
  ∀ id received, queue.lookup id = some received → received.op.serialId = id

section Priority

variable {queue : PriorityQueue}

theorem keyed_insertPriorityOps (h : queue.Keyed) (now : Nat) (events : List PriorityOp) :
    (insertPriorityOps now events queue).Keyed := by
  unfold insertPriorityOps
  induction events generalizing queue with
  | nil => exact h
  | cons op events ih =>
    refine ih fun id received hlookup => ?_
    by_cases hid : id = op.serialId
    · subst hid
      rw [Finmap.lookup_insert] at hlookup
      rw [← Option.some.inj hlookup]
    · rw [Finmap.lookup_insert_of_ne _ hid] at hlookup
      exact h id received hlookup

theorem keyed_siftOutdatedOps (h : queue.Keyed) (now : Nat) : (siftOutdatedOps now queue).Keyed := by
  intro id received hlookup
  unfold siftOutdatedOps at hlookup
  rw [Finmap.lookup_filter] at hlookup
  exact h id received (Option.filter_eq_some_iff.mp hlookup).1

/-- The operations have consecutive serial ids, from the one that was asked for. -/
theorem serialIds_collectPriorityRequests (h : queue.Keyed) {maxChunks usedChunks : Nat}
    {currentPriorityOp : UInt64} :
    (collectPriorityRequests queue maxChunks usedChunks currentPriorityOp).map (·.serialId) =
      (List.range (collectPriorityRequests queue maxChunks usedChunks currentPriorityOp).length).map
        fun i => currentPriorityOp + UInt64.ofNat i := by
  fun_induction collectPriorityRequests queue maxChunks usedChunks currentPriorityOp with
  | case1 => rfl
  | case2 usedChunks current op hop hfits ih =>
    rw [List.map_cons, ih, List.length_cons, List.range_succ_eq_map, List.map_cons, List.map_map,
      h current op hop]
    refine congrArg₂ _ (UInt64.add_zero current).symm (List.map_congr_left fun i _ => ?_)
    show current + 1 + UInt64.ofNat i = current + UInt64.ofNat (i + 1)
    rw [UInt64.ofNat_add, UInt64.add_assoc, UInt64.add_comm 1]
    rfl
  | case3 => rfl

/-- Each is the confirmed operation with its serial id. -/
theorem mem_collectPriorityRequests (h : queue.Keyed) {maxChunks usedChunks : Nat}
    {currentPriorityOp : UInt64} {op : PriorityOp}
    (hop : op ∈ collectPriorityRequests queue maxChunks usedChunks currentPriorityOp) :
    ∃ received, queue.lookup op.serialId = some received ∧ received.op = op := by
  fun_induction collectPriorityRequests queue maxChunks usedChunks currentPriorityOp with
  | case1 => exact absurd hop List.not_mem_nil
  | case2 usedChunks current received hlookup hfits ih =>
    rcases List.mem_cons.mp hop with rfl | hop
    · exact ⟨received, by rw [h current received hlookup, hlookup], rfl⟩
    · exact ih hop
  | case3 => exact absurd hop List.not_mem_nil

/-- The watcher stays within the chunks it was asked for. -/
theorem chunksOfRequests_le {maxChunks usedChunks : Nat} {currentPriorityOp : UInt64}
    (hused : usedChunks ≤ maxChunks) :
    usedChunks + chunksOfRequests
      (collectPriorityRequests queue maxChunks usedChunks currentPriorityOp) ≤ maxChunks := by
  fun_induction collectPriorityRequests queue maxChunks usedChunks currentPriorityOp with
  | case1 => exact hused
  | case2 usedChunks current op hop hfits ih =>
    have hrest := ih hfits
    have hcons : ∀ ops, chunksOfRequests (op.op :: ops) = op.op.data.chunks + chunksOfRequests ops :=
      fun ops => List.sum_cons
    rw [hcons]
    omega
  | case3 => exact hused

/-- The watcher stops at the first operation it does not know, or that does not fit. -/
theorem lt_next_collectPriorityRequests {maxChunks usedChunks : Nat} {currentPriorityOp : UInt64}
    {next : ReceivedPriorityOp}
    (hnext : queue.lookup (currentPriorityOp + UInt64.ofNat
      (collectPriorityRequests queue maxChunks usedChunks currentPriorityOp).length) = some next) :
    maxChunks < usedChunks + chunksOfRequests
      (collectPriorityRequests queue maxChunks usedChunks currentPriorityOp) +
        next.op.data.chunks := by
  fun_induction collectPriorityRequests queue maxChunks usedChunks currentPriorityOp with
  | case1 usedChunks current hnone =>
    have hzero : current + UInt64.ofNat 0 = current := UInt64.add_zero current
    rw [List.length_nil, hzero, hnone] at hnext
    cases hnext
  | case2 usedChunks current op hop hfits ih =>
    -- The operation is taken, and the rest starts one id later.
    have hlater : ∀ n, current + UInt64.ofNat (n + 1) = current + 1 + UInt64.ofNat n := by
      intro n
      rw [UInt64.ofNat_add, UInt64.add_comm (UInt64.ofNat n), ← UInt64.add_assoc]
      rfl
    rw [List.length_cons, hlater] at hnext
    have hrest := ih hnext
    have hcons : ∀ ops, chunksOfRequests (op.op :: ops) = op.op.data.chunks + chunksOfRequests ops :=
      fun ops => List.sum_cons
    rw [hcons]
    omega
  | case3 usedChunks current op hop hfits =>
    have hzero : current + UInt64.ofNat 0 = current := UInt64.add_zero current
    rw [List.length_nil, hzero, hop] at hnext
    obtain rfl := Option.some.inj hnext
    exact Nat.lt_of_not_le hfits

end Priority

section Runs

variable {chain : EthEvents} {confirmations : Nat}

theorem keyed_restoreStateFromEth (poll : Poll) :
    (restoreStateFromEth chain confirmations poll).priorityQueue.Keyed :=
  keyed_insertPriorityOps (fun _ _ h => by rw [Finmap.lookup_empty] at h; cases h) _ _

/-- The queue of a watcher is keyed by serial ids, whatever it polls. -/
theorem keyed_of_run {restart : Poll} {polls : List Poll} {s : ETHState}
    (hrun : Run (PollStep chain confirmations) (restoreStateFromEth chain confirmations restart)
      polls s) : s.priorityQueue.Keyed := by
  refine hrun.invariant (I := fun s => s.priorityQueue.Keyed) (fun s poll s' h hstep => ?_)
    (keyed_restoreStateFromEth restart)
  cases hstep with
  | polled =>
    unfold ETHState.pollEthNode
    split
    · exact keyed_insertPriorityOps (keyed_siftOutdatedOps h _) _ _
    · exact h
  | failed => exact h

end Runs

/-- A watcher. The proposer relies on nothing else that it knows. -/
structure EthWatch where
  ethState : ETHState
  keyed : ethState.priorityQueue.Keyed

/-- The watcher that was restored from the chain and has polled since. -/
def EthWatch.ofRun {chain : EthEvents} {confirmations : Nat} {restart : Poll} {polls : List Poll}
    {s : ETHState} (hrun : Run (PollStep chain confirmations)
      (restoreStateFromEth chain confirmations restart) polls s) : EthWatch where
  ethState := s
  keyed := keyed_of_run hrun

/-! ## Transactions -/

section Transactions

variable {overflowChecks : Bool} {m : MempoolState}

/-- The loop takes from the front what fits, and never subtracts too much. -/
theorem takeForBlock_spec (overflowChecks : Bool) (m : MempoolState)
    (readyTxs : List SignedTxVariant) : ∀ chunksLeft : Nat, ∃ left taken rest,
      m.takeForBlock overflowChecks chunksLeft readyTxs = .ok (left, taken, rest) ∧
      readyTxs = taken ++ rest ∧ (taken.map m.requiredChunks).sum + left = chunksLeft ∧
      ∀ tx ∈ rest.head?, left < m.requiredChunks tx := by
  induction readyTxs with
  | nil =>
    exact fun chunksLeft => ⟨chunksLeft, [], [], rfl, rfl, Nat.zero_add _, fun tx h => (by cases h)⟩
  | cons tx readyTxs ih =>
    intro chunksLeft
    unfold MempoolState.takeForBlock
    by_cases hfits : m.requiredChunks tx ≤ chunksLeft
    · obtain ⟨left, taken, rest, htake, hqueue, hsum, hnext⟩ := ih (chunksLeft - m.requiredChunks tx)
      refine ⟨left, tx :: taken, rest, ?_, by rw [hqueue]; rfl, ?_, hnext⟩
      · rw [if_pos hfits]
        unfold usizeSub
        rw [if_pos hfits, Outcome.ok_bind, htake]
        rfl
      · rw [List.map_cons, List.sum_cons]
        omega
    · refine ⟨chunksLeft, [], tx :: readyTxs, if_neg hfits, rfl, Nat.zero_add _, fun tx' h => ?_⟩
      obtain rfl : tx = tx' := Option.some.inj h
      exact Nat.lt_of_not_le hfits

end Transactions

/-! ## One proposal -/

/-- The block takes the priority operations from the given one on, and the front of
the queue, as far as they fit. -/
structure FairProposal (m : Mempool) (watcher : ETHState) (current : UInt64)
    (block : ProposedBlock) (m' : Mempool) : Prop where
  consecutive : block.priorityOps.map (·.serialId) =
    (List.range block.priorityOps.length).map fun i => current + UInt64.ofNat i
  confirmed : ∀ op ∈ block.priorityOps, ∃ received,
    watcher.priorityQueue.lookup op.serialId = some received ∧ received.op = op
  /-- The confirmed operation behind those taken does not fit into the block. -/
  nextPriorityOp : ∀ next,
    watcher.priorityQueue.lookup (current + UInt64.ofNat block.priorityOps.length) = some next →
      m.maxBlockSizeChunks < chunksOfRequests block.priorityOps + next.op.data.chunks
  front : m.mempoolState.readyTxs = block.txs ++ m'.mempoolState.readyTxs
  chunks : chunksOfRequests block.priorityOps +
    (block.txs.map m.mempoolState.requiredChunks).sum ≤ m.maxBlockSizeChunks
  /-- The element of the queue behind those taken does not fit into what is left. -/
  full : ∀ tx ∈ m'.mempoolState.readyTxs.head?, m.maxBlockSizeChunks <
    chunksOfRequests block.priorityOps + (block.txs.map m.mempoolState.requiredChunks).sum +
      m.mempoolState.requiredChunks tx
  /-- Nothing but the queue changes. -/
  frame : m' = { m with
    mempoolState := { m.mempoolState with readyTxs := m'.mempoolState.readyTxs } }

/-- A block is always proposed, without underflow, and it is a fair one. -/
theorem proposeNewBlock_fair (overflowChecks : Bool) (m : Mempool) (watcher : EthWatch)
    (current : UInt64) : ∃ block m',
      m.proposeNewBlock overflowChecks watcher.ethState current = .ok (block, m') ∧
        FairProposal m watcher.ethState current block m' := by
  obtain ⟨watcher, hkeyed⟩ := watcher
  -- the watcher answers with no more than fits
  have hchunks : chunksOfRequests (watcher.getPriorityRequests current m.maxBlockSizeChunks) ≤
      m.maxBlockSizeChunks := by
    have hle : 0 + chunksOfRequests (watcher.getPriorityRequests current m.maxBlockSizeChunks) ≤
        m.maxBlockSizeChunks := chunksOfRequests_le (Nat.zero_le _)
    omega
  obtain ⟨left, taken, rest, htake, hqueue, hsum, hnext⟩ :=
    takeForBlock_spec overflowChecks m.mempoolState m.mempoolState.readyTxs
      (m.maxBlockSizeChunks -
        chunksOfRequests (watcher.getPriorityRequests current m.maxBlockSizeChunks))
  refine ⟨⟨watcher.getPriorityRequests current m.maxBlockSizeChunks, taken⟩,
    { m with mempoolState := { m.mempoolState with readyTxs := rest } }, ?_,
    serialIds_collectPriorityRequests hkeyed, fun op hop => mem_collectPriorityRequests hkeyed hop,
    fun next hop => ?_, hqueue, ?_, fun tx htx => ?_, rfl⟩
  · have hselect : m.selectPriorityOps overflowChecks watcher current =
        .ok (m.maxBlockSizeChunks -
          chunksOfRequests (watcher.getPriorityRequests current m.maxBlockSizeChunks),
          watcher.getPriorityRequests current m.maxBlockSizeChunks) := by
      unfold Mempool.selectPriorityOps usizeSub
      dsimp only
      rw [if_pos hchunks]
      rfl
    unfold Mempool.proposeNewBlock Mempool.prepareTxForBlock
    rw [hselect, Outcome.ok_bind]
    dsimp only
    rw [htake]
    rfl
  -- the next confirmed operation would have been taken if it had fitted
  · have hlt : m.maxBlockSizeChunks < 0 +
        chunksOfRequests (watcher.getPriorityRequests current m.maxBlockSizeChunks) +
          next.op.data.chunks := lt_next_collectPriorityRequests hop
    rwa [Nat.zero_add] at hlt
  · show chunksOfRequests (watcher.getPriorityRequests current m.maxBlockSizeChunks) +
      (taken.map m.mempoolState.requiredChunks).sum ≤ _
    omega
  · have hlt := hnext tx htx
    show _ < chunksOfRequests (watcher.getPriorityRequests current m.maxBlockSizeChunks) +
      (taken.map m.mempoolState.requiredChunks).sum + _
    omega

/-! ## The life of a proposer -/

/-- The block proposer, and the mempool and the watcher it gets its blocks from. -/
structure Proposing where
  currentPriorityOpNumber : UInt64
  mempool : Mempool
  watcher : EthWatch

/-- `commit_new_tx_mini_batch`: the proposer counts the operations it proposed. -/
def Proposing.commitNewTxMiniBatch (overflowChecks : Bool) (x : Proposing) :
    Outcome (ProposedBlock × Proposing) := do
  let (proposedBlock, mempool) ← x.mempool.proposeNewBlock overflowChecks x.watcher.ethState
    x.currentPriorityOpNumber
  return (proposedBlock, { x with
    currentPriorityOpNumber :=
      x.currentPriorityOpNumber + UInt64.ofNat proposedBlock.priorityOps.length
    mempool := mempool })

inductive ProposingEvent where
  | proposed (block : ProposedBlock)
  /-- The mempool admitted a transaction or a batch. -/
  | received (variant : SignedTxVariant)
  | noncesUpdated (updates : AccountUpdates)
  | polled

/-- What happens between the proposals changes the end of the queue, what the mempool
knows of the accounts, and the watcher. -/
inductive ProposingStep (overflowChecks : Bool) : Proposing → ProposingEvent → Proposing → Prop
  | proposed {x x' : Proposing} {block : ProposedBlock}
      (h : x.commitNewTxMiniBatch overflowChecks = .ok (block, x')) :
      ProposingStep overflowChecks x (.proposed block) x'
  | received (x : Proposing) (variant : SignedTxVariant) :
      ProposingStep overflowChecks x (.received variant) { x with
        mempool := { x.mempool with mempoolState := { x.mempool.mempoolState with
          readyTxs := x.mempool.mempoolState.readyTxs ++ [variant] } } }
  | noncesUpdated (x : Proposing) (updates : AccountUpdates) :
      ProposingStep overflowChecks x (.noncesUpdated updates) { x with
        mempool := { x.mempool with
          mempoolState := x.mempool.mempoolState.updateNonces updates } }
  | polled (x : Proposing) (watcher : EthWatch) :
      ProposingStep overflowChecks x .polled { x with watcher := watcher }

/-- The priority operations of the proposed blocks, one block after the other. -/
def ProposingEvent.priorityOps : ProposingEvent → List PriorityOp
  | .proposed block => block.priorityOps
  | _ => []

/-- The transactions and batches of the proposed blocks. -/
def ProposingEvent.txs : ProposingEvent → List SignedTxVariant
  | .proposed block => block.txs
  | _ => []

/-- What came to the queue. -/
def ProposingEvent.arrived : ProposingEvent → List SignedTxVariant
  | .received variant => [variant]
  | _ => []

section Life

variable {overflowChecks : Bool} {x x' : Proposing}

theorem readyTxs_updateNonces (m : MempoolState) (updates : AccountUpdates) :
    (m.updateNonces updates).readyTxs = m.readyTxs := by
  unfold MempoolState.updateNonces
  induction updates generalizing m with
  | nil => rfl
  | cons u updates ih =>
    rw [List.foldl_cons, ih]
    obtain ⟨id, update⟩ := u
    have hset : ∀ newNonce, (m.setNonce id newNonce).readyTxs = m.readyTxs := by
      intro newNonce
      unfold MempoolState.setNonce
      split
      · split <;> rfl
      · rfl
    cases update with
    | Create address nonce => rfl
    | Delete address nonce => rfl
    | UpdateBalance _ newNonce _ => exact hset newNonce
    | ChangePubKeyHash _ _ _ newNonce => exact hset newNonce

theorem commitNewTxMiniBatch_fair {block : ProposedBlock}
    (h : x.commitNewTxMiniBatch overflowChecks = .ok (block, x')) :
    FairProposal x.mempool x.watcher.ethState x.currentPriorityOpNumber block x'.mempool ∧
      x'.currentPriorityOpNumber =
        x.currentPriorityOpNumber + UInt64.ofNat block.priorityOps.length := by
  obtain ⟨block', m', hpropose, hfair⟩ := proposeNewBlock_fair overflowChecks x.mempool x.watcher
    x.currentPriorityOpNumber
  unfold Proposing.commitNewTxMiniBatch at h
  rw [hpropose, Outcome.ok_bind] at h
  cases h
  exact ⟨hfair, rfl⟩

/-- Every run: the blocks hold the priority operations from the first number on, each
once, and the elements of the queue in their order, each once. -/
theorem proposals_fair {tr : List ProposingEvent}
    (hrun : Run (ProposingStep overflowChecks) x tr x') :
    (tr.flatMap ProposingEvent.priorityOps).map (·.serialId) =
      (List.range (tr.flatMap ProposingEvent.priorityOps).length).map
        (fun i => x.currentPriorityOpNumber + UInt64.ofNat i) ∧
    x.mempool.mempoolState.readyTxs ++ tr.flatMap ProposingEvent.arrived =
      tr.flatMap ProposingEvent.txs ++ x'.mempool.mempoolState.readyTxs := by
  induction hrun with
  | nil => exact ⟨rfl, List.append_nil _⟩
  | @cons x x₁ x' e tr hstep _ ih =>
    obtain ⟨hids, hqueue⟩ := ih
    cases hstep with
    | @proposed _ block h =>
      obtain ⟨hfair, hnumber⟩ := commitNewTxMiniBatch_fair h
      rw [List.flatMap_cons, List.flatMap_cons, List.flatMap_cons]
      refine ⟨?_, ?_⟩
      · show (block.priorityOps ++ _).map _ = (List.range (block.priorityOps ++ _).length).map _
        rw [List.map_append, hfair.consecutive, hids, hnumber, List.length_append, List.range_add,
          List.map_append, List.map_map]
        refine congrArg _ (List.map_congr_left fun i _ => ?_)
        show _ = x.currentPriorityOpNumber + UInt64.ofNat (block.priorityOps.length + i)
        rw [UInt64.ofNat_add, UInt64.add_assoc]
      · show x.mempool.mempoolState.readyTxs ++ ([] ++ _) = (block.txs ++ _) ++ _
        rw [hfair.front, List.nil_append, List.append_assoc, hqueue, List.append_assoc]
    | received variant =>
      refine ⟨hids, ?_⟩
      rw [List.flatMap_cons, List.flatMap_cons]
      show _ ++ ([variant] ++ _) = ([] ++ _) ++ _
      rw [← List.append_assoc, List.nil_append]
      exact hqueue
    | noncesUpdated updates =>
      refine ⟨hids, ?_⟩
      rw [← readyTxs_updateNonces x.mempool.mempoolState updates]
      exact hqueue
    | polled => exact ⟨hids, hqueue⟩

end Life

end ZkSync
