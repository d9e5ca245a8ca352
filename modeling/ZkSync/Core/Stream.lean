import ZkSync.Core.Hashable
import ZkSync.State.Mirror

/-!
# The stream of sealed blocks

What the committer receives from a state keeper, read as blocks: each with the
slices of account updates that were sent for it. `StreamOk` says what the
committer relies on:

* block numbers and intervals of priority operations continue each other;
* the successful operations of a block are numbered in their order;
* the slices of a block, laid end to end at the places they name, are its
  account updates;
* the account updates lead from the accounts of the block before to accounts
  with the new root hash.

`StreamInv` is what the keeper has to keep for it between two blocks. It is one
invariant for four counters, because they are all read when the block is sealed
(`StreamInv.step`).

The last point fails when a full exit reaches an account that a rolled-back
batch left in the tree (`exit_of_leftover`). `KeeperCall.OwnedExit` excludes
these, and then every run is consistent (`sealed_blocks_consistent`).
-/

namespace ZkSync

/-! ## What the committer sees -/

/-- A block, and the updates sent for it while it was pending and at the end. -/
structure SealedBlock where
  request : BlockCommitRequest
  slices : List AppliedUpdatesRequest

/-- The blocks of a list of requests; `slices` were sent for the block that is pending. -/
def sealedBlocks (slices : List AppliedUpdatesRequest) : List CommitRequest → List SealedBlock
  | [] => []
  | .PendingBlock _ updates :: rest => sealedBlocks (slices ++ [updates]) rest
  | .Block request updates :: rest => ⟨request, slices ++ [updates]⟩ :: sealedBlocks [] rest

namespace ExecutedOperations

/-- `is_successful`: a priority operation always is. -/
def isSuccessful : ExecutedOperations → Bool
  | .Tx execTx => execTx.success
  | .PriorityOp _ => true

def isPriorityOp : ExecutedOperations → Bool
  | .Tx _ => false
  | .PriorityOp _ => true

def blockIndex : ExecutedOperations → Option UInt32
  | .Tx execTx => execTx.blockIndex
  | .PriorityOp execOp => some execOp.blockIndex

end ExecutedOperations

/-- Operation `i` of the list has index `i`, counted as the keeper counts. -/
def Numbered (ops : List ExecutedOperations) : Prop :=
  ops.map ExecutedOperations.blockIndex = (List.range ops.length).map fun i => some (UInt32.ofNat i)

/-- The slices, the first of which starts at `start`, lie end to end and make
the list. -/
def Concatenate : Nat → List AppliedUpdatesRequest → AccountUpdates → Prop
  | _, [], us => us = []
  | start, slice :: slices, us => slice.firstUpdateOrderId = start ∧
    ∃ rest, us = slice.accountUpdates ++ rest ∧
      Concatenate (start + slice.accountUpdates.length) slices rest

/-- A block after the block `number - 1`, which left the accounts `m` and the
priority operation `next` unprocessed. -/
structure SealedBlock.Follows (env : Env) (number : BlockNumber) (next : UInt64) (m : Ledger)
    (b : SealedBlock) : Prop where
  number : b.request.block.blockNumber = number
  first : b.request.block.processedPriorityOps.1 = next
  last : b.request.block.processedPriorityOps.2 =
    next + UInt64.ofNat (b.request.block.blockTransactions.countP ExecutedOperations.isPriorityOp)
  indices : Numbered (b.request.block.blockTransactions.filter ExecutedOperations.isSuccessful)
  slices : Concatenate 0 b.slices b.request.accountsUpdated
  root : (m.apply b.request.accountsUpdated).root env.hasher = .ok b.request.block.newRootHash

/-- Every block follows the block before it. -/
def StreamOk (env : Env) : BlockNumber → UInt64 → Ledger → List SealedBlock → Prop
  | _, _, _, [] => True
  | number, next, m, b :: rest => b.Follows env number next m ∧
    StreamOk env (number + 1) b.request.block.processedPriorityOps.2
      (m.apply b.request.accountsUpdated) rest

section Slices

variable {us vs : AccountUpdates} {slices : List AppliedUpdatesRequest}

/-- One more slice, from where the slices end. -/
theorem Concatenate.append {start : Nat} (h : Concatenate start slices us) :
    Concatenate start (slices ++ [⟨vs, start + us.length⟩]) (us ++ vs) := by
  induction slices generalizing start us with
  | nil =>
    have hnil : us = [] := h
    subst hnil
    exact ⟨rfl, [], by rw [List.nil_append, List.append_nil], rfl⟩
  | cons slice slices ih =>
    obtain ⟨hstart, rest, rfl, hrest⟩ := h
    refine ⟨hstart, rest ++ vs, by rw [List.append_assoc], ?_⟩
    have hlen : start + (slice.accountUpdates ++ rest).length =
        start + slice.accountUpdates.length + rest.length := by
      rw [List.length_append, Nat.add_assoc]
    rw [hlen]
    exact ih hrest

end Slices

/-! ## The operations of the pending block -/

/-- The operations of the pending block are numbered, and told apart by their success. -/
structure OpsOk (p : PendingBlock) : Prop where
  numbered : Numbered p.successOperations
  next : p.pendingOpBlockIndex = UInt32.ofNat p.successOperations.length
  successful : ∀ op ∈ p.successOperations, op.isSuccessful
  failed : ∀ tx ∈ p.failedTxs, tx.success = false

/-- What pushing did: it appended account updates, and `count` priority operations. -/
structure PushedBy (us : AccountUpdates) (count : Nat) (p p' : PendingBlock) : Prop where
  updates : p'.accountUpdates = p.accountUpdates ++ us
  stored : p'.storedAccountUpdates = p.storedAccountUpdates
  before : p'.unprocessedPriorityOpBefore = p.unprocessedPriorityOpBefore
  priorityOps : p'.successOperations.countP ExecutedOperations.isPriorityOp =
    p.successOperations.countP ExecutedOperations.isPriorityOp + count
  ops : OpsOk p → OpsOk p'

section Push

variable {p p' p'' : PendingBlock} {us vs : AccountUpdates} {overflowChecks : Bool}

/-- Where it does not panic, the number is the next one, wrapped or not. -/
theorem u32Increment_eq_ok {n m : UInt32} (h : u32Increment overflowChecks n = .ok m) :
    m = n + 1 := by
  unfold u32Increment at h
  rw [Outcome.bind_eq_ok] at h
  obtain ⟨_, -, h⟩ := h
  exact (Except.ok.inj h).symm

theorem u64Increment_eq_ok {n m : UInt64} (h : u64Increment overflowChecks n = .ok m) :
    m = n + 1 := by
  unfold u64Increment at h
  rw [Outcome.bind_eq_ok] at h
  obtain ⟨_, -, h⟩ := h
  exact (Except.ok.inj h).symm

theorem PushedBy.refl (p : PendingBlock) : PushedBy [] 0 p p :=
  ⟨(List.append_nil _).symm, rfl, rfl, rfl, id⟩

/-- What is pushed in two steps is pushed in their order. -/
theorem PushedBy.trans {count count' : Nat} (h : PushedBy us count p p')
    (h' : PushedBy vs count' p' p'') : PushedBy (us ++ vs) (count + count') p p'' where
  updates := by rw [h'.updates, h.updates, List.append_assoc]
  stored := h'.stored.trans h.stored
  before := h'.before.trans h.before
  priorityOps := by rw [h'.priorityOps, h.priorityOps, Nat.add_assoc]
  ops := fun hp => h'.ops (h.ops hp)

/-- Counting pushes nothing. -/
theorem Counted.pushedBy (h : Counted p p') : PushedBy [] 0 p p' := by
  unfold Counted at h
  rw [h]
  exact ⟨(List.append_nil _).symm, rfl, rfl, rfl, fun hp => ⟨hp.1, hp.2, hp.3, hp.4⟩⟩

/-- The next operation gets the next number. -/
theorem numbered_append {ops : List ExecutedOperations} {op : ExecutedOperations}
    (h : Numbered ops) (hop : op.blockIndex = some (UInt32.ofNat ops.length)) :
    Numbered (ops ++ [op]) := by
  unfold Numbered at h ⊢
  rw [List.map_append, h, List.length_append, List.length_singleton, List.range_succ,
    List.map_append, List.map_singleton, List.map_singleton, hop]

/-- A success gets the next index. -/
theorem pushedBy_pushSuccess {chunksNeeded : Nat} {success : OpSuccess}
    {executed : UInt32 → ExecutedOperations} {e : ExecutedOperations}
    (hindex : ∀ i, (executed i).blockIndex = some i) (hsucc : ∀ i, (executed i).isSuccessful)
    (h : p.pushSuccess overflowChecks chunksNeeded success executed = .ok (e, p')) :
    PushedBy success.updates (if e.isPriorityOp then 1 else 0) p p' := by
  obtain ⟨chunksLeft, index, -, hinc, rfl, rfl⟩ := PendingBlock.pushSuccess_eq_ok.mp h
  refine ⟨rfl, rfl, rfl, ?_, fun hp => ⟨?_, ?_, ?_, hp.failed⟩⟩
  · dsimp only
    rw [List.countP_append, List.countP_singleton]
  · exact numbered_append hp.numbered (by rw [hindex, hp.next])
  · show index = _
    rw [u32Increment_eq_ok hinc, hp.next, List.length_append, List.length_singleton,
      UInt32.ofNat_add]
    rfl
  · intro op hop
    rcases List.mem_append.mp hop with hop | hop
    · exact hp.successful op hop
    · rw [List.mem_singleton.mp hop]
      exact hsucc _

/-- A transaction pushes its updates, or nothing if it failed. -/
theorem pushedBy_pushTxResult {chunksNeeded : Nat} {batchId : Option Int} {tx : SignedZkSyncTx}
    {result : Except String OpSuccess} {e : ExecutedOperations}
    (h : p.pushTxResult overflowChecks chunksNeeded batchId tx result = .ok (e, p')) :
    PushedBy (result.toOption.elim [] (·.updates)) 0 p p' := by
  cases result with
  | ok success =>
    unfold PendingBlock.pushTxResult at h
    have hpush := pushedBy_pushSuccess (by exact fun _ => rfl) (by exact fun _ => rfl) h
    obtain ⟨_, _, -, -, rfl, -⟩ := PendingBlock.pushSuccess_eq_ok.mp h
    exact hpush
  | error error =>
    cases h
    refine ⟨(List.append_nil _).symm, rfl, rfl, rfl, fun hp => ⟨hp.1, hp.2, hp.3, fun tx htx => ?_⟩⟩
    rcases List.mem_append.mp htx with htx | htx
    · exact hp.failed tx htx
    · rw [List.mem_singleton.mp htx]

/-- A batch pushes the updates of its transactions. -/
theorem pushedBy_pushBatchResults {chunksNeeded : Nat} {batchId : Int}
    {results : List (SignedZkSyncTx × Except String OpSuccess)} {ops : List ExecutedOperations}
    (h : p.pushBatchResults overflowChecks chunksNeeded batchId results = .ok (ops, p')) :
    PushedBy (results.flatMap fun r => r.2.toOption.elim [] (·.updates)) 0 p p' := by
  induction results generalizing p ops with
  | nil =>
    cases h
    exact .refl _
  | cons r results ih =>
    obtain ⟨tx, result⟩ := r
    unfold PendingBlock.pushBatchResults at h
    simp only [Outcome.bind_eq_ok] at h
    obtain ⟨⟨e, p₁⟩, h₁, ⟨ops', p₂⟩, h₂, h⟩ := h
    cases h
    exact (pushedBy_pushTxResult h₁).trans (ih h₂)

/-- The updates pushed for a batch are those of its transactions that succeeded. -/
theorem updatesOf_succeeded (txs : List SignedZkSyncTx) (results : BatchResults) :
    (txs.zip results).flatMap (fun r => r.2.toOption.elim [] (·.updates)) =
      updatesOf (succeeded txs results) := by
  unfold updatesOf succeeded
  induction txs.zip results with
  | nil => rfl
  | cons r l ih =>
    obtain ⟨tx, result⟩ := r
    rw [List.flatMap_cons, ih]
    cases result <;> rfl

end Push

/-! ## The invariant -/

/-- The full exits of a call reach only accounts that the index knows. -/
def KeeperCall.OwnedExit (k : ZkSyncStateKeeper) : KeeperCall → Prop
  | .priorityOp op => ZkSync.OwnedExit k.state op.data
  | _ => True

/-- A keeper whose last block left the accounts `m`, and which has sent the
slices since.

* `mirrors`, `run` — `m` with the updates of the pending block is what the state
  stores;
* `fee` — the fee account is stored;
* `ops`, `next` — the operations of the pending block, and the counters on them;
* `slices`, `stored_le` — the slices are the updates that count as stored. -/
structure StreamInv (env : Env) (m : Ledger) (slices : List AppliedUpdatesRequest)
    (k : ZkSyncStateKeeper) : Prop where
  mirrors : Mirrors (m.apply k.pendingBlock.accountUpdates) k.state
  run : Run Ledger.Step m k.pendingBlock.accountUpdates (m.apply k.pendingBlock.accountUpdates)
  fee : (m k.feeAccountId).isSome
  indexed : Indexed k.state
  hashed : Hashed env.hasher k.state
  ops : OpsOk k.pendingBlock
  next : k.currentUnprocessedPriorityOp = k.pendingBlock.unprocessedPriorityOpBefore +
    UInt64.ofNat (k.pendingBlock.successOperations.countP ExecutedOperations.isPriorityOp)
  slices : Concatenate 0 slices
    (k.pendingBlock.accountUpdates.take k.pendingBlock.storedAccountUpdates)
  stored_le : k.pendingBlock.storedAccountUpdates ≤ k.pendingBlock.accountUpdates.length

section Invariant

variable {env : Env} {m : Ledger} {slices : List AppliedUpdatesRequest} {k k' : ZkSyncStateKeeper}

/-- Updates are applied one behind the other. -/
theorem apply_append (m : Ledger) (us vs : AccountUpdates) :
    m.apply (us ++ vs) = (m.apply us).apply vs :=
  List.foldl_append

/-- An operation was pushed to the pending block, and did to the state what it
reports. -/
theorem StreamInv.push (h : StreamInv env m slices k) {us : AccountUpdates} {count : Nat}
    {p : PendingBlock} {state : ZkSyncState} {next : UInt64}
    (hpush : PushedBy us count k.pendingBlock p) (hwrites : Writes env.hasher k.state state)
    (hm : Mirrors ((m.apply k.pendingBlock.accountUpdates).apply us) state ∧
      Run Ledger.Step (m.apply k.pendingBlock.accountUpdates) us
        ((m.apply k.pendingBlock.accountUpdates).apply us))
    (hnext : next = k.currentUnprocessedPriorityOp + UInt64.ofNat count) :
    StreamInv env m slices
      { k with state := state, pendingBlock := p, currentUnprocessedPriorityOp := next } where
  mirrors := by
    rw [hpush.updates, apply_append]
    exact hm.1
  run := by
    rw [hpush.updates, apply_append]
    exact h.run.append hm.2
  fee := h.fee
  indexed := hwrites.indexed h.indexed
  hashed := hwrites.hashed h.hashed
  ops := hpush.ops h.ops
  next := by
    dsimp only
    rw [hnext, h.next, hpush.priorityOps, hpush.before, UInt64.ofNat_add, UInt64.add_assoc]
  slices := by
    dsimp only
    rw [hpush.updates, hpush.stored, List.take_append_of_le_length h.stored_le]
    exact h.slices
  stored_le := by
    dsimp only
    rw [hpush.updates, hpush.stored, List.length_append]
    exact Nat.le_trans h.stored_le (Nat.le_add_right _ _)

/-- The invariant does not look at the counters. -/
theorem StreamInv.counted (h : StreamInv env m slices k) {p : PendingBlock}
    (hp : Counted k.pendingBlock p) : StreamInv env m slices { k with pendingBlock := p } :=
  h.push hp.pushedBy .refl ⟨h.mirrors, .nil _⟩ (UInt64.add_zero _).symm

/-- Nor does the end of a mini block matter to it. -/
theorem StreamInv.countIteration (h : StreamInv env m slices k) :
    StreamInv env m slices k.countIteration := by
  unfold ZkSyncStateKeeper.countIteration
  split
  · exact ⟨h.1, h.2, h.3, h.4, h.5, ⟨h.6.1, h.6.2, h.6.3, h.6.4⟩, h.7, h.8, h.9⟩
  · exact h

/-- The block number of the state, and the counter the pending block started with. -/
def SamePlace (k k' : ZkSyncStateKeeper) : Prop :=
  k'.state.blockNumber = k.state.blockNumber ∧
    k'.pendingBlock.unprocessedPriorityOpBefore = k.pendingBlock.unprocessedPriorityOpBefore

/-! ## One call -/

/-- The successful operations come first, the failed transactions after them. -/
theorem OpsOk.transactions {p : PendingBlock} (h : OpsOk p) :
    (p.successOperations ++ p.failedTxs.map ExecutedOperations.Tx).filter ExecutedOperations.isSuccessful =
        p.successOperations ∧
      (p.successOperations ++ p.failedTxs.map ExecutedOperations.Tx).countP ExecutedOperations.isPriorityOp =
        p.successOperations.countP ExecutedOperations.isPriorityOp := by
  refine ⟨?_, ?_⟩
  · have hfailed : (p.failedTxs.map ExecutedOperations.Tx).filter
        ExecutedOperations.isSuccessful = [] := by
      refine List.filter_eq_nil_iff.mpr fun op hop => ?_
      obtain ⟨tx, htx, rfl⟩ := List.mem_map.mp hop
      show ¬ tx.success = true
      rw [h.failed tx htx]
      exact Bool.false_ne_true
    rw [List.filter_append, hfailed, List.append_nil]
    exact List.filter_eq_self.mpr h.successful
  · have hfailed : (p.failedTxs.map ExecutedOperations.Tx).countP
        ExecutedOperations.isPriorityOp = 0 := by
      refine List.countP_eq_zero.mpr fun op hop => ?_
      obtain ⟨tx, -, rfl⟩ := List.mem_map.mp hop
      exact Bool.false_ne_true
    rw [List.countP_append, hfailed, Nat.add_zero]

/-- A sealed block follows the block before it, and the next one starts where it ends. -/
theorem StreamInv.seal (h : StreamInv env m slices k) {request : BlockCommitRequest}
    {updates : AppliedUpdatesRequest}
    (hseal : k.sealPendingBlock env = .ok ((request, updates), k')) :
    SealedBlock.Follows env k.state.blockNumber k.pendingBlock.unprocessedPriorityOpBefore m
      ⟨request, slices ++ [updates]⟩ ∧
    StreamInv env (m.apply request.accountsUpdated) [] k' ∧
    k'.state.blockNumber = k.state.blockNumber + 1 ∧
    k'.pendingBlock.unprocessedPriorityOpBefore = request.block.processedPriorityOps.2 := by
  obtain ⟨feeUpdates, paid, hashed, blockNumber, maxBlockSize, hs, hnumber, -, rfl⟩ :=
    sealPendingBlock_eq_ok hseal
  have hpaid : Writes env.hasher k.state paid := (Step.collectFee hs.fees).writes
  have hwrites : Writes env.hasher k.state hashed := hpaid.trans (Step.rootHash hs.root).writes
  obtain ⟨hm, hrunFee⟩ := mirrors_collectFee hs.fees h.mirrors h.indexed (Ledger.isSome_of_run h.run h.fee)
  -- the fees are the last updates of the block
  have happly : m.apply request.accountsUpdated =
      (m.apply k.pendingBlock.accountUpdates).apply feeUpdates := by
    rw [hs.accounts, apply_append]
  have hrun : Run Ledger.Step m request.accountsUpdated (m.apply request.accountsUpdated) := by
    rw [happly, hs.accounts]
    exact h.run.append hrunFee
  rw [← happly] at hm
  obtain ⟨hfilter, hcount⟩ := h.ops.transactions
  refine ⟨⟨?_, ?_, ?_, ?_, ?_, ?_⟩, ?_, ?_, ?_⟩
  · rw [hs.number, hwrites.blockNumber]
  · rw [hs.priorityOps]
  · rw [hs.priorityOps, hs.transactions, hcount]
    exact h.next
  · rw [hs.transactions, hfilter]
    exact h.ops.numbered
  · have hsplit : request.accountsUpdated =
        k.pendingBlock.accountUpdates.take k.pendingBlock.storedAccountUpdates ++
          request.accountsUpdated.drop k.pendingBlock.storedAccountUpdates := by
      rw [hs.accounts, ← List.take_append_of_le_length h.stored_le, List.take_append_drop]
    have hslices : Concatenate 0 _
        (_ ++ request.accountsUpdated.drop k.pendingBlock.storedAccountUpdates) := h.slices.append
    rw [List.length_take, Nat.min_eq_left h.stored_le, Nat.zero_add, ← hsplit,
      ← hs.updates_eq] at hslices
    exact hslices
  · refine hm.root (hpaid.hashed h.hashed) ?_
    unfold ZkSyncState.root
    rw [hs.root]
    rfl
  · have hm' := hm.rootHash hs.root
    exact ⟨⟨hm'.1, hm'.2, hm'.3, hm'.4⟩, .nil _, Ledger.isSome_of_run hrun h.fee,
      hwrites.indexed h.indexed, hwrites.hashed h.hashed,
      ⟨rfl, rfl, fun op hop => absurd hop List.not_mem_nil,
        fun tx htx => absurd htx List.not_mem_nil⟩,
      (UInt64.add_zero _).symm, rfl, Nat.le_refl _⟩
  · show blockNumber = _
    rw [u32Increment_eq_ok hnumber, hwrites.blockNumber]
  · rw [hs.priorityOps]
    rfl

/-- What one call means for the stream. -/
inductive StreamEffect (env : Env) (m : Ledger) (slices : List AppliedUpdatesRequest)
    (k k' : ZkSyncStateKeeper) : KeeperReply → Prop
  | silent {reply : KeeperReply} (inv : StreamInv env m slices k') (place : SamePlace k k')
      (none : reply.sent = []) : StreamEffect env m slices k k' reply
  | stored {pendingBlock : SendablePendingBlock} {updates : AppliedUpdatesRequest}
      (inv : StreamInv env m (slices ++ [updates]) k') (place : SamePlace k k') :
      StreamEffect env m slices k k' (.stored pendingBlock updates)
  | sealed {request : BlockCommitRequest} {updates : AppliedUpdatesRequest}
      (follows : SealedBlock.Follows env k.state.blockNumber
        k.pendingBlock.unprocessedPriorityOpBefore m ⟨request, slices ++ [updates]⟩)
      (inv : StreamInv env (m.apply request.accountsUpdated) [] k')
      (number : k'.state.blockNumber = k.state.blockNumber + 1)
      (before : k'.pendingBlock.unprocessedPriorityOpBefore =
        request.block.processedPriorityOps.2) :
      StreamEffect env m slices k k' (.sealed request updates)

theorem samePlace_countIteration (k : ZkSyncStateKeeper) : SamePlace k k.countIteration := by
  unfold ZkSyncStateKeeper.countIteration
  split <;> exact ⟨rfl, rfl⟩

/-- Every call keeps the invariant. -/
theorem StreamInv.step (hz : env.NoZeroSigner) (h : StreamInv env m slices k)
    {e : KeeperCall × KeeperReply} (howned : e.1.OwnedExit k) (hstep : KeeperStep env k e k') :
    StreamEffect env m slices k k' e.2 := by
  obtain ⟨call, reply⟩ := e
  have heff := hstep.effect
  dsimp only at howned heff ⊢
  cases heff with
  | full counted =>
    exact .silent (h.counted counted) ⟨rfl, counted.pushedBy.before⟩ rfl
  | @priorityOp op nonExecutedOp gasCounter success state e p next _ _ _ executed pushed counter =>
    -- the updates land on the mirror as they did on the state
    have hpush : PushedBy success.updates 1 k.pendingBlock p := by
      have hpush := pushedBy_pushSuccess (by exact fun _ => rfl) (by exact fun _ => rfl) pushed
      obtain ⟨_, _, -, -, rfl, -⟩ := PendingBlock.pushSuccess_eq_ok.mp pushed
      exact (PushedBy.refl k.pendingBlock).trans ⟨hpush.1, hpush.2, hpush.3, hpush.4,
        fun hp => hpush.5 ⟨hp.1, hp.2, hp.3, hp.4⟩⟩
    have hw : Writes env.hasher k.state state := (Step.priorityOp executed).writes
    exact .silent (h.push hpush hw
      ((executePriorityOp_effect executed).mirrors h.mirrors h.indexed howned)
      (u64Increment_eq_ok counter)) ⟨hw.blockNumber, hpush.before⟩ rfl
  | @tx tx chunksNeeded p p' result state e _ _ admitted executed pushed =>
    have hpush := (PendingBlock.counted_admitTx admitted).pushedBy.trans
      (pushedBy_pushTxResult pushed)
    rw [List.nil_append] at hpush
    cases result with
    | ok success =>
      have hexec := executeTx_of_result executed
      have hw : Writes env.hasher k.state state := (Step.txOk hexec).writes
      exact .silent (h.push hpush hw ((executeTx_effect hexec).mirrors hz h.mirrors h.indexed)
        (UInt64.add_zero _).symm) ⟨hw.blockNumber, hpush.before⟩ rfl
    | error error =>
      obtain rfl := state_of_failed executed
      exact .silent (h.push hpush .refl ⟨h.mirrors, .nil _⟩ (UInt64.add_zero _).symm)
        ⟨rfl, hpush.before⟩ rfl
  | @batch txs batchId chunksNeeded p p' results state ops _ _ admitted executed pushed =>
    have hpush := (PendingBlock.counted_admitBatch admitted).pushedBy.trans
      (pushedBy_pushBatchResults pushed)
    rw [List.nil_append, updatesOf_succeeded] at hpush
    have hw : Writes env.hasher k.state state := (Step.batch executed).writes
    exact .silent (h.push hpush hw (mirrors_batch hz executed h.mirrors h.indexed)
      (UInt64.add_zero _).symm) ⟨hw.blockNumber, hpush.before⟩ rfl
  | sealed before hseal =>
    -- the slice that is sent ends where the block ends
    rcases before with ⟨-, rfl⟩ | ⟨-, rfl⟩
    · obtain ⟨hfollows, hinv, hnumber, hbefore⟩ := h.seal hseal
      exact .sealed hfollows hinv hnumber hbefore
    · obtain ⟨hfollows, hinv, hnumber, hbefore⟩ := h.countIteration.seal hseal
      obtain ⟨hn, hb⟩ := samePlace_countIteration k
      rw [hn, hb] at hfollows
      rw [hn] at hnumber
      exact .sealed hfollows hinv hnumber hbefore
  | @stored pendingBlock updates _ hstore =>
    -- what is stored is the slice from the last one on
    have hc := h.countIteration
    obtain ⟨hle, -, hupdates, rfl⟩ := storePendingBlock_eq_ok hstore
    refine .stored ⟨hc.1, hc.2, hc.3, hc.4, hc.5, ⟨hc.6.1, hc.6.2, hc.6.3, hc.6.4⟩, hc.7, ?_,
      Nat.le_refl _⟩ (samePlace_countIteration k)
    have hslices : Concatenate 0 _ (_ ++ k.countIteration.pendingBlock.accountUpdates.drop
        k.countIteration.pendingBlock.storedAccountUpdates) := hc.slices.append
    rw [List.length_take, Nat.min_eq_left hle, Nat.zero_add, List.take_append_drop,
      ← hupdates] at hslices
    rw [List.take_length]
    exact hslices

/-! ## Runs -/

/-- From a keeper that keeps the invariant, every run sends blocks that follow
each other. -/
theorem StreamInv.streamOk (hz : env.NoZeroSigner) {tr : List (KeeperCall × KeeperReply)}
    (hrun : Run (fun k e k' => e.1.OwnedExit k ∧ KeeperStep env k e k') k tr k') :
    ∀ {m : Ledger} {slices : List AppliedUpdatesRequest}, StreamInv env m slices k →
      StreamOk env k.state.blockNumber k.pendingBlock.unprocessedPriorityOpBefore m
        (sealedBlocks slices (sentBy tr)) := by
  induction hrun with
  | nil => exact fun _ => trivial
  | @cons k k₁ k' e tr hstep _ ih =>
    intro m slices h
    obtain ⟨call, reply⟩ := e
    have hsent : sentBy ((call, reply) :: tr) = reply.sent ++ sentBy tr := List.flatMap_cons
    have heff := h.step hz hstep.1 hstep.2
    rw [hsent]
    dsimp only at heff
    cases heff with
    | silent inv place none =>
      rw [none, ← place.1, ← place.2]
      exact ih inv
    | stored inv place =>
      rw [← place.1, ← place.2]
      exact ih inv
    | sealed follows inv number before =>
      refine ⟨follows, ?_⟩
      rw [← number, ← before]
      exact ih inv

end Invariant

section New

variable {env : Env} {accounts : AList fun _ : AccountId => Account} {lastBlockNumber : BlockNumber}
  {unprocessedPriorityOp : UInt64} {feeAccountAddress : Address} {sizes : List Nat}
  {maxMini fastMini maxWithdrawals : Nat} {k₀ k : ZkSyncStateKeeper}

/-- A new keeper has pushed nothing. -/
theorem streamInv_new (hnew : ZkSyncStateKeeper.new env (ZkSyncStateInitParams.fromAccMap env.hasher
      accounts lastBlockNumber unprocessedPriorityOp) feeAccountAddress sizes maxMini fastMini
      maxWithdrawals = .ok k) :
    StreamInv env (fun id => accounts.lookup id) [] k ∧
      k.state.blockNumber = lastBlockNumber + 1 ∧
      k.pendingBlock.unprocessedPriorityOpBefore = unprocessedPriorityOp := by
  obtain ⟨blockNumber, feeAccountId, maxBlockSize, hok, ⟨hash, hroot⟩, hk⟩ :=
    ZkSyncStateKeeper.new_eq_ok hnew
  let s₀ : ZkSyncState := { ZkSyncState.fromAccMap env.hasher accounts lastBlockNumber with
    blockNumber := blockNumber }
  have hindexed : Indexed s₀ := indexed_fromAccMap env.hasher accounts lastBlockNumber
  have hhashed : Hashed env.hasher s₀ := hashed_fromAccMap env.hasher accounts lastBlockNumber
  have hwrites : Writes env.hasher s₀ k.state := .single (.hash hroot)
  have hm : Mirrors (fun id => accounts.lookup id) s₀ := by
    have hself := mirrors_self hindexed
    have hget : s₀.getAccount = fun id => accounts.lookup id :=
      funext fun id => getAccount_fromAccMap env.hasher accounts lastBlockNumber id
    rw [hget] at hself
    exact hself
  refine ⟨⟨?_, ?_, ?_, hwrites.indexed hindexed, hwrites.hashed hhashed, ?_, ?_, ?_, ?_⟩, ?_, ?_⟩
  · rw [hk]
    exact hm.rootHash hroot
  · rw [hk]
    exact .nil _
  · obtain ⟨account, hfee⟩ := hok.feeAccount
    rw [hk]
    exact hm.indexed (ZkSyncState.getAccountByAddress_eq_some s₀ hfee).1
  · rw [hk]
    exact ⟨rfl, rfl, fun op hop => absurd hop List.not_mem_nil,
      fun tx htx => absurd htx List.not_mem_nil⟩
  · rw [hk]
    exact (UInt64.add_zero _).symm
  · rw [hk]
    rfl
  · rw [hk]
    exact Nat.le_refl _
  · rw [hwrites.blockNumber]
    exact u32Increment_eq_ok hok.nextBlock
  · rw [hk]
    rfl

/-- The blocks of every run whose full exits reach only accounts that the index
knows: numbers and priority operations are contiguous, operations are numbered
in order, the slices of a block make its updates, and the updates lead to
accounts with the new root hash. -/
theorem sealed_blocks_consistent (hz : env.NoZeroSigner)
    (hnew : ZkSyncStateKeeper.new env (ZkSyncStateInitParams.fromAccMap env.hasher accounts
      lastBlockNumber unprocessedPriorityOp) feeAccountAddress sizes maxMini fastMini
      maxWithdrawals = .ok k₀) {tr : List (KeeperCall × KeeperReply)}
    (hrun : Run (fun k e k' => e.1.OwnedExit k ∧ KeeperStep env k e k') k₀ tr k) :
    StreamOk env (lastBlockNumber + 1) unprocessedPriorityOp (fun id => accounts.lookup id)
      (sealedBlocks [] (sentBy tr)) := by
  obtain ⟨hinv, hnumber, hbefore⟩ := streamInv_new hnew
  rw [← hnumber, ← hbefore]
  exact hinv.streamOk hz hrun

end New

/-! ### An exit of a leftover account -/

/-- Of a tree, this hasher sees whether the leaf at index 1 has a bit. -/
def leafOne : Hasher Fr where
  hashBits := fun bits => if bits.any id then 1 else 0
  hashElements := fun elements => elements.headD 0
  compress := fun lhs rhs height => if height = 0 then rhs else lhs

/-- With this hasher only one leaf matters. -/
theorem treeHash_leafOne {T : Type} {P : TreeParams T Fr} (hP : P.hasher = leafOne)
    {leaf : Nat → T} : ∀ (height index : Nat) {hash : Fr},
      treeHash P leaf (height + 1) index = .ok hash →
      ∃ bits, P.getBitsLe (leaf (index * 2 ^ (height + 1) + 1)) = .ok bits ∧
        hash = leafOne.hashBits bits := by
  intro height
  induction height with
  | zero =>
    intro index hash h
    rw [treeHash, treeHash, treeHash, hP] at h
    simp only [Outcome.bind_eq_ok, Outcome.map_eq_ok] at h
    obtain ⟨lhs, -, rhs, ⟨bits, hbits, hrhs⟩, h⟩ := h
    refine ⟨bits, by rw [Nat.zero_add, Nat.pow_one, Nat.mul_comm]; exact hbits, ?_⟩
    rw [hrhs]
    exact (Except.ok.inj h).symm
  | succ height ih =>
    intro index hash h
    rw [treeHash, hP] at h
    simp only [Outcome.bind_eq_ok] at h
    obtain ⟨lhs, hlhs, rhs, -, h⟩ := h
    obtain ⟨bits, hbits, hhash⟩ := ih (2 * index) hlhs
    have hpow : 2 * index * 2 ^ (height + 1) = index * 2 ^ (height + 1 + 1) := by
      rw [Nat.pow_succ 2 (height + 1), Nat.mul_comm 2 index, Nat.mul_assoc,
        Nat.mul_comm 2 (2 ^ (height + 1))]
    rw [hpow] at hbits
    refine ⟨bits, hbits, ?_⟩
    rw [← hhash]
    exact (Except.ok.inj h).symm

/-- The bits of an account show whether it has a balance of token 1. -/
theorem bits_leafOne {a : Account} {bits : List Bool} (h : a.getBitsLe leafOne = .ok bits) :
    bits = (Fr.fromNat a.nonce.toNat).getBitsLeFixed 32 ++
      (Fr.fromNat a.pubKeyHash.toNat).getBitsLeFixed 160 ++
      (Fr.fromNat a.address.toNat).getBitsLeFixed 160 ++
      ((leafOne.hashBits ((((a.balances.lookup 1).map Fr.fromNat).getD (Fr.fromNat 0)).getBitsLeFixed
        128)).getBitsLeFixed 254 ++ [false, false]) := by
  by_cases hfits : a.Fits
  · rw [Account.getBitsLe_of_fits leafOne hfits, SparseMerkleTree.fullRoot_eq_treeHash fun i => rfl,
      Outcome.bind_eq_ok] at h
    obtain ⟨balanceRoot, hroot, h⟩ := h
    obtain ⟨balanceBits, hbits, hhash⟩ := treeHash_leafOne (P := balanceParams leafOne) rfl 10 0 hroot
    have hlookup : a.balanceItems.lookup 1 = (a.balances.lookup 1).map Fr.fromNat :=
      Account.lookup_balanceItems a (by decide)
    rw [Nat.zero_mul, Nat.zero_add, hlookup] at hbits
    have hbits' : (((a.balances.lookup 1).map Fr.fromNat).getD (Fr.fromNat 0)).getBitsLeFixed 128 =
        balanceBits := Except.ok.inj hbits
    rw [← Except.ok.inj h, hbits', ← hhash]
    rfl
  · rw [Account.getBitsLe_of_not_fits leafOne hfits] at h
    cases h

/-- An empty account has the hash zero. -/
theorem hash_default {bits : List Bool} (h : Account.default.getBitsLe leafOne = .ok bits) :
    leafOne.hashBits bits = 0 := by
  rw [bits_leafOne h]
  decide +kernel

/-- The account that the example is about has another one. -/
theorem hash_of_balance {a : Account} {bits : List Bool} (h : a.getBitsLe leafOne = .ok bits)
    (hbal : a.getBalance 1 = 5) : leafOne.hashBits bits = 1 := by
  have hlookup : a.balances.lookup 1 = some 5 := by
    unfold Account.getBalance at hbal
    cases hl : a.balances.lookup 1 with
    | none =>
      rw [hl] at hbal
      cases hbal
    | some b =>
      rw [hl] at hbal
      exact congrArg some hbal
  rw [bits_leafOne h, hlookup]
  rw [Option.map_some, Option.getD_some]
  have hone : ((leafOne.hashBits ((Fr.fromNat 5).getBitsLeFixed 128)).getBitsLeFixed 254).any id =
      true := by decide +kernel
  refine if_pos ?_
  simp only [List.any_append, hone, Bool.true_or, Bool.or_true]

/-- A release build with that hasher, where everything is signed by key 1. -/
def Env.leafOne : Env :=
  { Env.signedBy 1 with hasher := ZkSync.leafOne, overflowChecks := false }

/-- Its signatures are those of key 1. -/
theorem noZeroSigner_leafOne : Env.leafOne.NoZeroSigner :=
  noZeroSigner_signedBy (by decide : (1 : PubKeyHash) ≠ 0)

def leftoverAccounts : AList fun _ : AccountId => Account := AList.singleton 0 sampleAccount

def leftoverParams : ZkSyncStateInitParams :=
  .fromAccMap leafOne leftoverAccounts 0 0

/-- The keeper of a server with one account, before it asks for the root hash. -/
def leftoverKeeper : ZkSyncStateKeeper :=
  .unhashed leftoverParams 1 0 30 [6, 30] 10 2 5

theorem leftoverAccounts_fit {id : AccountId} {a : Account}
    (h : leftoverAccounts.lookup id = some a) : a.Fits := by
  rw [← getAccount_fromAccMap (Env.signedBy 1).hasher leftoverAccounts 0 id] at h
  exact sampleState_fits h

/-- A keeper over these accounts starts, and can be hashed. -/
theorem new_leftoverKeeper : ∃ k₀,
    ZkSyncStateKeeper.new Env.leafOne leftoverParams 1 [6, 30] 10 2 5 = .ok k₀ ∧
    KeeperAlike leftoverKeeper k₀ ∧ Hashable Env.leafOne k₀ :=
  Hashable.exists_new _ _ _ (fun _ _ => leftoverAccounts_fit)
    ⟨by decide, by decide, rfl, ⟨sampleAccount, rfl⟩, rfl⟩

/-- A deposit to a new account, and its block. -/
theorem sealed_blocks_consistent_deposit : ∃ k₀ k tr request updates,
    ZkSyncStateKeeper.new Env.leafOne leftoverParams 1 [6, 30] 10 2 5 = .ok k₀ ∧
    Run (fun k e k' => e.1.OwnedExit k ∧ KeeperStep Env.leafOne k e k') k₀ tr k ∧
    sealedBlocks [] (sentBy tr) = [⟨request, updates⟩] ∧
    StreamOk Env.leafOne 1 0 (fun id => leftoverAccounts.lookup id)
      (sealedBlocks [] (sentBy tr)) := by
  obtain ⟨k₀, hnew, halike, hhashable⟩ := new_leftoverKeeper
  let calls : List KeeperCall := [.priorityOp ⟨0, .Deposit ⟨7, 1, 5, 2⟩, 0, [], 0⟩]
  have hsum : ((leftoverKeeper.answers Env.leafOne calls).toOption.map fun r =>
      decide (r.2.pendingBlock.storedAccountUpdates = 0) &&
      decide (r.2.availableBlockChunkSizes = [6, 30]) &&
      decide (smallestBlockSizeForChunks (chunksOf (r.2.pendingBlock.successOperations ++
        r.2.pendingBlock.failedTxs.map ExecutedOperations.Tx)) [6, 30] = .ok 6) &&
      (r.2.state.collectFee r.2.pendingBlock.collectedFees r.2.feeAccountId).toOption.isSome) =
      some true := by decide +kernel
  obtain ⟨⟨tr, k₁⟩, hsome, hsum⟩ := Option.map_eq_some_iff.mp hsum
  simp only [Bool.and_eq_true, decide_eq_true_eq] at hsum
  obtain ⟨⟨⟨hstored, hsizes⟩, hsize⟩, hfees⟩ := hsum
  obtain ⟨⟨us, paid₁⟩, hpaid₁⟩ := Option.isSome_iff_exists.mp hfees
  have hentries : ∀ call ∈ calls, call.IsEntry := fun call hcall => by
    rw [List.mem_singleton.mp hcall]
    exact trivial
  obtain ⟨k, paid, hanswers, -, -, -, -, request, updates, k', hseal⟩ :=
    exists_sealed halike hhashable rfl hentries
      (fun call hcall => by rw [List.mem_singleton.mp hcall]; exact trivial)
      (Outcome.toOption_eq_some.mp hsome)
      (Outcome.toOption_eq_some.mp hpaid₁) (by rw [hsizes]; rfl) (by rw [hsizes]; exact hsize)
      (by rw [hstored]; exact Nat.zero_le _)
  obtain ⟨hrun, hcalls⟩ := answers_run hanswers
  have hrun' := (hrun.append (Run.single (sealStep hseal))).guard
    (P := fun k e => e.1.OwnedExit k) fun e he s => by
      rcases List.mem_append.mp he with he | he
      · have hmem : e.1 ∈ calls := hcalls ▸ List.mem_map_of_mem he
        rw [List.mem_singleton.mp hmem]
        exact trivial
      · rw [List.mem_singleton.mp he]
        exact trivial
  have hz : Env.leafOne.NoZeroSigner := fun _ h => absurd (Option.some.inj h) (by decide)
  refine ⟨k₀, k', _, request, [updates], hnew, hrun', ?_, sealed_blocks_consistent hz hnew hrun'⟩
  rw [sentBy_seal hentries hanswers]
  rfl

/-- Account 1 is created in a batch that fails. Then the zero address exits account
1, and deposits 5 units of token 1. -/
def leftoverCalls : List KeeperCall :=
  [.batch [⟨.Transfer (sampleTransfer 2 0), none⟩, ⟨.Transfer (sampleTransfer 2 0), none⟩] 0,
    .priorityOp ⟨0, .FullExit ⟨1, 0, 1⟩, 0, [], 0⟩,
    .priorityOp ⟨1, .Deposit ⟨7, 1, 5, 0⟩, 0, [], 0⟩]

/-- What the calls leave: two updates of account 1, no fees, and an account 1 with 5 units. -/
theorem leftover_summary : ((leftoverKeeper.answers Env.leafOne leftoverCalls).toOption.map fun r =>
    decide (r.2.pendingBlock.accountUpdates =
      [(1, .UpdateBalance 0 0 (1, 0, 0)), (1, .UpdateBalance 0 0 (1, 0, 5))]) &&
    decide (r.2.pendingBlock.storedAccountUpdates = 0) &&
    decide (r.2.availableBlockChunkSizes = [6, 30]) &&
    decide (smallestBlockSizeForChunks (chunksOf (r.2.pendingBlock.successOperations ++
      r.2.pendingBlock.failedTxs.map ExecutedOperations.Tx)) [6, 30] = .ok 30) &&
    decide ((r.2.state.collectFee r.2.pendingBlock.collectedFees r.2.feeAccountId).toOption.map
      (fun p => (p.1, (p.2.getAccount 1).map (·.getBalance 1))) = some ([], some 5))) =
    some true := by
  decide +kernel

/-- The account updates of the sealed block lead to accounts without account 1,
where the state has one with 5 units. -/
theorem exit_of_leftover : ∃ k₀ k tr,
    ZkSyncStateKeeper.new Env.leafOne leftoverParams 1 [6, 30] 10 2 5 = .ok k₀ ∧
    Run (KeeperStep Env.leafOne) k₀ tr k ∧ tr.map Prod.fst = leftoverCalls ++ [.sealBlock] ∧
    ¬ StreamOk Env.leafOne 1 0 (fun id => leftoverAccounts.lookup id)
      (sealedBlocks [] (sentBy tr)) := by
  obtain ⟨k₀, hnew, halike, hhashable⟩ := new_leftoverKeeper
  obtain ⟨⟨tr', k₁⟩, hsome, hsum⟩ := Option.map_eq_some_iff.mp leftover_summary
  simp only [Bool.and_eq_true, decide_eq_true_eq] at hsum
  obtain ⟨⟨⟨⟨hupdates, hstored⟩, hsizes⟩, hsize⟩, hfees⟩ := hsum
  have hentries : ∀ call ∈ leftoverCalls, call.IsEntry := by
    intro call hcall
    simp only [leftoverCalls, List.mem_cons, List.not_mem_nil, or_false] at hcall
    rcases hcall with rfl | rfl | rfl <;> exact trivial
  have htok : ∀ call ∈ leftoverCalls, call.FeeTokenOk := by
    intro call hcall
    simp only [leftoverCalls, List.mem_cons, List.not_mem_nil, or_false] at hcall
    rcases hcall with rfl | rfl | rfl
    · intro request hrequest
      simp only [List.mem_cons, List.not_mem_nil, or_false] at hrequest
      rcases hrequest with rfl | rfl <;> exact trivial
    · exact trivial
    · exact trivial
  obtain ⟨⟨us, paid₁⟩, hpaid₁, hsum⟩ := Option.map_eq_some_iff.mp hfees
  obtain ⟨rfl, hbalance⟩ := Prod.mk.inj hsum
  obtain ⟨k, paid, hanswers, hk, hashable, hpaid, hlike, request, updates, k', hseal⟩ :=
    exists_sealed halike hhashable rfl hentries htok (Outcome.toOption_eq_some.mp hsome)
      (Outcome.toOption_eq_some.mp hpaid₁) (by rw [hsizes]; rfl) (by rw [hsizes]; exact hsize)
      (by rw [hstored]; exact Nat.zero_le _)
  have hpending : k.pendingBlock = k₁.pendingBlock := by rw [show k = _ from hk.rest]
  obtain ⟨hrun, hcalls⟩ := answers_run hanswers
  refine ⟨k₀, k', tr' ++ [(.sealBlock, .sealed request updates)], hnew,
    hrun.append (Run.single (sealStep hseal)), by rw [List.map_append, hcalls]; rfl, ?_⟩
  rw [sentBy_seal hentries hanswers]
  rintro ⟨hfollows, -⟩
  obtain ⟨feeUpdates, paid', hashed, _, _, hs, -⟩ := sealPendingBlock_eq_ok hseal
  obtain ⟨rfl, rfl⟩ : feeUpdates = [] ∧ paid' = paid := by
    have h := hs.fees
    rw [hpaid] at h
    cases h
    exact ⟨rfl, rfl⟩
  -- in the state, account 1 has 5 units
  have hone : request.block.newRootHash = 1 := by
    have hroot : Prod.fst <$> paid'.rootHash leafOne = .ok request.block.newRootHash := by
      rw [show paid'.rootHash leafOne = _ from hs.root]
      rfl
    have hpaidHashed : Hashed leafOne paid' :=
      (Step.collectFee hpaid : Step Env.leafOne _ _ _).writes.hashed hashable.hashed
    rw [rootHash_eq_fullRoot hpaidHashed,
      SparseMerkleTree.fullRoot_eq_treeHash fun i => rfl] at hroot
    obtain ⟨bits, hbits, hhash⟩ := treeHash_leafOne (P := accountParams leafOne) rfl 31 0 hroot
    rw [Nat.zero_mul, Nat.zero_add, AccountTree.lookup_items, if_pos (by decide)] at hbits
    obtain ⟨a₁, ha₁, hbal⟩ := Option.map_eq_some_iff.mp hbalance
    obtain ⟨a, ha, hequiv⟩ : ∃ a, paid'.getAccount 1 = some a ∧ a₁.Equiv a := by
      have hrel := hlike.accounts 1
      rw [ha₁] at hrel
      generalize paid'.getAccount 1 = o at hrel
      cases hrel with
      | some h => exact ⟨_, rfl, h⟩
    have ha' : paid'.balanceTree.get (UInt32.ofNat 1) = some a := ha
    rw [ha'] at hbits
    rw [hhash]
    exact hash_of_balance (a := a) hbits (by rw [← hequiv.balance, hbal])
  -- in the stored accounts there is no account 1
  have hzero : request.block.newRootHash = 0 := by
    have hroot := hfollows.root
    have haccounts : request.accountsUpdated =
        [(1, .UpdateBalance 0 0 (1, 0, 0)), (1, .UpdateBalance 0 0 (1, 0, 5))] := by
      rw [hs.accounts, List.append_nil, hpending, hupdates]
    obtain ⟨bits, hbits, hhash⟩ := treeHash_leafOne (P := accountParams leafOne) rfl 31 0 hroot
    rw [haccounts] at hbits
    rw [hhash]
    exact hash_default hbits
  rw [hone] at hzero
  exact absurd hzero (by decide)

end ZkSync
