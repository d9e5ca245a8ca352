import ZkSync.Core.BlockFunds
import ZkSync.Core.BlockProposer
import ZkSync.Core.Retry

/-!
# From the mempool to the blocks

The block proposer takes transactions from the queue of the mempool and priority operations
from the watcher, and posts what it proposes to the mailbox of the state keeper. The keeper
works through its mailbox in its own time, files what it executed in the pending block and
seals blocks. `Pipeline` is the three of them, with the messages between them, and any
interleaving is a run of it.

Three buffers stand one behind the other: the queue, the mailbox and the pending block. Each
passes things on in their order (`Run.flow`), so together they do: every transaction that
the mempool admitted is in the queue, in the mailbox, or was executed, once and in its turn,
and what was executed is in a sealed block or in the pending one (`transactions_kept`). The
priority operations of the blocks are those with the next serial ids, and the interval that
a block declares is that of its ids (`requests_in_turn`).
-/

namespace ZkSync

/-! ## What is submitted -/

/-- What a user submits, or the contract announces. -/
inductive Submitted where
  | user (signed : SignedZkSyncTx)
  | contract (op : PriorityOp)

/-- The transaction of a user, if it is one. -/
def Submitted.tx : Submitted → Option SignedZkSyncTx
  | .user signed => some signed
  | .contract _ => none

/-- The request of the contract, if it is one. -/
def Submitted.request : Submitted → Option PriorityOp
  | .user _ => none
  | .contract op => some op

/-- What an executed operation was executed for. -/
def ExecutedOperations.submitted : ExecutedOperations → Submitted
  | .Tx executed => .user executed.signedTx
  | .PriorityOp executed => .contract executed.priorityOp

/-- What a call brings to the keeper; a batch brings its transactions in order. -/
def KeeperCall.submitted : KeeperCall → List Submitted
  | .priorityOp op => [.contract op]
  | .tx signed => [.user signed]
  | .batch txs _ => txs.map .user
  | _ => []

/-- The transactions of an entry of the queue. -/
def SignedTxVariant.txs : SignedTxVariant → List SignedZkSyncTx
  | .Tx signed => [signed]
  | .Batch batch => batch.txs

/-- The calls that a request of the mailbox asks for, up to those that seal. -/
def StateKeeperRequest.calls : StateKeeperRequest → List KeeperCall
  | .ExecuteMiniBlock block => block.calls
  | .SealBlock => []

/-- What a request brings to the keeper, priority operations first. -/
def StateKeeperRequest.submitted (request : StateKeeperRequest) : List Submitted :=
  request.calls.flatMap KeeperCall.submitted

/-! ## One call -/

/-- The successes of a pending block, or its failures. -/
def PendingBlock.withOutcome (p : PendingBlock) : Bool → List ExecutedOperations
  | true => p.successOperations
  | false => p.failedTxs.map .Tx

/-- The successes of a block, or its failures. -/
def Block.withOutcome (block : Block) (outcome : Bool) : List ExecutedOperations :=
  block.blockTransactions.filter (·.isSuccessful == outcome)

/-- Results were filed at the ends of the two lists. -/
structure Filed (p : PendingBlock) (results : List ExecutedOperations) (p' : PendingBlock) :
    Prop where
  lists : ∀ outcome, p'.withOutcome outcome =
    p.withOutcome outcome ++ results.filter (·.isSuccessful == outcome)
  before : p'.unprocessedPriorityOpBefore = p.unprocessedPriorityOpBefore

/-- The priority operations among the executed. -/
def requestsIn (ops : List ExecutedOperations) : List PriorityOp :=
  ops.filterMap fun op => op.submitted.request

section Filing

variable {overflowChecks : Bool} {p p' p'' : PendingBlock} {es es' : List ExecutedOperations}

theorem Filed.refl (p : PendingBlock) : Filed p [] p :=
  ⟨fun _ => (List.append_nil _).symm, rfl⟩

/-- What is filed in two steps is filed in their order. -/
theorem Filed.trans (h : Filed p es p') (h' : Filed p' es' p'') : Filed p (es ++ es') p'' := by
  refine ⟨fun outcome => ?_, h'.before.trans h.before⟩
  rw [h'.lists, h.lists, List.filter_append, List.append_assoc]

/-- Counting files nothing. -/
theorem Filed.of_counted (h : Counted p p') : Filed p [] p' := by
  rw [h]
  refine ⟨fun outcome => ?_, rfl⟩
  cases outcome <;> exact (List.append_nil _).symm

/-- A success is filed behind what is there. -/
theorem filed_pushSuccess {chunksNeeded : Nat} {success : OpSuccess}
    {executed : UInt32 → ExecutedOperations} {e : ExecutedOperations}
    (hsucc : ∀ i, (executed i).isSuccessful)
    (h : p.pushSuccess overflowChecks chunksNeeded success executed = .ok (e, p')) :
    Filed p [e] p' := by
  obtain ⟨_, _, -, -, rfl, rfl⟩ := PendingBlock.pushSuccess_eq_ok.mp h
  refine ⟨fun outcome => ?_, rfl⟩
  have hsucc := hsucc p.pendingOpBlockIndex
  cases outcome with
  | true =>
    rw [List.filter_cons_of_pos (by simpa using hsucc)]
    rfl
  | false =>
    rw [List.filter_cons_of_neg (by simpa using hsucc)]
    exact (List.append_nil _).symm

/-- A failure is filed with the failures. -/
theorem filed_pushTxResult {chunksNeeded : Nat} {batchId : Option Int} {tx : SignedZkSyncTx}
    {result : Except String OpSuccess} {e : ExecutedOperations}
    (h : p.pushTxResult overflowChecks chunksNeeded batchId tx result = .ok (e, p')) :
    Filed p [e] p' ∧ e.submitted = .user tx := by
  cases result with
  | ok success =>
    unfold PendingBlock.pushTxResult at h
    refine ⟨filed_pushSuccess (by exact fun _ => rfl) h, ?_⟩
    obtain ⟨_, _, -, -, rfl, -⟩ := PendingBlock.pushSuccess_eq_ok.mp h
    rfl
  | error error =>
    cases h
    refine ⟨⟨fun outcome => ?_, rfl⟩, rfl⟩
    cases outcome with
    | true => exact (List.append_nil _).symm
    | false => exact List.map_append

/-- The results of a batch are filed in its order, failures as well. -/
theorem filed_pushBatchResults {chunksNeeded : Nat} {batchId : Int}
    {results : List (SignedZkSyncTx × Except String OpSuccess)}
    (h : p.pushBatchResults overflowChecks chunksNeeded batchId results = .ok (es, p')) :
    Filed p es p' ∧ es.map (·.submitted) = (results.map (·.1)).map Submitted.user := by
  induction results generalizing p es with
  | nil =>
    cases h
    exact ⟨.refl _, rfl⟩
  | cons r results ih =>
    obtain ⟨tx, result⟩ := r
    unfold PendingBlock.pushBatchResults at h
    simp only [Outcome.bind_eq_ok] at h
    obtain ⟨⟨e, p₁⟩, h₁, ⟨es', p₂⟩, h₂, h⟩ := h
    cases h
    obtain ⟨hfiled, hsubmitted⟩ := filed_pushTxResult h₁
    obtain ⟨hrest, hrestSubmitted⟩ := ih h₂
    refine ⟨hfiled.trans hrest, ?_⟩
    rw [List.map_cons, List.map_cons, List.map_cons, hsubmitted, hrestSubmitted]

/-- A batch has as many results as transactions. -/
theorem length_batchResults {env : Env} {s s' : ZkSyncState} {txs : List SignedZkSyncTx}
    {results : BatchResults} (h : s.executeTxsBatch env txs = .ok (results, s')) :
    results.length = txs.length := by
  cases executeTxsBatch_outcome h with
  | done batch run =>
    have hlength := congrArg List.length batch
    simp only [List.length_map] at hlength ⊢
    exact hlength.symm
  | undone => exact List.length_replicate

/-- Nothing of a batch is left out. -/
theorem filed_batch {env : Env} {s s' : ZkSyncState} {txs : List SignedZkSyncTx}
    {results : BatchResults} {chunksNeeded : Nat} {batchId : Int}
    (hexec : s.executeTxsBatch env txs = .ok (results, s'))
    (h : p.pushBatchResults overflowChecks chunksNeeded batchId (txs.zip results) = .ok (es, p')) :
    Filed p es p' ∧ es.map (·.submitted) = txs.map Submitted.user := by
  obtain ⟨hfiled, hsubmitted⟩ := filed_pushBatchResults h
  have hzip : (txs.zip results).map (·.1) = txs := List.map_fst_zip (length_batchResults hexec).ge
  rw [hzip] at hsubmitted
  exact ⟨hfiled, hsubmitted⟩

end Filing

/-- What a call does to the results in the pending block, and to the counter of requests. -/
inductive FiledStep (k k' : ZkSyncStateKeeper) : KeeperReply → Prop
  | filed {reply : KeeperReply} (unsealed : ¬ reply.IsSealed)
      (filed : Filed k.pendingBlock reply.results k'.pendingBlock)
      (counter : k'.currentUnprocessedPriorityOp =
        k.currentUnprocessedPriorityOp + UInt64.ofNat (requestsIn reply.results).length) :
      FiledStep k k' reply
  | sealed {request : BlockCommitRequest} {updates : AppliedUpdatesRequest}
      (transactions : request.block.blockTransactions =
        k.pendingBlock.withOutcome true ++ k.pendingBlock.withOutcome false)
      (priorityOps : request.block.processedPriorityOps =
        (k.pendingBlock.unprocessedPriorityOpBefore, k.currentUnprocessedPriorityOp))
      (empty : ∀ outcome, k'.pendingBlock.withOutcome outcome = [])
      (before : k'.pendingBlock.unprocessedPriorityOpBefore = k.currentUnprocessedPriorityOp)
      (counter : k'.currentUnprocessedPriorityOp = k.currentUnprocessedPriorityOp) :
      FiledStep k k' (.sealed request updates)

section Calls

variable {env : Env} {k k' : ZkSyncStateKeeper}

theorem filed_countIteration (k : ZkSyncStateKeeper) :
    Filed k.pendingBlock [] k.countIteration.pendingBlock := by
  unfold ZkSyncStateKeeper.countIteration
  split
  · refine ⟨fun outcome => ?_, rfl⟩
    cases outcome <;> exact (List.append_nil _).symm
  · exact .refl _

/-- Transactions are no requests. -/
theorem requestsIn_txs {ops : List ExecutedOperations} {txs : List SignedZkSyncTx}
    (h : ops.map (·.submitted) = txs.map Submitted.user) : requestsIn ops = [] := by
  have hmap : requestsIn ops = (ops.map (·.submitted)).filterMap Submitted.request := by
    rw [List.filterMap_map]
    rfl
  rw [hmap, h, List.filterMap_map]
  exact List.filterMap_eq_nil_iff.mpr fun _ _ => rfl

/-- A call that is not refused executes what was submitted with it. -/
theorem submitted_step {call : KeeperCall} {reply : KeeperReply}
    (hstep : KeeperStep env k (call, reply) k') (hfull : reply ≠ .full) :
    reply.results.map (·.submitted) = call.submitted := by
  have heff := hstep.effect
  dsimp only at heff
  cases heff with
  | full => exact absurd rfl hfull
  | priorityOp _ _ _ executed pushed =>
    obtain ⟨_, _, -, -, rfl, -⟩ := PendingBlock.pushSuccess_eq_ok.mp pushed
    rfl
  | tx _ _ _ executed pushed => exact congrArg (fun x => [x]) (filed_pushTxResult pushed).2
  | batch _ _ _ executed pushed => exact (filed_batch executed pushed).2
  | sealed before => rcases before with ⟨rfl, -⟩ | ⟨rfl, -⟩ <;> rfl
  | stored => rfl

/-- What the keeper was given is filed, or was refused for want of room. -/
theorem filed_step {e : KeeperCall × KeeperReply} (hstep : KeeperStep env k e k') :
    FiledStep k k' e.2 := by
  obtain ⟨call, reply⟩ := e
  have heff := hstep.effect
  dsimp only at heff ⊢
  cases heff with
  | full counted => exact .filed id (.of_counted counted) (UInt64.add_zero _).symm
  | priorityOp _ _ _ executed pushed counter =>
    refine .filed id ?_ ?_
    · obtain ⟨hlists, hbefore⟩ := filed_pushSuccess (by exact fun _ => rfl) pushed
      exact ⟨fun outcome => by rw [hlists]; cases outcome <;> rfl, hbefore⟩
    · obtain ⟨_, _, -, -, rfl, -⟩ := PendingBlock.pushSuccess_eq_ok.mp pushed
      exact u64Increment_eq_ok counter
  | @tx tx _ _ _ _ _ _ _ _ admitted executed pushed =>
    obtain ⟨hfiled, hsubmitted⟩ := filed_pushTxResult pushed
    refine .filed id ((Filed.of_counted (PendingBlock.counted_admitTx admitted)).trans hfiled) ?_
    have hnone : requestsIn [_] = [] := requestsIn_txs (show _ = [tx].map _ from
      congrArg (fun x => [x]) hsubmitted)
    show _ = _ + UInt64.ofNat (requestsIn [_]).length
    rw [hnone]
    exact (UInt64.add_zero _).symm
  | @batch _ _ _ _ _ _ _ ops _ _ admitted executed pushed =>
    obtain ⟨hfiled, hsubmitted⟩ := filed_batch executed pushed
    refine .filed id ((Filed.of_counted (PendingBlock.counted_admitBatch admitted)).trans hfiled) ?_
    show _ = _ + UInt64.ofNat (requestsIn ops).length
    rw [requestsIn_txs hsubmitted]
    exact (UInt64.add_zero _).symm
  | @sealed _ request updates k₁ _ before hseal =>
    -- what was filed leaves with the block
    have hk : Filed k.pendingBlock [] k₁.pendingBlock ∧
        k₁.currentUnprocessedPriorityOp = k.currentUnprocessedPriorityOp := by
      rcases before with ⟨-, rfl⟩ | ⟨-, rfl⟩
      · exact ⟨.refl _, rfl⟩
      · exact ⟨filed_countIteration k, current_countIteration k⟩
    obtain ⟨hfiled, hcurrent⟩ := hk
    have hlists : ∀ outcome, k₁.pendingBlock.withOutcome outcome =
        k.pendingBlock.withOutcome outcome := by
      intro outcome
      rw [hfiled.lists, List.filter_nil, List.append_nil]
    obtain ⟨_, _, _, _, _, hs, -, -, rfl⟩ := sealPendingBlock_eq_ok hseal
    refine .sealed ?_ ?_ (fun outcome => by cases outcome <;> rfl) hcurrent hcurrent
    · rw [hs.transactions, ← hlists, ← hlists]
      rfl
    · rw [hs.priorityOps, hfiled.before, hcurrent]
  | stored hstore =>
    obtain ⟨-, -, -, rfl⟩ := storePendingBlock_eq_ok hstore
    have hfiled := filed_countIteration k
    refine .filed id ⟨fun outcome => ?_, hfiled.before⟩ ?_
    · refine Eq.trans ?_ (hfiled.lists outcome)
      cases outcome <;> rfl
    · exact (current_countIteration k).trans (UInt64.add_zero _).symm

end Calls

/-! ## The pending block as a buffer -/

/-- The results that a run brought. -/
def resultsOf (tr : List (KeeperCall × KeeperReply)) : List ExecutedOperations :=
  tr.flatMap (·.2.results)

/-- Successes are filed with successes, failures with failures. -/
def PendingBlock.Sorted (p : PendingBlock) : Prop :=
  ∀ outcome, ∀ op ∈ p.withOutcome outcome, op.isSuccessful = outcome

section Buffer

variable {env : Env} {k k' : ZkSyncStateKeeper} {tr : List (KeeperCall × KeeperReply)}

/-- Filing keeps the order of the pending block. -/
theorem Filed.sorted {p p' : PendingBlock} {es : List ExecutedOperations} (h : Filed p es p')
    (hp : p.Sorted) : p'.Sorted := by
  intro outcome op hop
  rw [h.lists] at hop
  rcases List.mem_append.mp hop with hop | hop
  · exact hp outcome op hop
  · simpa using (List.mem_filter.mp hop).2

/-- So does whatever the keeper does. -/
theorem sorted_step {e : KeeperCall × KeeperReply} (hstep : KeeperStep env k e k')
    (hk : k.pendingBlock.Sorted) : k'.pendingBlock.Sorted := by
  have hfiled := filed_step hstep
  generalize e.2 = reply at hfiled
  cases hfiled with
  | filed _ filed => exact filed.sorted hk
  | sealed _ _ empty =>
    intro outcome op hop
    rw [empty] at hop
    cases hop

/-- The two lists of a sorted pending block can be told apart after they were joined. -/
theorem PendingBlock.Sorted.filter {p : PendingBlock} (h : p.Sorted) (outcome : Bool) :
    (p.withOutcome true ++ p.withOutcome false).filter (·.isSuccessful == outcome) =
      p.withOutcome outcome := by
  have hself : ∀ b, (p.withOutcome b).filter (·.isSuccessful == b) = p.withOutcome b := by
    intro b
    refine List.filter_eq_self.mpr fun op hop => ?_
    simp [h b op hop]
  have hother : ∀ b, (p.withOutcome b).filter (·.isSuccessful == !b) = [] := by
    intro b
    refine List.filter_eq_nil_iff.mpr fun op hop => ?_
    simp [h b op hop]
  rw [List.filter_append]
  cases outcome with
  | true => rw [hself, show (true : Bool) = !false from rfl, hother, List.append_nil]
  | false => rw [hself, show (false : Bool) = !true from rfl, hother, List.nil_append]

/-- Blocks are collected call by call. -/
theorem blocksOf_flatMap (tr : List (KeeperCall × KeeperReply)) :
    blocksOf tr = tr.flatMap fun e => blocksOf [e] := by
  induction tr with
  | nil => rfl
  | cons e tr ih =>
    rw [← List.singleton_append, blocksOf_append, ih, List.flatMap_append, List.flatMap_singleton]

/-- What was executed leaves the pending block with the sealed blocks, in its order. -/
theorem results_flow (hrun : Run (KeeperStep env) k tr k') (hk : k.pendingBlock.Sorted)
    (outcome : Bool) :
    k.pendingBlock.withOutcome outcome ++ (resultsOf tr).filter (·.isSuccessful == outcome) =
      (blocksOf tr).flatMap (·.withOutcome outcome) ++ k'.pendingBlock.withOutcome outcome := by
  have hsorted : Run (fun k e k' => k.pendingBlock.Sorted ∧ KeeperStep env k e k') k tr k' := by
    exact Run.mono (I := fun k => k.pendingBlock.Sorted)
      (fun _ _ _ hk hstep => sorted_step hstep hk) (fun _ _ _ hk hstep => ⟨hk, hstep⟩) hrun hk
  have hflow := Run.flow (fun k : ZkSyncStateKeeper => k.pendingBlock.withOutcome outcome)
    (fun e : KeeperCall × KeeperReply => e.2.results.filter (·.isSuccessful == outcome))
    (fun e => (blocksOf [e]).flatMap (·.withOutcome outcome)) ?_ hsorted
  · rw [blocksOf_flatMap, List.flatMap_assoc, resultsOf, List.filter_flatMap]
    exact hflow
  · intro k e k' hstep
    obtain ⟨hk, hstep⟩ := hstep
    have hfiled := filed_step hstep
    obtain ⟨call, reply⟩ := e
    dsimp only at hfiled ⊢
    cases hfiled with
    | filed unsealed filed =>
      rw [filed.lists, blocksOf_unsealed unsealed]
      rfl
    | @sealed request updates transactions _ empty =>
      rw [empty]
      show _ ++ [] = (request.block.withOutcome outcome ++ []) ++ []
      rw [List.append_nil, List.append_nil, List.append_nil]
      unfold Block.withOutcome
      rw [transactions, hk.filter]

end Buffer

/-! ## Serial ids -/

/-- The serial ids go on from the first one. -/
def SerialsFrom (first : UInt64) (ops : List PriorityOp) : Prop :=
  ops.map (·.serialId) = (List.range ops.length).map fun i => first + UInt64.ofNat i

/-- Serial ids go on where those before have ended. -/
theorem serialsFrom_append {first : UInt64} {ops ops' : List PriorityOp} :
    SerialsFrom first (ops ++ ops') ↔
      SerialsFrom first ops ∧ SerialsFrom (first + UInt64.ofNat ops.length) ops' := by
  have hshift : ∀ i, first + UInt64.ofNat (ops.length + i) =
      first + UInt64.ofNat ops.length + UInt64.ofNat i := by
    intro i
    rw [UInt64.ofNat_add, UInt64.add_assoc]
  unfold SerialsFrom
  rw [List.map_append, List.length_append, List.range_add, List.map_append, List.map_map,
    Function.comp_def]
  simp only [hshift]
  constructor
  · intro h
    exact List.append_inj h (by rw [List.length_map, List.length_map, List.length_range])
  · intro h
    rw [h.1, h.2]

/-- The blocks execute requests with the next serial ids, and each declares the interval of
its own. -/
def BlocksInTurn : UInt64 → List Block → UInt64 → Prop
  | first, [], next => next = first
  | first, block :: blocks, next =>
    SerialsFrom first (requestsIn block.blockTransactions) ∧
    block.processedPriorityOps =
      (first, first + UInt64.ofNat (requestsIn block.blockTransactions).length) ∧
    BlocksInTurn block.processedPriorityOps.2 blocks next

/-- So does the pending block, up to the counter of the keeper. -/
structure PendingInTurn (k : ZkSyncStateKeeper) : Prop where
  serials : SerialsFrom k.pendingBlock.unprocessedPriorityOpBefore
    (requestsIn k.pendingBlock.successOperations)
  current : k.currentUnprocessedPriorityOp = k.pendingBlock.unprocessedPriorityOpBefore +
    UInt64.ofNat (requestsIn k.pendingBlock.successOperations).length

section Turns

variable {env : Env} {k k' : ZkSyncStateKeeper} {tr : List (KeeperCall × KeeperReply)}

theorem requestsIn_append (ops ops' : List ExecutedOperations) :
    requestsIn (ops ++ ops') = requestsIn ops ++ requestsIn ops' := List.filterMap_append

/-- A request does not fail. -/
theorem requestsIn_successes (ops : List ExecutedOperations) :
    requestsIn (ops.filter (·.isSuccessful == true)) = requestsIn ops := by
  unfold requestsIn
  rw [List.filterMap_filter]
  congr 1
  funext op
  cases op with
  | Tx executed =>
    by_cases h : (ExecutedOperations.Tx executed).isSuccessful
    · simp [h]
    · simp [h]
      rfl
  | PriorityOp executed => rfl

/-- Requests never fail, so failures hold none. -/
theorem requestsIn_failures (txs : List ExecutedTx) :
    requestsIn (txs.map ExecutedOperations.Tx) = [] := by
  unfold requestsIn
  rw [List.filterMap_map]
  exact List.filterMap_eq_nil_iff.mpr fun _ _ => rfl

/-- Where the requests come in turn, every block has its own. -/
theorem inTurn_run (hrun : Run (KeeperStep env) k tr k') :
    PendingInTurn k → SerialsFrom k.currentUnprocessedPriorityOp (requestsIn (resultsOf tr)) →
      BlocksInTurn k.pendingBlock.unprocessedPriorityOpBefore (blocksOf tr)
        k'.pendingBlock.unprocessedPriorityOpBefore ∧ PendingInTurn k' ∧
      k'.currentUnprocessedPriorityOp =
        k.currentUnprocessedPriorityOp + UInt64.ofNat (requestsIn (resultsOf tr)).length := by
  -- induction on the calls: a sealed block takes its operations along, other calls push behind
  induction hrun with
  | nil => exact fun hk _ => ⟨rfl, hk, (UInt64.add_zero _).symm⟩
  | @cons k k₁ k' e tr hstep _ ih =>
    intro hk hserials
    have hresults : requestsIn (resultsOf (e :: tr)) =
        requestsIn e.2.results ++ requestsIn (resultsOf tr) := requestsIn_append _ _
    rw [hresults] at hserials ⊢
    obtain ⟨hfirst, hrest⟩ := serialsFrom_append.mp hserials
    rw [← List.singleton_append, blocksOf_append, List.length_append]
    have hfiled := filed_step hstep
    obtain ⟨call, reply⟩ := e
    dsimp only at hfiled hfirst hrest ⊢
    cases hfiled with
    | filed unsealed filed counter =>
      have hsuccess : requestsIn k₁.pendingBlock.successOperations =
          requestsIn k.pendingBlock.successOperations ++ requestsIn reply.results := by
        have hlist : k₁.pendingBlock.successOperations = _ := filed.lists true
        rw [hlist, requestsIn_append, requestsIn_successes]
        rfl
      have hk₁ : PendingInTurn k₁ := by
        refine ⟨?_, ?_⟩
        · rw [hsuccess, filed.before]
          refine serialsFrom_append.mpr ⟨hk.serials, ?_⟩
          rw [← hk.current]
          exact hfirst
        · rw [hsuccess, filed.before, counter, hk.current, List.length_append, UInt64.ofNat_add,
            UInt64.add_assoc]
      rw [← counter] at hrest
      obtain ⟨hblocks, hk', hcurrent⟩ := ih hk₁ hrest
      rw [blocksOf_unsealed unsealed, ← filed.before]
      refine ⟨hblocks, hk', ?_⟩
      rw [hcurrent, counter, UInt64.ofNat_add, UInt64.add_assoc]
    | @sealed request updates transactions priorityOps empty before counter =>
      have hnone : k₁.pendingBlock.successOperations = [] := empty true
      have hk₁ : PendingInTurn k₁ := by
        refine ⟨?_, ?_⟩
        · rw [hnone]
          rfl
        · rw [hnone, counter, before]
          exact (UInt64.add_zero _).symm
      have hrest : SerialsFrom k₁.currentUnprocessedPriorityOp (requestsIn (resultsOf tr)) := by
        rw [counter]
        simpa [requestsIn, KeeperReply.results] using hrest
      obtain ⟨hblocks, hk', hcurrent⟩ := ih hk₁ hrest
      have hrequests : requestsIn request.block.blockTransactions =
          requestsIn k.pendingBlock.successOperations := by
        have hfailed : requestsIn (k.pendingBlock.withOutcome false) = [] :=
          requestsIn_failures k.pendingBlock.failedTxs
        rw [transactions, requestsIn_append, hfailed, List.append_nil]
        rfl
      rw [before] at hblocks
      refine ⟨⟨?_, ?_, ?_⟩, hk', ?_⟩
      · rw [hrequests]
        exact hk.serials
      · rw [priorityOps, hrequests, ← hk.current]
      · rw [priorityOps]
        exact hblocks
      · rw [hcurrent, counter]
        simp [requestsIn, KeeperReply.results]

end Turns

/-! ## The mailbox -/

section Requests

variable {env : Env} {k k' : ZkSyncStateKeeper}

/-- The loop over a queue executes what the queue holds, each entry once: an entry that
finds the block full is tried again after the block was sealed. -/
theorem executeQueue_results : ∀ (fuel : Nat) (k : ZkSyncStateKeeper) (queue : List KeeperCall)
    {sent : List CommitRequest} {k' : ZkSyncStateKeeper}, (∀ call ∈ queue, call.IsEntry) →
    k.executeQueue env fuel queue = .ok (some (sent, k')) →
    ∃ tr, Run (KeeperStep env) k tr k' ∧ sent = sentBy tr ∧
      (resultsOf tr).map (·.submitted) = queue.flatMap KeeperCall.submitted := by
  intro fuel
  -- induction on the fuel: each round takes a call from the queue, or seals the block
  induction fuel with
  | zero =>
    intro k queue sent k' _ h
    cases queue with
    | nil =>
      cases h
      exact ⟨[], .nil _, rfl, rfl⟩
    | cons call queue => cases h
  | succ fuel ih =>
    intro k queue sent k' hentries h
    cases queue with
    | nil =>
      cases h
      exact ⟨[], .nil _, rfl, rfl⟩
    | cons call queue =>
      unfold ZkSyncStateKeeper.executeQueue at h
      rw [Outcome.bind_eq_ok] at h
      obtain ⟨⟨reply, k₁⟩, hanswer, h⟩ := h
      have hstep : KeeperStep env k (call, reply) k₁ := hanswer
      rcases hstep.entry (hentries call List.mem_cons_self) with rfl | ⟨ops, rfl⟩
      · -- full: the same entry is at the front after the seal
        dsimp only at h
        rw [Outcome.bind_eq_ok] at h
        obtain ⟨⟨⟨request, updates⟩, k₂⟩, hseal, h⟩ := h
        dsimp only at h
        rw [Outcome.bind_eq_ok] at h
        obtain ⟨result, hresult, h⟩ := h
        cases result with
        | none => cases h
        | some r =>
          obtain ⟨sent', k₃⟩ := r
          cases h
          obtain ⟨tr, hrun, rfl, hsubmitted⟩ := ih k₂ (call :: queue) hentries hresult
          exact ⟨_, .cons hstep (.cons (sealStep hseal) hrun), rfl, hsubmitted⟩
      · obtain ⟨tr, hrun, rfl, hsubmitted⟩ := ih k₁ queue
          (fun call' h' => hentries call' (List.mem_cons_of_mem _ h')) h
        refine ⟨_, .cons hstep hrun, rfl, ?_⟩
        have hfirst : ops.map (·.submitted) = call.submitted :=
          submitted_step hstep fun h => by cases h
        rw [List.flatMap_cons, ← hfirst, ← hsubmitted]
        exact List.map_append

/-- A request that was handled executed what it holds. -/
theorem handle_results {fuel : Nat} {request : StateKeeperRequest} {sent : List CommitRequest}
    (h : k.handle env fuel request = .ok (some (sent, k'))) :
    ∃ tr, Run (KeeperStep env) k tr k' ∧ sent = sentBy tr ∧
      (resultsOf tr).map (·.submitted) = request.submitted := by
  cases request with
  | SealBlock =>
    unfold ZkSyncStateKeeper.handle at h
    rw [Outcome.bind_eq_ok] at h
    obtain ⟨⟨⟨request, updates⟩, k₁⟩, hseal, h⟩ := h
    cases h
    exact ⟨_, Run.single (sealStep hseal), rfl, rfl⟩
  | ExecuteMiniBlock block =>
    unfold ZkSyncStateKeeper.handle ZkSyncStateKeeper.executeProposedBlock at h
    rw [Outcome.bind_eq_ok] at h
    obtain ⟨afterOps, hops, h⟩ := h
    cases afterOps with
    | none => cases h
    | some r =>
      obtain ⟨sent₁, k₁⟩ := r
      dsimp only at h
      rw [Outcome.bind_eq_ok] at h
      obtain ⟨afterTxs, htxs, h⟩ := h
      cases afterTxs with
      | none => cases h
      | some r =>
        obtain ⟨sent₂, k₂⟩ := r
        dsimp only at h
        rw [Outcome.bind_eq_ok] at h
        obtain ⟨⟨reply, k₃⟩, hend, h⟩ := h
        cases h
        have hend : KeeperStep env k₂ (.endMiniBlock, reply) k₃ := hend
        obtain ⟨tr₁, hrun₁, rfl, hsubmitted₁⟩ := executeQueue_results fuel k _ (fun call hc => by
          obtain ⟨op, -, rfl⟩ := List.mem_map.mp hc
          exact trivial) hops
        obtain ⟨tr₂, hrun₂, rfl, hsubmitted₂⟩ := executeQueue_results fuel k₁ _ (fun call hc => by
          obtain ⟨variant, -, rfl⟩ := List.mem_map.mp hc
          exact isEntry_call variant) htxs
        -- the end of a mini block executes nothing
        have hnone : reply.results = [] := by
          have heff := hend.effect
          dsimp only at heff
          cases heff with
          | full => rfl
          | sealed => rfl
          | stored => rfl
        refine ⟨tr₁ ++ tr₂ ++ [(.endMiniBlock, reply)],
          (hrun₁.append hrun₂).append (Run.single hend), ?_, ?_⟩
        · unfold sentBy
          rw [List.flatMap_append, List.flatMap_append, List.flatMap_singleton]
        · unfold StateKeeperRequest.submitted StateKeeperRequest.calls ProposedBlock.calls
          rw [List.flatMap_append, ← hsubmitted₁, ← hsubmitted₂]
          unfold resultsOf
          rw [List.flatMap_append, List.flatMap_append, List.flatMap_singleton, hnone,
            List.append_nil, List.map_append]

end Requests

/-! ## The system -/

/-- The proposer with the mempool and the watcher, the mailbox, and the state keeper. -/
structure Pipeline where
  proposing : Proposing
  mailbox : List StateKeeperRequest
  keeper : ZkSyncStateKeeper

/-- The proposer or the keeper moves. -/
inductive PipelineEvent where
  | proposing (event : ProposingEvent)
  /-- Somebody asks for the pending block to be sealed. -/
  | sealAsked
  | handled (request : StateKeeperRequest) (sent : List CommitRequest)

/-- What the proposer posts. -/
def ProposingEvent.posts : ProposingEvent → List StateKeeperRequest
  | .proposed block => [.ExecuteMiniBlock block]
  | _ => []

/-- The event, if the proposer has moved. -/
def PipelineEvent.ofProposer : PipelineEvent → List ProposingEvent
  | .proposing event => [event]
  | _ => []

/-- What the keeper sends to the committer. -/
def PipelineEvent.sent : PipelineEvent → List CommitRequest
  | .handled _ sent => sent
  | _ => []

/-- The proposer posts to the mailbox, and the keeper takes from its front. -/
inductive PipelineStep (env : Env) : Pipeline → PipelineEvent → Pipeline → Prop
  | proposing {p : Pipeline} {event : ProposingEvent} {proposing : Proposing}
      (h : ProposingStep env.overflowChecks p.proposing event proposing) :
      PipelineStep env p (.proposing event)
        { p with proposing := proposing, mailbox := p.mailbox ++ event.posts }
  | sealAsked (p : Pipeline) :
      PipelineStep env p .sealAsked { p with mailbox := p.mailbox ++ [.SealBlock] }
  | handled {p : Pipeline} {request : StateKeeperRequest} {mailbox : List StateKeeperRequest}
      {fuel : Nat} {sent : List CommitRequest} {keeper : ZkSyncStateKeeper}
      (next : p.mailbox = request :: mailbox)
      (h : p.keeper.handle env fuel request = .ok (some (sent, keeper))) :
      PipelineStep env p (.handled request sent) { p with mailbox := mailbox, keeper := keeper }

/-- The blocks that a run of the system sealed. -/
def blocksSealed (tr : List PipelineEvent) : List Block :=
  (tr.flatMap PipelineEvent.sent).filterMap sealedBlock

/-- What waits in the mailbox. -/
def submittedIn (requests : List StateKeeperRequest) : List Submitted :=
  requests.flatMap StateKeeperRequest.submitted

section System

variable {env : Env} {p p' : Pipeline} {tr : List PipelineEvent}

/-- What the proposer posted and the keeper has not executed is in the mailbox. -/
structure Handled (env : Env) (p : Pipeline) (tr : List PipelineEvent)
    (calls : List (KeeperCall × KeeperReply)) (p' : Pipeline) : Prop where
  keeper : Run (KeeperStep env) p.keeper calls p'.keeper
  sent : tr.flatMap PipelineEvent.sent = sentBy calls
  proposer : Run (ProposingStep env.overflowChecks) p.proposing
    (tr.flatMap PipelineEvent.ofProposer) p'.proposing
  flow : submittedIn p.mailbox ++
      submittedIn ((tr.flatMap PipelineEvent.ofProposer).flatMap ProposingEvent.posts) =
    (resultsOf calls).map (·.submitted) ++ submittedIn p'.mailbox

theorem submittedIn_append (requests requests' : List StateKeeperRequest) :
    submittedIn (requests ++ requests') = submittedIn requests ++ submittedIn requests' :=
  List.flatMap_append

/-- Every interleaving is a run of the proposer and a run of the keeper. -/
theorem handled_run (hrun : Run (PipelineStep env) p tr p') : ∃ calls, Handled env p tr calls p' := by
  induction hrun with
  | nil p => exact ⟨[], .nil _, rfl, .nil _, List.append_nil _⟩
  | @cons p p₁ p' e tr hstep _ ih =>
    obtain ⟨calls, hkeeper, hsent, hproposer, hflow⟩ := ih
    cases hstep with
    | @proposing event proposing h =>
      refine ⟨calls, hkeeper, hsent, .cons h hproposer, ?_⟩
      rw [← hflow]
      show submittedIn p.mailbox ++ submittedIn (event.posts ++ _) = submittedIn (p.mailbox ++ _) ++ _
      rw [submittedIn_append, submittedIn_append, List.append_assoc]
      rfl
    | sealAsked =>
      refine ⟨calls, hkeeper, hsent, hproposer, ?_⟩
      rw [← hflow]
      show submittedIn p.mailbox ++ _ = submittedIn (p.mailbox ++ [.SealBlock]) ++ _
      -- the request to seal holds nothing
      rw [submittedIn_append, show submittedIn [.SealBlock] = [] from rfl, List.append_nil]
      rfl
    | @handled request mailbox fuel sent keeper next h =>
      obtain ⟨calls₁, hkeeper₁, rfl, hsubmitted⟩ := handle_results h
      refine ⟨calls₁ ++ calls, hkeeper₁.append hkeeper, ?_, hproposer, ?_⟩
      · unfold sentBy at hsent ⊢
        rw [List.flatMap_append, ← hsent]
        rfl
      · unfold resultsOf at hflow hsubmitted ⊢
        rw [List.flatMap_append, List.map_append, hsubmitted, List.append_assoc, ← hflow, next]
        show (request.submitted ++ submittedIn mailbox) ++ _ = _
        rw [List.append_assoc]
        rfl

/-- What the mempool admitted. -/
def admittedIn (tr : List PipelineEvent) : List SignedTxVariant :=
  (tr.flatMap PipelineEvent.ofProposer).flatMap ProposingEvent.arrived

/-- A proposed block holds the transactions it was made of. -/
theorem txs_submitted (block : ProposedBlock) :
    (StateKeeperRequest.ExecuteMiniBlock block).submitted.filterMap Submitted.tx =
      block.txs.flatMap SignedTxVariant.txs := by
  unfold StateKeeperRequest.submitted StateKeeperRequest.calls ProposedBlock.calls
  rw [List.flatMap_append, List.filterMap_append, List.filterMap_flatMap, List.filterMap_flatMap,
    List.flatMap_map, List.flatMap_map]
  have hnone : block.priorityOps.flatMap
      (fun op => (KeeperCall.submitted (.priorityOp op)).filterMap Submitted.tx) = [] :=
    List.flatMap_eq_nil_iff.mpr fun _ _ => rfl
  rw [hnone, List.nil_append]
  congr 1
  funext variant
  cases variant with
  | Tx signed => rfl
  | Batch batch =>
    show (batch.txs.map Submitted.user).filterMap Submitted.tx = batch.txs
    rw [List.filterMap_map]
    exact List.filterMap_some

/-- And its priority operations. -/
theorem requests_submitted (block : ProposedBlock) :
    (StateKeeperRequest.ExecuteMiniBlock block).submitted.filterMap Submitted.request =
      block.priorityOps := by
  unfold StateKeeperRequest.submitted StateKeeperRequest.calls ProposedBlock.calls
  rw [List.flatMap_append, List.filterMap_append, List.filterMap_flatMap, List.filterMap_flatMap,
    List.flatMap_map, List.flatMap_map]
  have hnone : block.txs.flatMap
      (fun variant => variant.call.submitted.filterMap Submitted.request) = [] := by
    refine List.flatMap_eq_nil_iff.mpr fun variant _ => ?_
    cases variant with
    | Tx signed => rfl
    | Batch batch =>
      show (batch.txs.map Submitted.user).filterMap Submitted.request = []
      rw [List.filterMap_map]
      exact List.filterMap_eq_nil_iff.mpr fun _ _ => rfl
  rw [hnone, List.append_nil]
  exact List.flatMap_singleton' _

/-- What the proposer posted is what it proposed. -/
theorem txs_posts (events : List ProposingEvent) :
    (submittedIn (events.flatMap ProposingEvent.posts)).filterMap Submitted.tx =
      (events.flatMap ProposingEvent.txs).flatMap SignedTxVariant.txs := by
  induction events with
  | nil => rfl
  | cons event events ih =>
    rw [List.flatMap_cons, List.flatMap_cons, submittedIn_append, List.filterMap_append, ih,
      List.flatMap_append]
    congr 1
    cases event with
    | proposed block =>
      refine Eq.trans ?_ (txs_submitted block)
      exact congrArg _ (List.flatMap_singleton _ _)
    | _ => rfl

/-- The proposer posts the priority operations that it took. -/
theorem requests_posts (events : List ProposingEvent) :
    (submittedIn (events.flatMap ProposingEvent.posts)).filterMap Submitted.request =
      events.flatMap ProposingEvent.priorityOps := by
  induction events with
  | nil => rfl
  | cons event events ih =>
    rw [List.flatMap_cons, List.flatMap_cons, submittedIn_append, List.filterMap_append, ih]
    congr 1
    cases event with
    | proposed block =>
      refine Eq.trans ?_ (requests_submitted block)
      exact congrArg _ (List.flatMap_singleton _ _)
    | _ => rfl

variable {initialState : ZkSyncStateInitParams} {feeAccountAddress : Address} {sizes : List Nat}
  {maxMini fastMini maxWithdrawals : Nat}

/-- A new keeper has nothing in its pending block. -/
theorem empty_new {k : ZkSyncStateKeeper} (hnew : ZkSyncStateKeeper.new env initialState
      feeAccountAddress sizes maxMini fastMini maxWithdrawals = .ok k) :
    (∀ outcome, k.pendingBlock.withOutcome outcome = []) ∧
      k.pendingBlock.unprocessedPriorityOpBefore = k.currentUnprocessedPriorityOp := by
  obtain ⟨_, _, _, -, -, hk⟩ := ZkSyncStateKeeper.new_eq_ok hnew
  rw [hk]
  refine ⟨fun outcome => ?_, rfl⟩
  cases outcome <;> rfl

/-- In every interleaving: the transactions that waited at the start and those that the
mempool admitted are those that were executed, those in the mailbox and those in the queue,
in this order and each once; and what was executed is in the sealed blocks and the pending
block, the successes in their order and the failures in theirs. -/
theorem transactions_kept (hnew : ZkSyncStateKeeper.new env initialState feeAccountAddress sizes
      maxMini fastMini maxWithdrawals = .ok p.keeper) (hmailbox : p.mailbox = [])
    (hrun : Run (PipelineStep env) p tr p') : ∃ executed : List ExecutedOperations,
      (p.proposing.mempool.mempoolState.readyTxs ++ admittedIn tr).flatMap SignedTxVariant.txs =
        executed.filterMap (·.submitted.tx) ++
          (submittedIn p'.mailbox).filterMap Submitted.tx ++
            p'.proposing.mempool.mempoolState.readyTxs.flatMap SignedTxVariant.txs ∧
      ∀ outcome, executed.filter (·.isSuccessful == outcome) =
        (blocksSealed tr).flatMap (·.withOutcome outcome) ++
          p'.keeper.pendingBlock.withOutcome outcome := by
  obtain ⟨calls, hkeeper, hsent, hproposer, hflow⟩ := handled_run hrun
  obtain ⟨hempty, -⟩ := empty_new hnew
  have hsorted : p.keeper.pendingBlock.Sorted := by
    intro outcome op hop
    rw [hempty] at hop
    cases hop
  refine ⟨resultsOf calls, ?_, fun outcome => ?_⟩
  · -- the queue, then the mailbox
    have hqueue := (proposals_fair hproposer).2
    have hmail := congrArg (List.filterMap Submitted.tx) hflow
    rw [hmailbox, show submittedIn [] = [] from rfl, List.nil_append, txs_posts,
      List.filterMap_append, List.filterMap_map] at hmail
    unfold admittedIn
    rw [hqueue, List.flatMap_append, hmail]
    rfl
  · -- the pending block
    have hresults := results_flow hkeeper hsorted outcome
    rw [hempty, List.nil_append] at hresults
    rw [hresults]
    unfold blocksSealed
    rw [hsent]
    rfl

/-- In every interleaving the sealed blocks execute the priority operations with the next
serial ids, each block those of the interval that it declares, and the pending block and
the mailbox hold those that follow. -/
theorem requests_in_turn (hnew : ZkSyncStateKeeper.new env initialState feeAccountAddress sizes
      maxMini fastMini maxWithdrawals = .ok p.keeper) (hmailbox : p.mailbox = [])
    (hasked : p.proposing.currentPriorityOpNumber = p.keeper.currentUnprocessedPriorityOp)
    (hrun : Run (PipelineStep env) p tr p') :
    BlocksInTurn p.keeper.currentUnprocessedPriorityOp (blocksSealed tr)
      p'.keeper.pendingBlock.unprocessedPriorityOpBefore ∧ PendingInTurn p'.keeper ∧
    SerialsFrom p'.keeper.currentUnprocessedPriorityOp
      ((submittedIn p'.mailbox).filterMap Submitted.request) := by
  obtain ⟨calls, hkeeper, hsent, hproposer, hflow⟩ := handled_run hrun
  obtain ⟨hempty, hbefore⟩ := empty_new hnew
  have hnone : p.keeper.pendingBlock.successOperations = [] := hempty true
  have hstart : PendingInTurn p.keeper := by
    refine ⟨?_, ?_⟩
    · rw [hnone]
      rfl
    · rw [hnone, hbefore]
      exact (UInt64.add_zero _).symm
  have hproposed : SerialsFrom p.keeper.currentUnprocessedPriorityOp
      (requestsIn (resultsOf calls) ++ (submittedIn p'.mailbox).filterMap Submitted.request) := by
    have hids := (proposals_fair hproposer).1
    have hmail := congrArg (List.filterMap Submitted.request) hflow
    rw [hmailbox, show submittedIn [] = [] from rfl, List.nil_append, requests_posts,
      List.filterMap_append, List.filterMap_map] at hmail
    rw [hmail, hasked] at hids
    exact hids
  obtain ⟨hexecuted, hwaiting⟩ := serialsFrom_append.mp hproposed
  obtain ⟨hblocks, hpending, hcurrent⟩ := inTurn_run hkeeper hstart hexecuted
  rw [← hcurrent] at hwaiting
  refine ⟨?_, hpending, hwaiting⟩
  unfold blocksSealed
  rw [hsent, ← hbefore]
  exact hblocks

end System

/-! ## A deposit and a transfer on their way to a block -/

/-- The deposit that the contract announced. -/
def sampleAnnounced : PriorityOp := ⟨0, .Deposit (sampleDeposit 3), 0, [], 0⟩

/-- The transfer that arrives. -/
def sampleArrived : SignedTxVariant := .Tx ⟨.Transfer (sampleTransfer 2 0), none⟩

/-- The events of a chain with that deposit only. -/
def sampleEvents : EthEvents where
  ops := [sampleAnnounced]
  first := 0
  serialIds i h := by
    obtain rfl : i = 0 := Nat.lt_one_iff.mp h
    rfl
  blocks := List.pairwise_singleton _ _

/-- A proposer with an empty queue, whose watcher has just read the deposit. -/
def sampleProposing : Proposing where
  currentPriorityOpNumber := 0
  mempool := ⟨MempoolState.restore sampleStored, 30, 5⟩
  watcher := .ofRun (.nil (restoreStateFromEth sampleEvents 0 ⟨0, 0, 0⟩))

def sampleProposed : ProposedBlock := ⟨[sampleAnnounced], [sampleArrived]⟩

/-- The transfer arrives, and a block is proposed. -/
theorem sampleProposing_proposes : ∃ x, Run (ProposingStep false) sampleProposing
    [.received sampleArrived, .proposed sampleProposed] x ∧
      x.mempool.mempoolState.readyTxs = [] := by
  have hcomputed : (Proposing.commitNewTxMiniBatch false { sampleProposing with
      mempool := { sampleProposing.mempool with mempoolState :=
        { sampleProposing.mempool.mempoolState with
          readyTxs := sampleProposing.mempool.mempoolState.readyTxs ++ [sampleArrived] } } }).toOption.map
      (fun r => decide (r.1 = sampleProposed) &&
        decide (r.2.mempool.mempoolState.readyTxs = [])) = some true := by
    decide +kernel
  obtain ⟨⟨block, x⟩, hproposed, hblock⟩ := Option.map_eq_some_iff.mp hcomputed
  simp only [Bool.and_eq_true, decide_eq_true_eq] at hblock
  obtain ⟨rfl, hready⟩ := hblock
  exact ⟨x, .cons (.received _ _) (Run.single (.proposed (Outcome.toOption_eq_some.mp hproposed))),
    hready⟩

section Sample

variable {env : Env} {k k₁ k₂ k₃ : ZkSyncStateKeeper}

/-- What the proposer does while the keeper waits. -/
theorem pipeline_proposing (env : Env) {events : List ProposingEvent} {x x' : Proposing}
    (h : Run (ProposingStep env.overflowChecks) x events x') :
    ∀ mailbox, Run (PipelineStep env) ⟨x, mailbox, k⟩ (events.map .proposing)
      ⟨x', mailbox ++ events.flatMap ProposingEvent.posts, k⟩ := by
  induction h with
  | nil x =>
    intro mailbox
    rw [List.flatMap_nil, List.append_nil]
    exact .nil _
  | @cons x x₁ x' event events hstep _ ih =>
    intro mailbox
    have hrest := ih (mailbox ++ event.posts)
    rw [List.append_assoc] at hrest
    exact .cons (.proposing hstep) hrest

/-- A request with one priority operation and one transaction, and the end of the mini
block. -/
theorem handle_pair {op : PriorityOp} {signed : SignedZkSyncTx} {ops ops' : List ExecutedOperations}
    {reply : KeeperReply} (hop : KeeperStep env k (.priorityOp op, .executed ops) k₁)
    (htx : KeeperStep env k₁ (.tx signed, .executed ops') k₂)
    (hend : KeeperStep env k₂ (.endMiniBlock, reply) k₃) :
    k.handle env 1 (.ExecuteMiniBlock ⟨[op], [.Tx signed]⟩) = .ok (some (reply.sent, k₃)) := by
  have hop : k.answer env (.priorityOp op) = .ok (.executed ops, k₁) := hop
  have htx : k₁.answer env (.tx signed) = .ok (.executed ops', k₂) := htx
  have hend : k₂.answer env .endMiniBlock = .ok (reply, k₃) := hend
  have hops : k.executeQueue env 1 [.priorityOp op] = .ok (some ([], k₁)) := by
    unfold ZkSyncStateKeeper.executeQueue
    rw [hop]
    rfl
  have htxs : k₁.executeQueue env 1 [.tx signed] = .ok (some ([], k₂)) := by
    unfold ZkSyncStateKeeper.executeQueue
    rw [htx]
    rfl
  unfold ZkSyncStateKeeper.handle ZkSyncStateKeeper.executeProposedBlock
  show (do
    let afterOps ← k.executeQueue env 1 [.priorityOp op]
    _) = _
  rw [hops]
  show (do
    let afterTxs ← k₁.executeQueue env 1 [.tx signed]
    _) = _
  rw [htxs]
  show (do
    let r ← k₂.answer env .endMiniBlock
    _) = _
  rw [hend]
  rfl

/-- The pending block is stored at the end of a mini block. -/
theorem storeStep (env : Env) (hne : k.pendingBlock.successOperations ≠ [])
    (hiteration : k.pendingBlock.pendingBlockIteration + 1 ≤ k.iterationsAllowed)
    (hstored : k.pendingBlock.storedAccountUpdates = 0) :
    ∃ pendingBlock updates, KeeperStep env k (.endMiniBlock, .stored pendingBlock updates)
      { k with pendingBlock := { k.pendingBlock with
          pendingBlockIteration := k.pendingBlock.pendingBlockIteration + 1
          storedAccountUpdates := k.pendingBlock.accountUpdates.length } } := by
  have hcount : k.countIteration = { k with pendingBlock := { k.pendingBlock with
      pendingBlockIteration := k.pendingBlock.pendingBlockIteration + 1 } } := if_pos hne
  have hrounds : ¬ k.countIteration.pendingBlock.pendingBlockIteration >
      k.countIteration.iterationsAllowed := by
    rw [hcount]
    exact Nat.not_lt.mpr hiteration
  unfold KeeperStep ZkSyncStateKeeper.answer
  dsimp only
  rw [if_neg hrounds, hcount]
  unfold ZkSyncStateKeeper.storePendingBlock sliceFrom
  dsimp only
  rw [hstored, Outcome.assert_ok _ (Nat.zero_le _)]
  exact ⟨_, _, rfl⟩

end Sample

def samplePair : List KeeperCall :=
  [.priorityOp sampleAnnounced, .tx ⟨.Transfer (sampleTransfer 2 0), none⟩]

/-- What the two calls leave. -/
theorem samplePair_summary : (((oneAccountKeeper sampleAccount).answers (Env.built 1 false)
    samplePair).toOption.map fun r =>
      decide (r.1.map (·.2.results.length) = [1, 1]) &&
      decide (r.2.pendingBlock.executedOps =
        [.Deposit ⟨sampleDeposit 3, 1⟩, .TransferToNew ⟨sampleTransfer 2 0, 0, 2⟩]) &&
      decide (r.2.pendingBlock.failedTxs = []) &&
      decide (r.2.pendingBlock.pendingBlockIteration + 1 ≤ r.2.iterationsAllowed) &&
      r.2.sealable) = some true := by
  decide +kernel

/-- A call with a result was executed. -/
theorem executed_of_length {env : Env} {k k' : ZkSyncStateKeeper} {call : KeeperCall}
    {reply : KeeperReply} (hstep : KeeperStep env k (call, reply) k') (hentry : call.IsEntry)
    (hlength : reply.results.length = 1) : ∃ ops, reply = .executed ops := by
  rcases hstep.entry hentry with rfl | hops
  · cases hlength
  · exact hops

/-- The keeper executes both, stores its pending block and seals it. -/
theorem exists_samplePair : ∃ k₀ k₁ k₂ sent request updates,
    ZkSyncStateKeeper.new (Env.built 1 false) (oneAccountParams sampleAccount) 1 [6, 30] 10 2 5 =
      .ok k₀ ∧
    k₀.handle (Env.built 1 false) 1 (.ExecuteMiniBlock sampleProposed) = .ok (some (sent, k₁)) ∧
    sent.filterMap sealedBlock = [] ∧
    k₁.handle (Env.built 1 false) 1 .SealBlock = .ok (some ([.Block request updates], k₂)) ∧
    request.block.executedOps =
      [.Deposit ⟨sampleDeposit 3, 1⟩, .TransferToNew ⟨sampleTransfer 2 0, 0, 2⟩] := by
  obtain ⟨k₀, hnew, halike, hhashable⟩ := new_oneAccountKeeper fits_sampleAccount rfl
  obtain ⟨⟨tr, k⟩, hsome, hsum⟩ := Option.map_eq_some_iff.mp samplePair_summary
  unfold ZkSyncStateKeeper.sealable at hsum
  simp only [Bool.and_eq_true, decide_eq_true_eq, Option.isSome_iff_exists] at hsum
  obtain ⟨⟨⟨⟨hlengths, hops⟩, hfailed⟩, hiteration⟩, ⟨⟨hstored, max, hmax⟩, size, hsize⟩,
    ⟨us, paid⟩, hpaid⟩ := hsum
  have hentries : ∀ call ∈ samplePair, call.IsEntry := by simp [samplePair, KeeperCall.IsEntry]
  have htok : ∀ call ∈ samplePair, call.FeeTokenOk := by
    simp [samplePair, KeeperCall.FeeTokenOk, ZkSyncTx.FeeTokenOk]
  obtain ⟨k₂, paid₂, hanswers, hk₂, hhashable₂, hpaid₂, -⟩ :=
    exists_sealed halike hhashable rfl hentries htok (Outcome.toOption_eq_some.mp hsome)
      (Outcome.toOption_eq_some.mp hpaid) hmax (Outcome.toOption_eq_some.mp hsize)
      (by rw [hstored]; exact Nat.zero_le _)
  have hrest : k₂ = { k with state := k₂.state } := hk₂.rest
  -- the two calls
  obtain ⟨hrun, hcalls⟩ := answers_run hanswers
  obtain ⟨⟨call, reply⟩, tr, rfl, hcall, hcalls⟩ := List.map_eq_cons_iff.mp hcalls
  obtain ⟨⟨call', reply'⟩, tr, rfl, hcall', hcalls⟩ := List.map_eq_cons_iff.mp hcalls
  obtain rfl := List.map_eq_nil_iff.mp hcalls
  obtain rfl : call = _ := hcall
  obtain rfl : call' = _ := hcall'
  simp only [List.map_cons, List.map_nil, List.cons.injEq, and_true] at hlengths
  cases hrun with
  | @cons _ k₁ _ _ _ hop hrun =>
  cases hrun with
  | cons htx hrun =>
  cases hrun
  obtain ⟨ops, rfl⟩ := executed_of_length hop trivial hlengths.1
  obtain ⟨ops', rfl⟩ := executed_of_length htx trivial hlengths.2
  -- the end of the mini block
  have hne : k₂.pendingBlock.successOperations ≠ [] := by
    intro hnil
    rw [hrest] at hnil
    unfold PendingBlock.executedOps at hops
    rw [show k.pendingBlock.successOperations = [] from hnil] at hops
    cases hops
  obtain ⟨pendingBlock, updates, hend⟩ := storeStep (Env.built 1 false) hne
    (by rw [hrest]; exact hiteration) (by rw [hrest]; exact hstored)
  have hhandled := handle_pair hop htx hend
  -- the seal
  have hhashable₃ := hhashable₂.step (by exact trivial) hend
  have hmax₂ : k₂.availableBlockChunkSizes.getLast? = some max := by
    rw [hrest]
    exact hmax
  have hsize₂ : smallestBlockSizeForChunks (chunksOf (k₂.pendingBlock.successOperations ++
      k₂.pendingBlock.failedTxs.map ExecutedOperations.Tx)) k₂.availableBlockChunkSizes =
        .ok size := by
    rw [hrest]
    exact Outcome.toOption_eq_some.mp hsize
  obtain ⟨request, updates', k₄, hseal⟩ :=
    hhashable₃.seal hpaid₂ hmax₂ hsize₂ (Nat.le_refl _) rfl
  obtain ⟨_, _, _, _, _, hs, -⟩ := sealPendingBlock_eq_ok hseal
  refine ⟨k₀, _, k₄, _, request, updates', hnew, hhandled, rfl, ?_, ?_⟩
  · unfold ZkSyncStateKeeper.handle
    rw [hseal]
    rfl
  · have hfailed₂ : k₂.pendingBlock.failedTxs = [] := by
      rw [hrest]
      exact hfailed
    refine (executedOps_of_sealed hs ?_).trans ?_
    · show ∀ tx ∈ k₂.pendingBlock.failedTxs, tx.op = none
      rw [hfailed₂]
      exact fun _ htx => absurd htx List.not_mem_nil
    · show k₂.pendingBlock.executedOps = _
      rw [hrest]
      exact hops

/-- The transfer and the deposit are proposed, executed and sealed. -/
theorem exists_pipelineRun : ∃ k₀ p' tr block,
    ZkSyncStateKeeper.new (Env.built 1 false) (oneAccountParams sampleAccount) 1 [6, 30] 10 2 5 =
      .ok k₀ ∧
    Run (PipelineStep (Env.built 1 false)) ⟨sampleProposing, [], k₀⟩ tr p' ∧
    admittedIn tr = [sampleArrived] ∧ blocksSealed tr = [block] ∧ block.executedOps =
      [.Deposit ⟨sampleDeposit 3, 1⟩, .TransferToNew ⟨sampleTransfer 2 0, 0, 2⟩] ∧
    p'.mailbox = [] ∧ p'.proposing.mempool.mempoolState.readyTxs = [] := by
  obtain ⟨k₀, k₁, k₂, sent, request, updates, hnew, hexecuted, hsilent, hseal, hops⟩ :=
    exists_samplePair
  obtain ⟨x, hproposing, hready⟩ := sampleProposing_proposes
  have hproposed := pipeline_proposing (Env.built 1 false) (k := k₀) hproposing []
  refine ⟨k₀, _, _, request.block, hnew, hproposed.append (.cons (.sealAsked _)
    (.cons (.handled rfl hexecuted) (Run.single (.handled rfl hseal)))), rfl, ?_, hops, rfl, hready⟩
  show (sent ++ [CommitRequest.Block request updates]).filterMap sealedBlock = _
  rw [List.filterMap_append, hsilent]
  rfl

/-- The transfer is in the block. -/
theorem transactions_kept_pair : ∃ (block : Block) (k : ZkSyncStateKeeper)
    (executed : List ExecutedOperations),
    block.executedOps =
      [.Deposit ⟨sampleDeposit 3, 1⟩, .TransferToNew ⟨sampleTransfer 2 0, 0, 2⟩] ∧
    executed.filterMap (·.submitted.tx) = [⟨.Transfer (sampleTransfer 2 0), none⟩] ∧
    ∀ outcome, executed.filter (·.isSuccessful == outcome) =
      [block].flatMap (·.withOutcome outcome) ++ k.pendingBlock.withOutcome outcome := by
  obtain ⟨k₀, p', tr, block, hnew, hrun, hadmitted, hblocks, hops, hmailbox, hready⟩ :=
    exists_pipelineRun
  obtain ⟨executed, htxs, hfiled⟩ := transactions_kept hnew rfl hrun
  rw [hadmitted, hmailbox, hready] at htxs
  rw [hblocks] at hfiled
  refine ⟨block, p'.keeper, executed, hops, ?_, hfiled⟩
  simpa [submittedIn, sampleProposing, MempoolState.restore, sampleStored, sampleArrived,
    SignedTxVariant.txs] using htxs.symm

/-- The block declares the interval of its deposit. -/
theorem requests_in_turn_pair : ∃ (block : Block) (next : UInt64), block.executedOps =
      [.Deposit ⟨sampleDeposit 3, 1⟩, .TransferToNew ⟨sampleTransfer 2 0, 0, 2⟩] ∧
    BlocksInTurn 0 [block] next := by
  obtain ⟨k₀, p', tr, block, hnew, hrun, -, hblocks, hops, -, -⟩ := exists_pipelineRun
  have hzero : k₀.currentUnprocessedPriorityOp = 0 := by
    obtain ⟨_, _, _, -, -, hk⟩ := ZkSyncStateKeeper.new_eq_ok hnew
    rw [hk]
    rfl
  have hturn := (requests_in_turn hnew rfl hzero.symm hrun).1
  rw [hblocks] at hturn
  refine ⟨block, p'.keeper.pendingBlock.unprocessedPriorityOpBefore, hops, ?_⟩
  rw [← hzero]
  exact hturn

end ZkSync
