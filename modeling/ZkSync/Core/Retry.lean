import Mathlib.Algebra.Order.BigOperators.Group.List
import ZkSync.Core.Gas
import ZkSync.Core.Mempool

/-!
# Retries

`execute_proposed_block` seals the block when an operation finds it full, puts
the operation back to the front of the queue and tries again, on a fresh block.
`QueueStep` is one round of that loop.

A fresh block has the chunks of every operation and of every batch that the
mempool admits, and the gas of every single operation. Its gas need not suffice
for a batch: the mempool counts the chunks and the withdrawals of a batch, not
its gas, so a batch can be refused by every fresh block and the loop seals empty
blocks forever (`retried_forever`). `PendingBlock.Room` excludes that, and then
no operation is put back twice and the loop ends (`proposedBlock_terminates`).
-/

namespace ZkSync

/-! ## Rounds -/

/-- What a round did with the operation at the front of the queue. -/
inductive Round where
  | applied (call : KeeperCall)
  | pushedBack (call : KeeperCall)
  deriving DecidableEq

/-- The call found the block full and waits for the next one. -/
def Round.isPushedBack : Round → Bool
  | .applied _ => false
  | .pushedBack _ => true

/-- One round of the loops of `execute_proposed_block`. -/
inductive QueueStep (env : Env) :
    ZkSyncStateKeeper × List KeeperCall → Round → ZkSyncStateKeeper × List KeeperCall → Prop
  | applied {k k' : ZkSyncStateKeeper} {call : KeeperCall} {queue : List KeeperCall}
      {ops : List ExecutedOperations} (answer : k.answer env call = .ok (.executed ops, k')) :
      QueueStep env (k, call :: queue) (.applied call) (k', queue)
  | pushedBack {k k₁ k' : ZkSyncStateKeeper} {call : KeeperCall} {queue : List KeeperCall}
      {request : BlockCommitRequest} {updates : AppliedUpdatesRequest}
      (answer : k.answer env call = .ok (.full, k₁))
      (sealed : k₁.sealPendingBlock env = .ok ((request, updates), k')) :
      QueueStep env (k, call :: queue) (.pushedBack call) (k', call :: queue)

/-- Everything a proposed block asks for, in the order of the two loops. -/
def ProposedBlock.calls (proposedBlock : ProposedBlock) : List KeeperCall :=
  proposedBlock.priorityOps.map .priorityOp ++ proposedBlock.txs.map SignedTxVariant.call

section Rounds

variable {env : Env} {k k' : ZkSyncStateKeeper} {queue queue' : List KeeperCall}
  {rounds : List Round}

/-- More operations at the end of the queue change nothing. -/
theorem QueueStep.append {x x' : ZkSyncStateKeeper × List KeeperCall} {round : Round}
    (h : QueueStep env x round x') (later : List KeeperCall) :
    QueueStep env (x.1, x.2 ++ later) round (x'.1, x'.2 ++ later) := by
  cases h with
  | applied answer => exact .applied answer
  | pushedBack answer sealed => exact .pushedBack answer sealed

/-- Rounds do not look at what waits behind. -/
theorem rounds_append {x x' : ZkSyncStateKeeper × List KeeperCall}
    (h : Run (QueueStep env) x rounds x') (later : List KeeperCall) :
    Run (QueueStep env) (x.1, x.2 ++ later) rounds (x'.1, x'.2 ++ later) := by
  induction h with
  | nil => exact .nil _
  | cons hstep _ ih => exact .cons (hstep.append later) ih

/-- Every operation that was applied left the queue. -/
theorem rounds_applied {x x' : ZkSyncStateKeeper × List KeeperCall}
    (h : Run (QueueStep env) x rounds x') :
    rounds.countP (fun round => !round.isPushedBack) + x'.2.length = x.2.length := by
  induction h with
  | nil => exact Nat.zero_add _
  | cons hstep _ ih =>
    cases hstep with
    | applied =>
      rw [List.countP_cons_of_pos rfl, List.length_cons, ← ih]
      omega
    | pushedBack =>
      rw [List.countP_cons_of_neg (by exact Bool.false_ne_true), ih]

/-- The rounds only shorten the queue. -/
theorem rounds_suffix {x x' : ZkSyncStateKeeper × List KeeperCall}
    (h : Run (QueueStep env) x rounds x') : x'.2 <:+ x.2 := by
  induction h with
  | nil => exact List.suffix_rfl
  | cons hstep _ ih =>
    cases hstep with
    | applied => exact ih.trans (List.suffix_cons _ _)
    | pushedBack => exact ih

/-- The loop takes rounds until the queue is empty or the bound is reached. -/
theorem executeQueue_rounds : ∀ (fuel : Nat) (k : ZkSyncStateKeeper) (queue : List KeeperCall)
    {result : Option (List CommitRequest × ZkSyncStateKeeper)}, (∀ call ∈ queue, call.IsEntry) →
    k.executeQueue env fuel queue = .ok result →
    ∃ rounds k' queue', Run (QueueStep env) (k, queue) rounds (k', queue') ∧
      match result with
      | none => rounds.length = fuel ∧ queue' ≠ []
      | some r => k' = r.2 ∧ queue' = [] := by
  intro fuel
  -- induction on the fuel, which counts the rounds
  induction fuel with
  | zero =>
    intro k queue result _ h
    cases queue with
    | nil =>
      cases h
      exact ⟨[], k, [], .nil _, rfl, rfl⟩
    | cons call queue =>
      cases h
      exact ⟨[], k, call :: queue, .nil _, rfl, List.cons_ne_nil _ _⟩
  | succ fuel ih =>
    intro k queue result hentries h
    cases queue with
    | nil =>
      cases h
      exact ⟨[], k, [], .nil _, rfl, rfl⟩
    | cons call queue =>
      unfold ZkSyncStateKeeper.executeQueue at h
      rw [Outcome.bind_eq_ok] at h
      obtain ⟨⟨reply, k₁⟩, hanswer, h⟩ := h
      have hstep : KeeperStep env k (call, reply) k₁ := hanswer
      rcases hstep.entry (hentries call List.mem_cons_self) with rfl | ⟨ops, rfl⟩
      · dsimp only at h
        rw [Outcome.bind_eq_ok] at h
        obtain ⟨⟨⟨request, updates⟩, k₂⟩, hseal, h⟩ := h
        dsimp only at h
        rw [Outcome.bind_eq_ok] at h
        obtain ⟨result', hresult, h⟩ := h
        obtain ⟨rounds, k', queue', hrun, hend⟩ := ih k₂ (call :: queue) hentries hresult
        refine ⟨.pushedBack call :: rounds, k', queue',
          .cons (.pushedBack hanswer hseal) hrun, ?_⟩
        cases result' with
        | none =>
          cases h
          exact ⟨congrArg (· + 1) hend.1, hend.2⟩
        | some r =>
          cases h
          exact hend
      · obtain ⟨rounds, k', queue', hrun, hend⟩ := ih k₁ queue
          (fun call' h' => hentries call' (List.mem_cons_of_mem _ h')) h
        refine ⟨.applied call :: rounds, k', queue', .cons (.applied hanswer) hrun, ?_⟩
        cases result with
        | none => exact ⟨congrArg (· + 1) hend.1, hend.2⟩
        | some r => exact hend

theorem isEntry_calls {proposedBlock : ProposedBlock} :
    ∀ call ∈ proposedBlock.calls, call.IsEntry := by
  intro call hcall
  rcases List.mem_append.mp hcall with hcall | hcall
  · obtain ⟨op, -, rfl⟩ := List.mem_map.mp hcall
    exact trivial
  · obtain ⟨variant, -, rfl⟩ := List.mem_map.mp hcall
    exact isEntry_call variant

/-- If the bound is reached then by rounds of one queue. -/
theorem proposedBlock_rounds {fuel : Nat} {proposedBlock : ProposedBlock}
    (h : k.executeProposedBlock env fuel proposedBlock = .ok none) :
    ∃ rounds k' queue', Run (QueueStep env) (k, proposedBlock.calls) rounds (k', queue') ∧
      fuel ≤ rounds.length ∧ queue' ≠ [] := by
  unfold ZkSyncStateKeeper.executeProposedBlock at h
  rw [Outcome.bind_eq_ok] at h
  obtain ⟨afterOps, hops, h⟩ := h
  have hentriesOps : ∀ call ∈ proposedBlock.priorityOps.map KeeperCall.priorityOp, call.IsEntry :=
    fun call hc => isEntry_calls call (List.mem_append_left _ hc)
  have hentriesTxs : ∀ call ∈ proposedBlock.txs.map SignedTxVariant.call, call.IsEntry :=
    fun call hc => isEntry_calls call (List.mem_append_right _ hc)
  obtain ⟨rounds, k₁, queue', hrun, hend⟩ := executeQueue_rounds fuel k _ hentriesOps hops
  have hrun' := rounds_append hrun (proposedBlock.txs.map SignedTxVariant.call)
  cases afterOps with
  | none =>
    obtain ⟨hlength, hne⟩ := hend
    exact ⟨rounds, _, _, hrun', Nat.le_of_eq hlength.symm, fun h => hne (List.append_eq_nil_iff.mp h).1⟩
  | some r =>
    obtain ⟨sent, k₂⟩ := r
    obtain ⟨rfl, rfl⟩ := hend
    dsimp only at h hrun'
    rw [Outcome.bind_eq_ok] at h
    obtain ⟨afterTxs, htxs, h⟩ := h
    obtain ⟨rounds₂, k₃, queue₂, hrun₂, hend₂⟩ := executeQueue_rounds fuel k₁ _ hentriesTxs htxs
    cases afterTxs with
    | none =>
      obtain ⟨hlength, hne⟩ := hend₂
      refine ⟨rounds ++ rounds₂, k₃, queue₂, hrun'.append hrun₂, ?_, hne⟩
      rw [List.length_append, hlength]
      exact Nat.le_add_left _ _
    | some r =>
      dsimp only at h
      rw [Outcome.bind_eq_ok] at h
      obtain ⟨_, -, h⟩ := h
      cases h

end Rounds

/-! ## Room in the counters -/

/-- The transactions that the keeper counts; it does not count forced exits. -/
def ZkSyncTx.countsAsWithdrawal : ZkSyncTx → Bool
  | .Withdraw _ => true
  | _ => false

/-- The counters of the block leave room for the transactions, one after the
other, as they would be converted in the state. -/
structure PendingBlock.Room (env : Env) (s : ZkSyncState) (maxWithdrawals : Nat)
    (p : PendingBlock) (txs : List ZkSyncTx) : Prop where
  withdrawals : p.withdrawalsAmount.toNat + txs.countP ZkSyncTx.countsAsWithdrawal ≤
    (UInt32.ofNat maxWithdrawals).toNat
  commitGas : GasCounter.scaleUp (p.gasCounter.commitCost +
    (txs.map (s.gasOf env CommitCost.opCost)).sum) ≤ TX_GAS_LIMIT
  verifyGas : GasCounter.scaleUp (p.gasCounter.verifyCost +
    (txs.map (s.gasOf env VerifyCost.opCost)).sum) ≤ TX_GAS_LIMIT

section Room

variable {env : Env} {s : ZkSyncState} {maxWithdrawals : Nat} {p p' : PendingBlock}
  {tx : ZkSyncTx} {txs : List ZkSyncTx} {admitted : Bool}

/-- The gas of a transaction for which there is room is counted. -/
theorem countGas_of_room {op : Except String ZkSyncOp} {gasCounter : Option GasCounter}
    (hroom : p.Room env s maxWithdrawals (tx :: txs))
    (hop : attempt (s.zksyncTxToZksyncOp env tx) = .ok op)
    (h : PendingBlock.countGas p.gasCounter op = .ok gasCounter) :
    gasCounter = some ⟨p.gasCounter.commitCost + s.gasOf env CommitCost.opCost tx,
      p.gasCounter.verifyCost + s.gasOf env VerifyCost.opCost tx⟩ := by
  have hcommit := hroom.commitGas
  have hverify := hroom.verifyGas
  rw [List.map_cons, List.sum_cons, ← Nat.add_assoc] at hcommit hverify
  unfold ZkSyncState.gasOf at hcommit hverify ⊢
  cases hconv : s.zksyncTxToZksyncOp env tx with
  | ok nonExecutedOp =>
    rw [hconv] at hop hcommit hverify
    obtain rfl := Except.ok.inj hop
    have h' : p.gasCounter.addOp nonExecutedOp = .ok gasCounter := infallible_eq_ok.mp h
    obtain ⟨commit, verify, hc, hv⟩ := opCosts_of_addOp h'
    dsimp only at hcommit hverify ⊢
    rw [hc] at hcommit ⊢
    rw [hv] at hverify ⊢
    rw [addOp_of_room hc hv (Nat.le_trans (scaleUp_mono (Nat.le_add_right _ _)) hcommit)
      (Nat.le_trans (scaleUp_mono (Nat.le_add_right _ _)) hverify)] at h'
    exact (Except.ok.inj h').symm
  | error failure =>
    rw [hconv] at hop
    cases failure with
    | error message =>
      obtain rfl := Except.ok.inj hop
      exact (Except.ok.inj h).symm
    | panic message => cases hop

/-- A withdrawal for which there is room is counted without overflow. -/
theorem countWithdrawal_of_room {overflowChecks marksFast : Bool}
    (h : p.countWithdrawal overflowChecks marksFast tx = .ok p')
    (hroom : p.withdrawalsAmount.toNat + [tx].countP ZkSyncTx.countsAsWithdrawal < 2 ^ 32) :
    p'.gasCounter = p.gasCounter ∧ p'.withdrawalsAmount.toNat =
      p.withdrawalsAmount.toNat + [tx].countP ZkSyncTx.countsAsWithdrawal := by
  cases tx with
  | Withdraw tx =>
    unfold PendingBlock.countWithdrawal at h
    rw [Outcome.bind_eq_ok] at h
    obtain ⟨withdrawalsAmount, hincr, h⟩ := h
    obtain rfl := Except.ok.inj h
    obtain rfl := u32Increment_eq_ok (infallible_eq_ok.mp hincr)
    refine ⟨rfl, ?_⟩
    have hone : [ZkSyncTx.Withdraw tx].countP ZkSyncTx.countsAsWithdrawal = 1 := rfl
    rw [hone] at hroom ⊢
    show (p.withdrawalsAmount + 1).toNat = _
    rw [UInt32.toNat_add, UInt32.toNat_one]
    exact Nat.mod_eq_of_lt hroom
  | _ =>
    obtain rfl := Except.ok.inj h
    exact ⟨rfl, rfl⟩

/-- A transaction for which there is room is let in, and leaves the room it needed less. -/
theorem admitTx_of_room {marksFast : Bool} (hroom : p.Room env s maxWithdrawals (tx :: txs))
    (h : p.admitTx env s maxWithdrawals marksFast tx = .ok (admitted, p')) :
    admitted = true ∧ p'.Room env s maxWithdrawals txs := by
  unfold PendingBlock.admitTx at h
  rw [Outcome.bind_eq_ok] at h
  obtain ⟨op, hop, h⟩ := h
  rw [Outcome.bind_eq_ok] at h
  obtain ⟨gasCounter, hgas, h⟩ := h
  obtain rfl := countGas_of_room hroom hop hgas
  dsimp only at h
  rw [Outcome.bind_eq_ok] at h
  obtain ⟨p₁, hcount, h⟩ := h
  obtain ⟨rfl, rfl⟩ := Prod.mk.inj (Except.ok.inj h)
  obtain ⟨hw, hc, hv⟩ := hroom
  have hcons : (tx :: txs).countP ZkSyncTx.countsAsWithdrawal =
      [tx].countP ZkSyncTx.countsAsWithdrawal + txs.countP ZkSyncTx.countsAsWithdrawal := by
    rw [← List.countP_append]
    rfl
  have hlt := (UInt32.ofNat maxWithdrawals).toNat_lt
  rw [hcons] at hw
  obtain ⟨hgas', hwithdrawals⟩ := countWithdrawal_of_room hcount (by dsimp only; omega)
  dsimp only at hgas' hwithdrawals
  rw [List.map_cons, List.sum_cons, ← Nat.add_assoc] at hc hv
  refine ⟨?_, ?_, ?_, ?_⟩
  · refine decide_eq_true (UInt32.le_iff_toNat_le.mpr ?_)
    omega
  · omega
  · rw [hgas']
    exact hc
  · rw [hgas']
    exact hv

/-- Where there is room for all of a batch, it is admitted. -/
theorem admitBatch_of_room (hroom : p.Room env s maxWithdrawals txs)
    (h : p.admitBatch env s maxWithdrawals txs = .ok (admitted, p')) : admitted = true := by
  induction txs generalizing p with
  | nil =>
    cases h
    rfl
  | cons tx txs ih =>
    unfold PendingBlock.admitBatch at h
    rw [Outcome.bind_eq_ok] at h
    obtain ⟨⟨admitted₁, p₁⟩, h₁, h⟩ := h
    obtain ⟨rfl, hroom₁⟩ := admitTx_of_room hroom h₁
    exact ih hroom₁ h

end Room

/-! ## Fresh blocks -/

/-- The pending block is as sealing leaves it. -/
def ZkSyncStateKeeper.Fresh (k : ZkSyncStateKeeper) : Prop :=
  ∃ max, k.availableBlockChunkSizes.getLast? = some max ∧
    k.pendingBlock = PendingBlock.new k.currentUnprocessedPriorityOp max

/-- The transactions of a call. -/
def KeeperCall.txs : KeeperCall → List ZkSyncTx
  | .tx request => [request.tx]
  | .batch txs _ => txs.map (·.tx)
  | _ => []

/-- If the block is fresh, its counters leave room for the front of the queue. -/
def Retriable (env : Env) (x : ZkSyncStateKeeper × List KeeperCall) : Prop :=
  ∀ call ∈ x.2.head?, x.1.Fresh →
    x.1.pendingBlock.Room env x.1.state x.1.maxNumberOfWithdrawalsPerBlock call.txs

/-- What is known of the queue: the largest block takes every single operation,
and the mempool has checked that it takes every batch. -/
structure QueueOk (max : Nat) (x : ZkSyncStateKeeper × List KeeperCall) : Prop where
  largest : x.1.availableBlockChunkSizes.getLast? = some max
  six_le : 6 ≤ max
  creates : CreatesKnown x.1.pendingBlock.accountUpdates x.1.state
  entries : ∀ call ∈ x.2, call.IsEntry
  batches : ∀ txs batchId, .batch txs batchId ∈ x.2 →
    ∃ m : MempoolState, m.KnownTo x.1.state ∧ m.chunksForBatch txs ≤ max

section Fresh

variable {env : Env} {k k' : ZkSyncStateKeeper} {max : Nat}

theorem chunksForTx_le_six {s : ZkSyncState} {tx : ZkSyncTx} {n : Nat}
    (h : s.chunksForTx tx = .ok n) : n ≤ 6 := by
  rcases chunksForTx_cases h with (rfl | ⟨tx', rfl⟩) | ⟨_, -, rfl, -⟩
  · exact Nat.le_refl _
  · obtain rfl := Except.ok.inj h
    show CloseOp.CHUNKS ≤ 6
    decide
  · decide

/-- A fresh block has the room of the largest size. -/
theorem chunksLeft_of_fresh (hfresh : k.Fresh)
    (hmax : k.availableBlockChunkSizes.getLast? = some max) :
    k.pendingBlock.chunksLeft = max ∧ k.pendingBlock.gasCounter = GasCounter.new := by
  obtain ⟨max', hmax', hpending⟩ := hfresh
  obtain rfl := Option.some.inj (hmax.symm.trans hmax')
  rw [hpending]
  exact ⟨rfl, rfl⟩

/-- A fresh block takes the front of the queue. -/
theorem not_full_of_fresh {call : KeeperCall} {queue : List KeeperCall}
    (hok : QueueOk max (k, call :: queue)) (hroom : Retriable env (k, call :: queue))
    (hfresh : k.Fresh) : k.answer env call ≠ .ok (.full, k') := by
  intro h
  obtain ⟨hleft, hgas⟩ := chunksLeft_of_fresh hfresh hok.largest
  -- six chunks fit into every fresh block, and the batch was admitted with room for all of it
  have hroom := hroom call rfl hfresh
  have hsix := hok.six_le
  cases call with
  | priorityOp op =>
    unfold ZkSyncStateKeeper.answer at h
    rw [Outcome.bind_eq_ok] at h
    obtain ⟨⟨r, k₁⟩, happ, h⟩ := h
    cases r with
    | ok e => cases h
    | error op' =>
      unfold ZkSyncStateKeeper.applyPriorityOp at happ
      have hchunks : ¬ k.pendingBlock.chunksLeft < op.data.chunks := by
        have hop : op.data.chunks ≤ 6 := by
          cases op.data <;> exact Nat.le_refl 6
        omega
      rw [if_neg hchunks, Outcome.bind_eq_ok] at happ
      obtain ⟨nonExecutedOp, -, happ⟩ := happ
      rw [Outcome.bind_eq_ok] at happ
      obtain ⟨gasCounter, hadd, happ⟩ := happ
      rw [hgas, infallible_eq_ok] at hadd
      cases gasCounter with
      | none => exact addOp_new hadd rfl
      | some gasCounter =>
        simp only [Outcome.bind_eq_ok] at happ
        obtain ⟨_, -, _, -, _, -, happ⟩ := happ
        cases happ
  | tx tx =>
    unfold ZkSyncStateKeeper.answer at h
    rw [Outcome.bind_eq_ok] at h
    obtain ⟨⟨r, k₁⟩, happ, h⟩ := h
    cases r with
    | ok e => cases h
    | error u =>
      unfold ZkSyncStateKeeper.applyTx at happ
      rw [Outcome.bind_eq_ok] at happ
      obtain ⟨chunksNeeded, hest, happ⟩ := happ
      have hle := chunksForTx_le_six (infallible_eq_ok.mp hest)
      rw [if_neg (by omega), Outcome.bind_eq_ok] at happ
      obtain ⟨⟨admitted, p⟩, hadm, happ⟩ := happ
      obtain ⟨rfl, -⟩ := admitTx_of_room hroom hadm
      simp only [if_true, Outcome.bind_eq_ok] at happ
      obtain ⟨_, -, _, -, happ⟩ := happ
      cases happ
  | batch txs batchId =>
    unfold ZkSyncStateKeeper.answer at h
    rw [Outcome.bind_eq_ok] at h
    obtain ⟨⟨r, k₁⟩, happ, h⟩ := h
    cases r with
    | ok ops => cases h
    | error u =>
      unfold ZkSyncStateKeeper.applyBatch at happ
      rw [Outcome.bind_eq_ok] at happ
      obtain ⟨chunksNeeded, hest, happ⟩ := happ
      obtain ⟨m, hknown, hfits⟩ := hok.batches txs batchId List.mem_cons_self
      have hle := chunksForBatch_le hknown (infallible_eq_ok.mp hest)
      rw [if_neg (by omega), Outcome.bind_eq_ok] at happ
      obtain ⟨⟨admitted, p⟩, hadm, happ⟩ := happ
      obtain rfl := admitBatch_of_room hroom hadm
      simp only [if_true, Outcome.bind_eq_ok] at happ
      obtain ⟨_, -, _, -, happ⟩ := happ
      cases happ
  | sealBlock => exact hok.entries _ List.mem_cons_self
  | endMiniBlock => exact hok.entries _ List.mem_cons_self

theorem config_countIteration (k : ZkSyncStateKeeper) :
    k.countIteration.availableBlockChunkSizes = k.availableBlockChunkSizes ∧
      k.countIteration.maxNumberOfWithdrawalsPerBlock = k.maxNumberOfWithdrawalsPerBlock := by
  unfold ZkSyncStateKeeper.countIteration
  split <;> exact ⟨rfl, rfl⟩

/-- The configuration of the keeper stays. -/
theorem config_step {e : KeeperCall × KeeperReply} (hstep : KeeperStep env k e k') :
    k'.availableBlockChunkSizes = k.availableBlockChunkSizes ∧
      k'.maxNumberOfWithdrawalsPerBlock = k.maxNumberOfWithdrawalsPerBlock := by
  obtain ⟨call, reply⟩ := e
  have heff := hstep.effect
  dsimp only at heff
  cases heff with
  | full => exact ⟨rfl, rfl⟩
  | priorityOp => exact ⟨rfl, rfl⟩
  | tx => exact ⟨rfl, rfl⟩
  | batch => exact ⟨rfl, rfl⟩
  | sealed before hseal =>
    obtain ⟨_, _, _, _, _, -, -, -, rfl⟩ := sealPendingBlock_eq_ok hseal
    rcases before with ⟨-, rfl⟩ | ⟨-, rfl⟩
    · exact ⟨rfl, rfl⟩
    · exact config_countIteration k
  | stored hstore =>
    obtain ⟨-, -, -, rfl⟩ := storePendingBlock_eq_ok hstore
    exact config_countIteration k

/-- A step of the keeper leaves calls that have room in a fresh block. -/
theorem QueueOk.keeperStep {queue queue' : List KeeperCall} (h : QueueOk max (k, queue))
    {e : KeeperCall × KeeperReply} (hstep : KeeperStep env k e k')
    (hsub : ∀ call ∈ queue', call ∈ queue) : QueueOk max (k', queue') := by
  obtain ⟨hgrows, hcreates, -⟩ := createsKnown_step h.creates hstep
  refine ⟨(congrArg List.getLast? ((config_step hstep).1)).trans h.largest, h.six_le, hcreates,
    fun call hc => h.entries call (hsub call hc), fun txs batchId hb => ?_⟩
  obtain ⟨m, hknown, hle⟩ := h.batches txs batchId (hsub _ hb)
  exact ⟨m, hknown.grows hgrows, hle⟩

/-- So does every round. -/
theorem QueueOk.step {x x' : ZkSyncStateKeeper × List KeeperCall} {round : Round}
    (h : QueueOk max x) (hstep : QueueStep env x round x') : QueueOk max x' := by
  cases hstep with
  | @applied k k' call queue ops answer =>
    have hkeeper : KeeperStep env k (call, .executed ops) k' := answer
    exact h.keeperStep hkeeper fun call' hc => List.mem_cons_of_mem _ hc
  | @pushedBack k k₁ k' call queue request updates answer sealed =>
    have hkeeper : KeeperStep env k (call, .full) k₁ := answer
    exact (h.keeperStep hkeeper fun _ hc => hc).keeperStep (sealStep sealed) fun _ hc => hc

/-- A round that puts the front of the queue back leaves a fresh block. -/
theorem fresh_of_pushedBack {x x' : ZkSyncStateKeeper × List KeeperCall} {round : Round}
    (hstep : QueueStep env x round x') (hround : round.isPushedBack) : x'.1.Fresh := by
  cases hstep with
  | applied => cases hround
  | pushedBack answer sealed =>
    obtain ⟨_, _, _, _, max, -, -, hmax, rfl⟩ := sealPendingBlock_eq_ok sealed
    exact ⟨max, hmax, rfl⟩

/-- Rounds that meet the condition never put an operation back twice. -/
theorem isChain_rounds {x x' : ZkSyncStateKeeper × List KeeperCall} {rounds : List Round}
    (hok : QueueOk max x)
    (hrun : Run (fun x round x' => Retriable env x ∧ QueueStep env x round x') x rounds x') :
    rounds.IsChain fun round next => round.isPushedBack → ¬ next.isPushedBack := by
  have hrun' : Run (fun x round x' => QueueOk max x ∧ Retriable env x ∧ QueueStep env x round x')
      x rounds x' :=
    hrun.mono (fun _ _ _ h hstep => h.step hstep.2) (fun _ _ _ h hstep => ⟨h, hstep⟩) hok
  refine hrun'.isChain (q := fun x => x.1.Fresh)
    (fun _ _ _ hstep hround => fresh_of_pushedBack hstep.2.2 hround) fun x round x' hfresh hstep => ?_
  obtain ⟨hok, hroom, hstep⟩ := hstep
  cases hstep with
  | applied => exact Bool.false_ne_true
  | pushedBack answer sealed => exact absurd answer (not_full_of_fresh hok hroom hfresh)

end Fresh

/-! ## Proposed blocks end -/

/-- The mempool, told of some of what the keeper has sent, has admitted the batch. -/
def Admitted (accounts : AList fun _ : AccountId => Account) (sent : List CommitRequest)
    (maxBlockSizeChunks maxWithdrawals : Nat) (batch : SignedTxsBatch) : Prop :=
  ∃ (told : List CommitRequest) (m m' : Mempool), told <+: sent ∧
    m.mempoolState.accountNonces = (MempoolState.after accounts told).accountNonces ∧
    m.maxBlockSizeChunks = maxBlockSizeChunks ∧ m.maxNumberOfWithdrawalsPerBlock = maxWithdrawals ∧
    m.addBatch batch.txs batch.batchId = .ok m'

section Ends

variable {env : Env} {accounts : AList fun _ : AccountId => Account} {lastBlockNumber : BlockNumber}
  {unprocessedPriorityOp : UInt64} {feeAccountAddress : Address} {sizes : List Nat}
  {maxMini fastMini maxWithdrawals max : Nat} {k₀ k : ZkSyncStateKeeper}

/-- What the mempool has admitted has room in a fresh block. -/
theorem queueOk_of_run (hnew : ZkSyncStateKeeper.new env (.fromAccMap env.hasher accounts
      lastBlockNumber unprocessedPriorityOp) feeAccountAddress sizes maxMini fastMini
      maxWithdrawals = .ok k₀)
    (hmax : sizes.max? = some max) (hsize : ∃ size ∈ sizes, ∀ op : ZkSyncOp, op.chunks ≤ size)
    {tr : List (KeeperCall × KeeperReply)} (hrun : Run (KeeperStep env) k₀ tr k)
    {proposedBlock : ProposedBlock} (hadmitted : ∀ batch, .Batch batch ∈ proposedBlock.txs →
      Admitted accounts (sentBy tr) max maxWithdrawals batch) :
    QueueOk max (k, proposedBlock.calls) := by
  obtain ⟨blockNumber, feeAccountId, maxBlockSize, hnewOk, ⟨hash, hroot⟩, hk⟩ :=
    ZkSyncStateKeeper.new_eq_ok hnew
  have hsizes : k.availableBlockChunkSizes = sizes := by
    have hrel := hrun.rel (R := fun k k' => k'.availableBlockChunkSizes = k.availableBlockChunkSizes)
      (fun _ => rfl) (fun _ _ _ h h' => by rw [h', h]) fun _ _ _ h => (config_step h).1
    rw [hrel, hk]
    rfl
  have hcreates : CreatesKnown k₀.pendingBlock.accountUpdates k₀.state := by
    rw [hk]
    exact noCreate_nil.createsKnown _
  obtain ⟨hmem, hle⟩ := List.max?_eq_some_iff.mp hmax
  have hlast : sizes.getLast? = some max := (max?_eq_getLast? hnewOk.sorted).symm.trans hmax
  obtain ⟨size, hsize, hfits⟩ := hsize
  have hsix : 6 ≤ size := hfits (.Deposit ⟨⟨0, 0, 0, 0⟩, 0⟩)
  refine ⟨(congrArg List.getLast? hsizes).trans hlast, Nat.le_trans hsix (hle size hsize),
    (createsKnown_run hrun hcreates).2.1, isEntry_calls, fun txs batchId hb => ?_⟩
  rcases List.mem_append.mp hb with hb | hb
  · obtain ⟨op, -, he⟩ := List.mem_map.mp hb
    cases he
  · obtain ⟨variant, hvariant, he⟩ := List.mem_map.mp hb
    cases variant with
    | Tx tx => cases he
    | Batch batch =>
      cases he
      obtain ⟨told, m, m', htold, hnonces, hchunks, -, hadd⟩ := hadmitted batch hvariant
      refine ⟨m.mempoolState, fun address hadr => ?_, ?_⟩
      · rw [hnonces] at hadr
        exact knownTo_run hnew hrun htold address hadr
      · rw [← hchunks]
        exact (addBatch_eq_ok hadd).1

/-- Over every run and every proposed block whose batches the mempool admits: in
rounds that meet the condition no operation is put back twice, and if all rounds
do, the loops end. -/
theorem proposedBlock_terminates (hnew : ZkSyncStateKeeper.new env (.fromAccMap env.hasher accounts
      lastBlockNumber unprocessedPriorityOp) feeAccountAddress sizes maxMini fastMini
      maxWithdrawals = .ok k₀)
    (hmax : sizes.max? = some max) (hsize : ∃ size ∈ sizes, ∀ op : ZkSyncOp, op.chunks ≤ size)
    {tr : List (KeeperCall × KeeperReply)} (hrun : Run (KeeperStep env) k₀ tr k)
    (proposedBlock : ProposedBlock) (hadmitted : ∀ batch, .Batch batch ∈ proposedBlock.txs →
      Admitted accounts (sentBy tr) max maxWithdrawals batch) :
    (∀ rounds x', Run (fun x round x' => Retriable env x ∧ QueueStep env x round x')
      (k, proposedBlock.calls) rounds x' →
      rounds.IsChain fun round next => round.isPushedBack → ¬ next.isPushedBack) ∧
    ((∀ rounds x', Run (QueueStep env) (k, proposedBlock.calls) rounds x' → Retriable env x') →
      ∀ fuel, 2 * proposedBlock.calls.length ≤ fuel →
        k.executeProposedBlock env fuel proposedBlock ≠ .ok none) := by
  have hok := queueOk_of_run hnew hmax hsize hrun hadmitted
  refine ⟨fun rounds x' hrounds => isChain_rounds hok hrounds, fun hall fuel hfuel h => ?_⟩
  obtain ⟨rounds, k', queue', hrounds, hlength, hne⟩ := proposedBlock_rounds h
  have hguarded := hrounds.always hall
  have hchain := isChain_rounds hok hguarded
  have htwice := (length_le_of_isChain hchain).1
  have happlied := rounds_applied hrounds
  have hleft := List.length_pos_iff.mpr hne
  dsimp only at happlied
  omega

/-- In every state, a fresh block has room for 45 transactions without withdrawals. -/
theorem room_new {s : ZkSyncState} {before : UInt64} {chunksLeft : Nat} {txs : List ZkSyncTx}
    (hlength : txs.length ≤ 45) (hno : txs.countP ZkSyncTx.countsAsWithdrawal = 0) :
    (PendingBlock.new before chunksLeft).Room env s maxWithdrawals txs := by
  have hsum : ∀ (opCost : ZkSyncOp → Outcome Nat) (bound : Nat),
      (∀ op cost, opCost op = .ok cost → cost ≤ bound) →
      (txs.map (s.gasOf env opCost)).sum ≤ 45 * bound := by
    intro opCost bound hle
    have hone : ∀ cost ∈ txs.map (s.gasOf env opCost), cost ≤ bound := by
      intro cost hcost
      obtain ⟨tx, -, rfl⟩ := List.mem_map.mp hcost
      unfold ZkSyncState.gasOf
      split
      next op _ =>
        cases hop : opCost op with
        | ok cost => exact hle op cost hop
        | error _ => exact Nat.zero_le _
      next => exact Nat.zero_le _
    refine Nat.le_trans (List.sum_le_card_nsmul _ bound hone) ?_
    rw [List.length_map]
    show txs.length * bound ≤ 45 * bound
    exact Nat.mul_le_mul_right _ hlength
  have hcommit : GasCounter.scaleUp (CommitCost.BASE_COST +
      45 * CommitCost.CHANGE_PUBKEY_COST_OFFCHAIN) ≤ TX_GAS_LIMIT := by decide
  have hverify : GasCounter.scaleUp (VerifyCost.BASE_COST + 45 * VerifyCost.WITHDRAW_COST) ≤
      TX_GAS_LIMIT := by decide
  refine ⟨?_, ?_, ?_⟩
  · rw [hno]
    exact Nat.zero_le _
  · exact Nat.le_trans (scaleUp_mono (Nat.add_le_add_left
      (hsum _ _ fun _ _ => commitCost_le) _)) hcommit
  · exact Nat.le_trans (scaleUp_mono (Nat.add_le_add_left
      (hsum _ _ fun _ _ => verifyCost_le) _)) hverify

theorem proposedBlock_terminates_sampleTransfers : ∃ k₀,
    ZkSyncStateKeeper.new Env.leafOne leftoverParams 1 [6, 30] 10 2 5 = .ok k₀ ∧
    ∀ fuel, 2 ≤ fuel →
      k₀.executeProposedBlock Env.leafOne fuel ⟨[], [.Batch ⟨sampleTransfers, 1⟩]⟩ ≠ .ok none := by
  obtain ⟨k₀, hnew, -, -⟩ := new_leftoverKeeper
  have hadd : ((Mempool.mk (MempoolState.after leftoverAccounts []) 30 5).addBatch
      sampleTransfers 1).toOption.isSome = true := by decide +kernel
  obtain ⟨m', hm'⟩ := Option.isSome_iff_exists.mp hadd
  have hadmitted : Admitted leftoverAccounts [] 30 5 ⟨sampleTransfers, 1⟩ :=
    ⟨[], _, m', List.nil_prefix, rfl, rfl, rfl, Outcome.toOption_eq_some.mp hm'⟩
  refine ⟨k₀, hnew, (proposedBlock_terminates hnew rfl ⟨6, List.mem_cons_self, ZkSyncOp.chunks_le⟩
    (.nil k₀) ⟨[], [.Batch ⟨sampleTransfers, 1⟩]⟩ (fun batch hbatch => ?_)).2 fun rounds x' hrounds => ?_⟩
  · cases List.mem_singleton.mp hbatch
    exact hadmitted
  · intro call hcall hfresh
    obtain ⟨max, -, hpending⟩ := hfresh
    have hmem := (rounds_suffix hrounds).subset (List.mem_of_mem_head? hcall)
    obtain rfl := List.mem_singleton.mp hmem
    rw [hpending]
    exact room_new (by decide) (by decide)

end Ends

/-! ## A loop without end -/

section Forever

variable {env : Env} {k k₁ : ZkSyncStateKeeper}

/-- The fee account is where the index says. -/
def ZkSyncStateKeeper.FeeAccountIndexed (k : ZkSyncStateKeeper) : Prop :=
  ∃ a, k.state.getAccount k.feeAccountId = some a ∧
    k.state.accountIdByAddress.lookup a.address = some k.feeAccountId

theorem KeeperAlike.feeAccountIndexed {k' : ZkSyncStateKeeper} (h : KeeperAlike k k')
    (hfee : k.FeeAccountIndexed) : k'.FeeAccountIndexed := by
  obtain ⟨a, ha, hi⟩ := hfee
  have hid : k'.feeAccountId = k.feeAccountId := by
    rw [h.rest]
  have hrel := h.state.accounts k.feeAccountId
  rw [ha] at hrel
  unfold ZkSyncStateKeeper.FeeAccountIndexed
  rw [hid]
  generalize k'.state.getAccount k.feeAccountId = o at hrel
  cases hrel with
  | some hequiv => exact ⟨_, rfl, by rw [h.state.index, ← hequiv.address]; exact hi⟩

/-- A fresh block that refuses an operation is sealed, and what follows is a keeper alike. -/
theorem exists_sealed_empty (hrelease : env.overflowChecks = false) (hfresh : k.Fresh)
    (hhash : Hashable env k) (hfee : k.FeeAccountIndexed) {call : KeeperCall}
    (htok : call.FeeTokenOk) (h : KeeperStep env k (call, .full) k₁) :
    ∃ request updates k', k₁.sealPendingBlock env = .ok ((request, updates), k') ∧
      KeeperAlike k k' ∧ k'.Fresh ∧ Hashable env k' := by
  obtain ⟨max, hmax, hpending⟩ := hfresh
  obtain ⟨a, ha, hi⟩ := hfee
  have hhash₁ := hhash.step htok h
  have heff := h.effect
  dsimp only at heff
  cases heff with
  | @full _ p counted =>
    have hp : p.successOperations = [] ∧ p.failedTxs = [] ∧ p.accountUpdates = [] ∧
        p.collectedFees = [] ∧ p.storedAccountUpdates = 0 := by
      unfold Counted at counted
      rw [counted, hpending]
      exact ⟨rfl, rfl, rfl, rfl, rfl⟩
    obtain ⟨hops, hfailed, hupdates, hfees, hstored⟩ := hp
    have hpaid : k.state.collectFee p.collectedFees k.feeAccountId =
        .ok ([], k.state.insertAccount k.feeAccountId a) := by
      unfold ZkSyncState.collectFee
      rw [hfees, ha]
      rfl
    obtain ⟨size, hsize⟩ := smallestBlockSizeForChunks_ok (List.mem_of_getLast? hmax) (Nat.zero_le max)
    obtain ⟨request, updates, k', hseal⟩ := hhash₁.seal hpaid hmax
      (by rw [hops, hfailed]; exact hsize) (by rw [hstored]; exact Nat.zero_le _)
      (by rw [hrelease]; rfl)
    refine ⟨request, updates, k', hseal, ?_⟩
    have hhash' := hhash₁.step (e := (.sealBlock, .sealed request updates)) trivial (sealStep hseal)
    obtain ⟨feeUpdates, paid, hashed, blockNumber, max', hs, -, hmax', rfl⟩ :=
      sealPendingBlock_eq_ok hseal
    obtain rfl := Option.some.inj (hmax.symm.trans hmax')
    have hfees' := hs.fees
    rw [hpaid] at hfees'
    obtain ⟨-, rfl⟩ := Prod.mk.inj (Except.ok.inj hfees')
    have halike : Alike k.state hashed :=
      (Alike.of_insert_same ha hi).trans (Alike.of_rootHash hs.root)
    refine ⟨⟨⟨halike.1, halike.2, halike.3⟩, ?_⟩, ⟨max, hmax, rfl⟩, hhash'⟩
    dsimp only
    rw [← hpending]

/-- An operation that a fresh block refuses is never applied: a release build seals
empty blocks forever. -/
theorem refused_forever (hrelease : env.overflowChecks = false) (hfresh : k.Fresh)
    (hhash : Hashable env k) (hfee : k.FeeAccountIndexed) {call : KeeperCall}
    (hentry : call.IsEntry) (htok : call.FeeTokenOk) (h : KeeperStep env k (call, .full) k₁)
    (queue : List KeeperCall) (fuel : Nat) :
    k.executeQueue env fuel (call :: queue) = .ok none := by
  induction fuel generalizing k k₁ with
  | zero => rfl
  | succ fuel ih =>
    obtain ⟨request, updates, k', hseal, halike, hfresh', hhash'⟩ :=
      exists_sealed_empty hrelease hfresh hhash hfee htok h
    have hanswer : k.answer env call = .ok (.full, k₁) := h
    obtain ⟨⟨reply, k₂⟩, h₂, hreply, -⟩ := (halike.answer_entry hentry).of_ok hanswer
    obtain rfl : KeeperReply.full = reply := hreply
    unfold ZkSyncStateKeeper.executeQueue
    rw [hanswer, Outcome.ok_bind]
    dsimp only
    rw [hseal, Outcome.ok_bind]
    dsimp only
    rw [ih hfresh' hhash' (halike.feeAccountIndexed hfee) h₂]
    rfl

end Forever

/-- A withdrawal of nothing from account 0. -/
def sampleWithdraw (nonce : Nonce) : Withdraw where
  accountId := 0
  fromAddress := 1
  toAddress := 2
  token := 0
  amount := 0
  fee := 0
  nonce := nonce
  signature := ⟨0, 0⟩
  fast := false

/-- 46 withdrawals: 276 chunks, and (1000000 + 46 * 45668) * 1.3 gas to verify. -/
def retriedBatch : SignedTxsBatch where
  txs := (List.range 46).map fun n => ⟨.Withdraw (sampleWithdraw (UInt32.ofNat n)), none⟩
  batchId := 1

theorem admitted_retriedBatch : Admitted leftoverAccounts [] 300 50 retriedBatch := by
  have hadd : ((Mempool.mk (MempoolState.after leftoverAccounts []) 300 50).addBatch
      retriedBatch.txs retriedBatch.batchId).toOption.isSome = true := by decide +kernel
  obtain ⟨m', hm'⟩ := Option.isSome_iff_exists.mp hadd
  exact ⟨[], _, m', List.nil_prefix, rfl, rfl, rfl, Outcome.toOption_eq_some.mp hm'⟩

/-- The mempool admits the batch to blocks of 300 chunks with 50 withdrawals, and no
number of rounds is enough to execute it. -/
theorem retried_forever : ∃ k₀,
    ZkSyncStateKeeper.new Env.leafOne leftoverParams 1 [6, 300] 10 2 50 = .ok k₀ ∧
    Admitted leftoverAccounts (sentBy []) 300 50 retriedBatch ∧
    ∀ fuel, k₀.executeProposedBlock Env.leafOne fuel ⟨[], [.Batch retriedBatch]⟩ = .ok none := by
  obtain ⟨k₀, hnew, halike, hhash⟩ := Hashable.exists_new 10 2 50
    (fun _ _ => leftoverAccounts_fit)
    (⟨by decide, by decide, rfl, ⟨sampleAccount, rfl⟩, rfl⟩ : ZkSyncStateKeeper.NewOk Env.leafOne
      leftoverParams 1 [6, 300] 1 0 300)
  have hfull : ((ZkSyncStateKeeper.unhashed leftoverParams 1 0 300 [6, 300] 10 2 50).answer
      Env.leafOne (SignedTxVariant.Batch retriedBatch).call).toOption.map (·.1) =
      some .full := by decide +kernel
  obtain ⟨⟨reply, k⟩, hsome, rfl⟩ := Option.map_eq_some_iff.mp hfull
  obtain ⟨⟨reply', k₁⟩, hanswer, hreply, -⟩ := (halike.answer_entry (isEntry_call (.Batch retriedBatch))).of_ok
    (Outcome.toOption_eq_some.mp hsome)
  obtain rfl : KeeperReply.full = reply' := hreply
  have hfee : (ZkSyncStateKeeper.unhashed leftoverParams 1 0 300 [6, 300] 10 2 50).FeeAccountIndexed :=
    ⟨sampleAccount, rfl, rfl⟩
  have hfresh : k₀.Fresh := ⟨300, by rw [halike.rest]; rfl, by rw [halike.rest]; rfl⟩
  refine ⟨k₀, hnew, admitted_retriedBatch, fun fuel => ?_⟩
  have hqueue := refused_forever rfl hfresh hhash (halike.feeAccountIndexed hfee)
    (isEntry_call (.Batch retriedBatch)) (fun request hr => by
      obtain ⟨n, -, rfl⟩ := List.mem_map.mp hr
      exact trivial) hanswer [] fuel
  unfold ZkSyncStateKeeper.executeProposedBlock
  have hnone : k₀.executeQueue Env.leafOne fuel ([].map KeeperCall.priorityOp) = .ok (some ([], k₀)) := by
    cases fuel <;> rfl
  rw [hnone, Outcome.ok_bind]
  dsimp only
  rw [show [SignedTxVariant.Batch retriedBatch].map SignedTxVariant.call =
    [(SignedTxVariant.Batch retriedBatch).call] from rfl, hqueue]
  rfl

end ZkSync
