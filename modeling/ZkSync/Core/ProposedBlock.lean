import ZkSync.Core.KeeperCalls

/-!
# Proposed blocks

What the mailbox of the state keeper holds: a proposed block of the mempool, or
the request to seal. `execute_proposed_block` takes the operations from a queue
one by one; one that finds the block full goes back to the front of the queue
after the block was sealed. `executeQueue` is that loop, with a bound on its
rounds, and `QueueStep` is one round of it.

Everything it does is made of calls of the keeper, so a run of the keeper over
requests is a run over calls (`executeProposedBlock_run`), and what holds of
every run over calls holds at every moment of every request. The operations it
collects in `executed_ops` are not modelled: nothing reads them.
-/

namespace ZkSync

/-- Transactions that are executed together, under one id. -/
structure SignedTxsBatch where
  txs : List SignedZkSyncTx
  batchId : Int
  deriving DecidableEq

/-- An entry of the queue: a transaction or a batch. -/
inductive SignedTxVariant where
  | Tx (tx : SignedZkSyncTx)
  | Batch (batch : SignedTxsBatch)
  deriving DecidableEq

/-- What the proposer has chosen for a mini block. -/
structure ProposedBlock where
  priorityOps : List PriorityOp
  txs : List SignedTxVariant
  deriving DecidableEq

/-- What the keeper sends to the committer. -/
inductive CommitRequest where
  | Block (request : BlockCommitRequest) (updates : AppliedUpdatesRequest)
  | PendingBlock (pendingBlock : SendablePendingBlock) (updates : AppliedUpdatesRequest)
  deriving DecidableEq

/-- What the keeper finds in its mailbox. -/
inductive StateKeeperRequest where
  | ExecuteMiniBlock (proposedBlock : ProposedBlock)
  | SealBlock
  deriving DecidableEq

/-- The call that tries an entry of the queue. -/
def SignedTxVariant.call : SignedTxVariant → KeeperCall
  | .Tx tx => .tx tx
  | .Batch batch => .batch batch.txs batch.batchId

/-- What a call sends. -/
def KeeperReply.sent : KeeperReply → List CommitRequest
  | .executed _ => []
  | .full => []
  | .sealed request updates => [.Block request updates]
  | .stored pendingBlock updates => [.PendingBlock pendingBlock updates]

namespace ZkSyncStateKeeper

/-- The loops of `execute_proposed_block` over a queue; `none` if the bound on
the rounds is reached. -/
def executeQueue (env : Env) :
    Nat → ZkSyncStateKeeper → List KeeperCall →
      Except KeeperPanic (Option (List CommitRequest × ZkSyncStateKeeper))
  | _, k, [] => .ok (some ([], k))
  | 0, _, _ :: _ => .ok none
  | fuel + 1, k, call :: queue => do
    let (reply, k) ← k.answer env call
    match reply with
    | .full =>
      let ((request, updates), k) ← k.sealPendingBlock env
      let result ← executeQueue env fuel k (call :: queue)
      return result.map fun r => (.Block request updates :: r.1, r.2)
    | _ => executeQueue env fuel k queue

/-- `execute_proposed_block`, with a bound on the rounds of each of its loops. -/
def executeProposedBlock (env : Env) (fuel : Nat) (k : ZkSyncStateKeeper)
    (proposedBlock : ProposedBlock) :
    Except KeeperPanic (Option (List CommitRequest × ZkSyncStateKeeper)) := do
  let afterOps ← k.executeQueue env fuel (proposedBlock.priorityOps.map .priorityOp)
  match afterOps with
  | none => return none
  | some (sent, k) =>
    let afterTxs ← k.executeQueue env fuel (proposedBlock.txs.map SignedTxVariant.call)
    match afterTxs with
    | none => return none
    | some (sent', k) =>
      let (reply, k) ← k.answer env .endMiniBlock
      return some (sent ++ sent' ++ reply.sent, k)

/-- The calls of a list, one after the other, whatever the answers. -/
def answers (env : Env) : ZkSyncStateKeeper → List KeeperCall →
    Except KeeperPanic (List (KeeperCall × KeeperReply) × ZkSyncStateKeeper)
  | k, [] => .ok ([], k)
  | k, call :: calls => do
    let (reply, k) ← k.answer env call
    let (tr, k) ← answers env k calls
    return ((call, reply) :: tr, k)

/-- A request of the mailbox. -/
def handle (env : Env) (fuel : Nat) (k : ZkSyncStateKeeper) :
    StateKeeperRequest → Except KeeperPanic (Option (List CommitRequest × ZkSyncStateKeeper))
  | .ExecuteMiniBlock proposedBlock => k.executeProposedBlock env fuel proposedBlock
  | .SealBlock => do
    let ((request, updates), k) ← k.sealPendingBlock env
    return some ([.Block request updates], k)

end ZkSyncStateKeeper

/-- The calls that a queue holds. -/
def KeeperCall.IsEntry : KeeperCall → Prop
  | .priorityOp _ => True
  | .tx _ => True
  | .batch _ _ => True
  | _ => False

/-! ## Requests are calls -/

section Runs

variable {env : Env} {k k' : ZkSyncStateKeeper}

/-- What the calls of a run sent. -/
def sentBy (tr : List (KeeperCall × KeeperReply)) : List CommitRequest :=
  tr.flatMap fun e => e.2.sent

/-- Sealing is a step of the keeper. -/
theorem sealStep {request : BlockCommitRequest} {updates : AppliedUpdatesRequest}
    (h : k.sealPendingBlock env = .ok ((request, updates), k')) :
    KeeperStep env k (.sealBlock, .sealed request updates) k' := by
  show k.sealReply env = .ok (.sealed request updates, k')
  unfold ZkSyncStateKeeper.sealReply
  rw [h]
  rfl

/-- A row of calls is a run of the keeper. -/
theorem answers_run {calls : List KeeperCall} {tr : List (KeeperCall × KeeperReply)}
    (h : k.answers env calls = .ok (tr, k')) :
    Run (KeeperStep env) k tr k' ∧ tr.map Prod.fst = calls := by
  induction calls generalizing k tr with
  | nil =>
    cases h
    exact ⟨.nil _, rfl⟩
  | cons call calls ih =>
    unfold ZkSyncStateKeeper.answers at h
    simp only [Outcome.bind_eq_ok] at h
    obtain ⟨⟨reply, k₁⟩, h₁, ⟨tr', k₂⟩, h₂, h⟩ := h
    cases h
    obtain ⟨hrun, hcalls⟩ := ih h₂
    exact ⟨.cons h₁ hrun, by rw [List.map_cons, hcalls]⟩

/-- One call. -/
theorem answers_single {call : KeeperCall} {tr : List (KeeperCall × KeeperReply)}
    (h : k.answers env [call] = .ok (tr, k')) :
    ∃ reply, tr = [(call, reply)] ∧ KeeperStep env k (call, reply) k' := by
  unfold ZkSyncStateKeeper.answers at h
  rw [Outcome.bind_eq_ok] at h
  obtain ⟨⟨reply, k₁⟩, hanswer, h⟩ := h
  cases h
  exact ⟨reply, rfl, hanswer⟩

/-- An entry of the queue is executed, or the block is full. -/
theorem KeeperStep.entry {call : KeeperCall} {reply : KeeperReply}
    (h : KeeperStep env k (call, reply) k') (hentry : call.IsEntry) :
    reply = .full ∨ ∃ ops, reply = .executed ops := by
  have heff := h.effect
  cases heff with
  | full => exact Or.inl rfl
  | priorityOp => exact Or.inr ⟨_, rfl⟩
  | tx => exact Or.inr ⟨_, rfl⟩
  | batch => exact Or.inr ⟨_, rfl⟩
  | sealed hb =>
    rcases hb with ⟨rfl, -⟩ | ⟨rfl, -⟩ <;> exact hentry.elim
  | stored => exact hentry.elim

/-- The loop is a run of the keeper. The induction is on the bound. -/
theorem executeQueue_run : ∀ (fuel : Nat) (k : ZkSyncStateKeeper) (queue : List KeeperCall)
    {sent : List CommitRequest} {k' : ZkSyncStateKeeper}, (∀ call ∈ queue, call.IsEntry) →
    k.executeQueue env fuel queue = .ok (some (sent, k')) →
    ∃ tr, Run (KeeperStep env) k tr k' ∧ sent = sentBy tr := by
  intro fuel
  induction fuel with
  | zero =>
    intro k queue sent k' _ h
    cases queue with
    | nil =>
      cases h
      exact ⟨[], .nil _, rfl⟩
    | cons call queue => cases h
  | succ fuel ih =>
    intro k queue sent k' hentries h
    cases queue with
    | nil =>
      cases h
      exact ⟨[], .nil _, rfl⟩
    | cons call queue =>
      unfold ZkSyncStateKeeper.executeQueue at h
      rw [Outcome.bind_eq_ok] at h
      obtain ⟨⟨reply, k₁⟩, hanswer, h⟩ := h
      have hstep : KeeperStep env k (call, reply) k₁ := hanswer
      rcases hstep.entry (hentries call List.mem_cons_self) with rfl | ⟨ops, rfl⟩
      · dsimp only at h
        rw [Outcome.bind_eq_ok] at h
        obtain ⟨⟨⟨request, updates⟩, k₂⟩, hseal, h⟩ := h
        dsimp only at h
        rw [Outcome.bind_eq_ok] at h
        obtain ⟨result, hresult, h⟩ := h
        cases result with
        | none => cases h
        | some r =>
          obtain ⟨sent', k₃⟩ := r
          cases h
          obtain ⟨tr, hrun, rfl⟩ := ih k₂ (call :: queue) hentries hresult
          exact ⟨_, .cons hstep (.cons (sealStep hseal) hrun), rfl⟩
      · obtain ⟨tr, hrun, rfl⟩ := ih k₁ queue
          (fun call' h' => hentries call' (List.mem_cons_of_mem _ h')) h
        exact ⟨_, .cons hstep hrun, rfl⟩

/-- The entries of a queue send nothing by themselves. -/
theorem answers_sent {calls : List KeeperCall} {tr : List (KeeperCall × KeeperReply)}
    (hentries : ∀ call ∈ calls, call.IsEntry) (h : k.answers env calls = .ok (tr, k')) :
    sentBy tr = [] := by
  induction calls generalizing k tr with
  | nil =>
    cases h
    rfl
  | cons call calls ih =>
    unfold ZkSyncStateKeeper.answers at h
    simp only [Outcome.bind_eq_ok] at h
    obtain ⟨⟨reply, k₁⟩, h₁, ⟨tr', k₂⟩, h₂, h⟩ := h
    cases h
    have hrest := ih (fun c hc => hentries c (List.mem_cons_of_mem _ hc)) h₂
    have hstep : KeeperStep env k (call, reply) k₁ := h₁
    have hsent : sentBy ((call, reply) :: tr') = reply.sent ++ sentBy tr' := List.flatMap_cons
    rw [hsent, hrest]
    rcases hstep.entry (hentries call List.mem_cons_self) with rfl | ⟨ops, rfl⟩ <;> rfl

/-- Nothing but the block is sent when it is sealed. -/
theorem sentBy_seal {calls : List KeeperCall} {tr : List (KeeperCall × KeeperReply)}
    {request : BlockCommitRequest} {updates : AppliedUpdatesRequest}
    (hentries : ∀ call ∈ calls, call.IsEntry) (h : k.answers env calls = .ok (tr, k')) :
    sentBy (tr ++ [(.sealBlock, .sealed request updates)]) = [.Block request updates] := by
  unfold sentBy
  rw [List.flatMap_append, List.flatMap_singleton]
  exact congrArg (· ++ _) (answers_sent hentries h)

/-- An entry of the queue is called as a transaction or a batch. -/
theorem isEntry_call (variant : SignedTxVariant) : variant.call.IsEntry := by
  cases variant <;> exact trivial

/-- A proposed block that was executed is a run of the keeper. -/
theorem executeProposedBlock_run {fuel : Nat} {proposedBlock : ProposedBlock}
    {sent : List CommitRequest}
    (h : k.executeProposedBlock env fuel proposedBlock = .ok (some (sent, k'))) :
    ∃ tr, Run (KeeperStep env) k tr k' ∧ sent = sentBy tr := by
  unfold ZkSyncStateKeeper.executeProposedBlock at h
  rw [Outcome.bind_eq_ok] at h
  obtain ⟨afterOps, hops, h⟩ := h
  cases afterOps with
  | none => cases h
  | some r =>
    obtain ⟨sent₁, k₁⟩ := r
    dsimp only at h
    rw [Outcome.bind_eq_ok] at h
    obtain ⟨afterTxs, htxs, h⟩ := h
    cases afterTxs with
    | none => cases h
    | some r =>
      obtain ⟨sent₂, k₂⟩ := r
      dsimp only at h
      rw [Outcome.bind_eq_ok] at h
      obtain ⟨⟨reply, k₃⟩, hend, h⟩ := h
      cases h
      obtain ⟨tr₁, hrun₁, rfl⟩ := executeQueue_run fuel k _ (fun call hc => by
        obtain ⟨op, -, rfl⟩ := List.mem_map.mp hc
        exact trivial) hops
      obtain ⟨tr₂, hrun₂, rfl⟩ := executeQueue_run fuel k₁ _ (fun call hc => by
        obtain ⟨variant, -, rfl⟩ := List.mem_map.mp hc
        exact isEntry_call variant) htxs
      have hstep : KeeperStep env k₂ (.endMiniBlock, reply) k₃ := hend
      refine ⟨tr₁ ++ tr₂ ++ [(.endMiniBlock, reply)],
        (hrun₁.append hrun₂).append (Run.single hstep), ?_⟩
      unfold sentBy
      rw [List.flatMap_append, List.flatMap_append, List.flatMap_singleton]

/-- A request that was handled is a run of the keeper. -/
theorem handle_run {fuel : Nat} {request : StateKeeperRequest} {sent : List CommitRequest}
    (h : k.handle env fuel request = .ok (some (sent, k'))) :
    ∃ tr, Run (KeeperStep env) k tr k' ∧ sent = sentBy tr := by
  cases request with
  | ExecuteMiniBlock proposedBlock => exact executeProposedBlock_run h
  | SealBlock =>
    unfold ZkSyncStateKeeper.handle at h
    rw [Outcome.bind_eq_ok] at h
    obtain ⟨⟨⟨request, updates⟩, k₁⟩, hseal, h⟩ := h
    cases h
    exact ⟨_, Run.single (sealStep hseal), rfl⟩

end Runs

end ZkSync
