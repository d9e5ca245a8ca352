import ZkSync.Core.ProposedBlock
import ZkSync.State.Alike
import ZkSync.State.RootHash

/-!
# Keepers that behave alike

Two keepers that differ in their states only, and whose states are `Alike`,
answer every call alike. A new keeper has asked for the root hash of its state
once, which fills the cache of the tree; `new_alike` says that it behaves like
the keeper that has not asked.
-/

namespace ZkSync

open Outcome (Related)

/-- The same keeper, over states that are alike. -/
structure KeeperAlike (k k' : ZkSyncStateKeeper) : Prop where
  state : Alike k.state k'.state
  rest : k' = { k with state := k'.state }

/-- The same answer, and keepers alike. -/
def SameAnswer {α : Type} (r r' : α × ZkSyncStateKeeper) : Prop :=
  r.1 = r'.1 ∧ KeeperAlike r.2 r'.2

section Calls

variable {env : Env} {s s' : ZkSyncState}

theorem related_infallible {α : Type} {R : α → α → Prop} {x y : Outcome α}
    (source : String → KeeperPanic) (h : Related R x y) :
    Related R (infallible source x) (infallible source y) := by
  cases h with
  | ok h => exact .ok h
  | error e => exact .error _

theorem PendingBlock.admitTx_alike (h : Alike s s') (maxWithdrawals : Nat) (marksFast : Bool)
    (p : PendingBlock) (tx : ZkSyncTx) :
    p.admitTx env s maxWithdrawals marksFast tx = p.admitTx env s' maxWithdrawals marksFast tx := by
  unfold PendingBlock.admitTx
  rw [h.zksyncTxToZksyncOp]

theorem PendingBlock.admitBatch_alike (h : Alike s s') (maxWithdrawals : Nat)
    (txs : List ZkSyncTx) (p : PendingBlock) :
    p.admitBatch env s maxWithdrawals txs = p.admitBatch env s' maxWithdrawals txs := by
  induction txs generalizing p with
  | nil => rfl
  | cons tx txs ih =>
    unfold PendingBlock.admitBatch
    rw [admitTx_alike h]
    simp only [ih]

theorem related_executeTxResult (h : Alike s s') (tx : ZkSyncTx) :
    Related SameResult (ZkSyncStateKeeper.executeTxResult env s tx)
      (ZkSyncStateKeeper.executeTxResult env s' tx) := by
  have htx : Related SameResult (s.executeTx env tx) (s'.executeTx env tx) := h.executeTx tx
  unfold ZkSyncStateKeeper.executeTxResult
  generalize s.executeTx env tx = x at htx
  generalize s'.executeTx env tx = y at htx
  cases htx with
  | ok hr => exact .ok ⟨congrArg Except.ok hr.1, hr.2⟩
  | error e =>
    cases e with
    | error message => exact .ok ⟨rfl, h⟩
    | panic message => exact .error _

end Calls

namespace KeeperAlike

variable {env : Env} {k k' : ZkSyncStateKeeper}

theorem applyPriorityOp (h : KeeperAlike k k') (op : PriorityOp) :
    Related SameAnswer (k.applyPriorityOp env op) (k'.applyPriorityOp env op) := by
  obtain ⟨hs, hk⟩ := h
  generalize k'.state = s' at hs hk
  subst hk
  unfold ZkSyncStateKeeper.applyPriorityOp
  dsimp only
  split
  · exact .ok ⟨rfl, hs, rfl⟩
  · rw [hs.priorityOpToZksyncOp]
    refine .same _ fun nonExecutedOp => .same _ fun gasCounter => ?_
    cases gasCounter with
    | none => exact .ok ⟨rfl, hs, rfl⟩
    | some gasCounter =>
      refine (related_infallible _ (hs.executePriorityOp op.data)).bind fun r r' hr => ?_
      obtain ⟨success, s₁⟩ := r
      obtain ⟨success', s₁'⟩ := r'
      obtain ⟨rfl, hs₁⟩ := hr
      exact .same _ fun _ => .same _ fun _ => .ok ⟨rfl, hs₁, rfl⟩

theorem applyTx (h : KeeperAlike k k') (tx : SignedZkSyncTx) :
    Related SameAnswer (k.applyTx env tx) (k'.applyTx env tx) := by
  obtain ⟨hs, hk⟩ := h
  generalize k'.state = s' at hs hk
  subst hk
  unfold ZkSyncStateKeeper.applyTx
  dsimp only
  rw [hs.chunksForTx]
  refine .same _ fun chunksNeeded => ?_
  split
  · exact .ok ⟨rfl, hs, rfl⟩
  · rw [PendingBlock.admitTx_alike hs]
    refine .same _ fun r => ?_
    obtain ⟨admitted, p⟩ := r
    cases admitted with
    | false => exact .ok ⟨rfl, hs, rfl⟩
    | true =>
      refine (related_executeTxResult hs tx.tx).bind fun r r' hr => ?_
      obtain ⟨result, s₁⟩ := r
      obtain ⟨result', s₁'⟩ := r'
      obtain ⟨rfl, hs₁⟩ := hr
      exact .same _ fun _ => .ok ⟨rfl, hs₁, rfl⟩

theorem applyBatch (h : KeeperAlike k k') (txs : List SignedZkSyncTx) (batchId : Int) :
    Related SameAnswer (k.applyBatch env txs batchId) (k'.applyBatch env txs batchId) := by
  obtain ⟨hs, hk⟩ := h
  generalize k'.state = s' at hs hk
  subst hk
  unfold ZkSyncStateKeeper.applyBatch
  dsimp only
  rw [hs.chunksForBatch]
  refine .same _ fun chunksNeeded => ?_
  split
  · exact .ok ⟨rfl, hs, rfl⟩
  · rw [PendingBlock.admitBatch_alike hs]
    refine .same _ fun r => ?_
    obtain ⟨admitted, p⟩ := r
    cases admitted with
    | false => exact .ok ⟨rfl, hs, rfl⟩
    | true =>
      refine (related_infallible _ (hs.executeTxsBatch txs)).bind fun r r' hr => ?_
      obtain ⟨results, s₁⟩ := r
      obtain ⟨results', s₁'⟩ := r'
      obtain ⟨rfl, hs₁⟩ := hr
      exact .same _ fun _ => .ok ⟨rfl, hs₁, rfl⟩

theorem answer_batch (h : KeeperAlike k k') (txs : List SignedZkSyncTx) (batchId : Int) :
    Related SameAnswer (k.answer env (.batch txs batchId)) (k'.answer env (.batch txs batchId)) := by
  refine (h.applyBatch txs batchId).bind fun r r' hr => ?_
  obtain ⟨r, k₁⟩ := r
  obtain ⟨r', k₁'⟩ := r'
  obtain ⟨rfl, hk⟩ := hr
  cases r <;> exact .ok ⟨rfl, hk⟩

theorem answer_priorityOp (h : KeeperAlike k k') (op : PriorityOp) :
    Related SameAnswer (k.answer env (.priorityOp op)) (k'.answer env (.priorityOp op)) := by
  refine (h.applyPriorityOp op).bind fun r r' hr => ?_
  obtain ⟨r, k₁⟩ := r
  obtain ⟨r', k₁'⟩ := r'
  obtain ⟨rfl, hk⟩ := hr
  cases r <;> exact .ok ⟨rfl, hk⟩

theorem answer_tx (h : KeeperAlike k k') (tx : SignedZkSyncTx) :
    Related SameAnswer (k.answer env (.tx tx)) (k'.answer env (.tx tx)) := by
  refine (h.applyTx tx).bind fun r r' hr => ?_
  obtain ⟨r, k₁⟩ := r
  obtain ⟨r', k₁'⟩ := r'
  obtain ⟨rfl, hk⟩ := hr
  cases r <;> exact .ok ⟨rfl, hk⟩

theorem answer_entry (h : KeeperAlike k k') {call : KeeperCall} (hentry : call.IsEntry) :
    Related SameAnswer (k.answer env call) (k'.answer env call) := by
  cases call with
  | priorityOp op => exact h.answer_priorityOp op
  | tx tx => exact h.answer_tx tx
  | batch txs batchId => exact h.answer_batch txs batchId
  | sealBlock => exact hentry.elim
  | endMiniBlock => exact hentry.elim

theorem answers (calls : List KeeperCall) : ∀ {k k' : ZkSyncStateKeeper}, KeeperAlike k k' →
    (∀ call ∈ calls, call.IsEntry) →
    Related SameAnswer (k.answers env calls) (k'.answers env calls) := by
  induction calls with
  | nil => exact fun h _ => .ok ⟨rfl, h⟩
  | cons call calls ih =>
    intro k k' h hentries
    refine (h.answer_entry (hentries call List.mem_cons_self)).bind fun r r' hr => ?_
    obtain ⟨reply, k₁⟩ := r
    obtain ⟨reply', k₁'⟩ := r'
    obtain ⟨rfl, hk⟩ := hr
    refine (ih hk fun c hc => hentries c (List.mem_cons_of_mem _ hc)).bind fun r r' hr => ?_
    obtain ⟨tr, k₂⟩ := r
    obtain ⟨tr', k₂'⟩ := r'
    obtain ⟨rfl, hk₂⟩ := hr
    exact .ok ⟨rfl, hk₂⟩

end KeeperAlike

/-! ## New keepers -/

namespace ZkSyncStateKeeper

/-- A new keeper that has not asked for its root hash. -/
def unhashed (initialState : ZkSyncStateInitParams) (blockNumber : BlockNumber)
    (feeAccountId : AccountId) (maxBlockSize : Nat) (availableBlockChunkSizes : List Nat)
    (maxMiniblockIterations fastMiniblockIterations maxNumberOfWithdrawalsPerBlock : Nat) :
    ZkSyncStateKeeper where
  state :=
    { balanceTree := initialState.tree
      accountIdByAddress := initialState.accIdByAddr
      blockNumber := blockNumber }
  feeAccountId := feeAccountId
  currentUnprocessedPriorityOp := initialState.unprocessedPriorityOp
  pendingBlock := PendingBlock.new initialState.unprocessedPriorityOp maxBlockSize
  availableBlockChunkSizes := availableBlockChunkSizes
  maxMiniblockIterations := maxMiniblockIterations
  fastMiniblockIterations := fastMiniblockIterations
  maxNumberOfWithdrawalsPerBlock := maxNumberOfWithdrawalsPerBlock

/-- What a new keeper was checked for. -/
structure NewOk (env : Env) (initialState : ZkSyncStateInitParams) (feeAccountAddress : Address)
    (sizes : List Nat) (blockNumber : BlockNumber) (feeAccountId : AccountId) (maxBlockSize : Nat) :
    Prop where
  sizes_ne : sizes ≠ []
  sorted : sizes.Pairwise (· ≤ ·)
  nextBlock : u32Increment env.overflowChecks initialState.lastBlockNumber = .ok blockNumber
  feeAccount : ∃ account, ZkSyncState.getAccountByAddress
    { balanceTree := initialState.tree
      accountIdByAddress := initialState.accIdByAddr
      blockNumber := blockNumber } feeAccountAddress = .ok (some (feeAccountId, account))
  largest : sizes.max? = some maxBlockSize

variable {env : Env} {initialState : ZkSyncStateInitParams} {feeAccountAddress : Address}
  {sizes : List Nat} {maxMini fastMini maxWithdrawals : Nat}

/-- A new keeper passed its checks, and behaves like one that has not asked for
the root hash. -/
theorem new_eq_ok {k : ZkSyncStateKeeper}
    (h : new env initialState feeAccountAddress sizes maxMini fastMini maxWithdrawals = .ok k) :
    ∃ blockNumber feeAccountId maxBlockSize,
      NewOk env initialState feeAccountAddress sizes blockNumber feeAccountId maxBlockSize ∧
      (∃ hash, (unhashed initialState blockNumber feeAccountId maxBlockSize sizes maxMini fastMini
        maxWithdrawals).state.rootHash env.hasher = .ok (hash, k.state)) ∧
      k = { unhashed initialState blockNumber feeAccountId maxBlockSize sizes maxMini fastMini
        maxWithdrawals with state := k.state } := by
  unfold new at h
  simp only [Outcome.bind_eq_ok, Outcome.assert_eq_ok, Outcome.expect_eq_ok] at h
  obtain ⟨_, hne, _, hsorted, blockNumber, hblock, found, hfound, ⟨feeAccountId, account⟩, rfl,
    maxBlockSize, hmax, ⟨hash, state⟩, hroot, h⟩ := h
  cases h
  refine ⟨blockNumber, feeAccountId, maxBlockSize, ⟨hne, ?_, hblock, ⟨account, hfound⟩, hmax⟩,
    ⟨hash, hroot⟩, rfl⟩
  rw [← hsorted]
  exact List.pairwise_insertionSort _ _

/-- The checks of `new` and a root hash are all it takes. -/
theorem new_alike {blockNumber : BlockNumber} {feeAccountId : AccountId} {maxBlockSize : Nat}
    (h : NewOk env initialState feeAccountAddress sizes blockNumber feeAccountId maxBlockSize)
    {hash : Fr} (hroot : ZkSyncState.root env.hasher (unhashed initialState blockNumber feeAccountId
      maxBlockSize sizes maxMini fastMini maxWithdrawals).state = .ok hash) :
    ∃ k, new env initialState feeAccountAddress sizes maxMini fastMini maxWithdrawals = .ok k ∧
      KeeperAlike (unhashed initialState blockNumber feeAccountId maxBlockSize sizes maxMini
        fastMini maxWithdrawals) k := by
  obtain ⟨account, hfound⟩ := h.feeAccount
  unfold ZkSyncState.root at hroot
  obtain ⟨⟨hash', state⟩, hstate, rfl⟩ := Outcome.map_eq_ok.mp hroot
  have hsorted : sizes.insertionSort (· ≤ ·) = sizes := h.sorted.insertionSort_eq
  refine ⟨{ unhashed initialState blockNumber feeAccountId maxBlockSize sizes maxMini fastMini
    maxWithdrawals with state := state }, ?_, Alike.of_rootHash hstate, rfl⟩
  unfold new
  simp only [Outcome.bind_eq_ok, Outcome.assert_eq_ok, Outcome.expect_eq_ok]
  exact ⟨(), h.sizes_ne, (), hsorted, blockNumber, h.nextBlock, _, hfound, (feeAccountId, account),
    rfl, maxBlockSize, h.largest, (hash', state), hstate, rfl⟩

end ZkSyncStateKeeper

end ZkSync
