import ZkSync.Core.KeeperAlike
import ZkSync.Core.KeeperCalls
import ZkSync.State.Atomicity

/-!
# The chunks of the block under construction

Every way into the pending block asks first whether the chunks that are left
suffice, and subtracts its estimate after the execution. A single operation is
charged once what it was estimated at. In a batch *every* successful
transaction is charged the chunks of the whole batch, so a batch that was let
in can take more than is left: the subtraction panics, or wraps in a release
build (`batch_overcharged`).

`KeeperCall.Fits` excludes such batches. Without them the chunks left and the
chunks of the executed operations never exceed the largest block size, and the
block can always be sealed (`chunks_accounted`).
-/

namespace ZkSync

/-- A batch that is let in and succeeds is covered when every one of its
transactions is charged the chunks of the whole batch. -/
def KeeperCall.Fits (env : Env) (k : ZkSyncStateKeeper) : KeeperCall → Prop
  | .batch txs _ => ∀ chunksNeeded p, k.state.chunksForBatch txs = .ok chunksNeeded →
    chunksNeeded ≤ k.pendingBlock.chunksLeft →
    k.pendingBlock.admitBatch env k.state k.maxNumberOfWithdrawalsPerBlock (txs.map (·.tx)) =
      .ok (true, p) →
    executedBefore env k.state (txs.map (·.tx)) = txs.map (·.tx) →
    txs.length * chunksNeeded ≤ k.pendingBlock.chunksLeft
  | _ => True

/-! ## Estimates -/

section Estimates

variable {env : Env} {s s' : ZkSyncState}

/-- No operation takes more than six chunks. -/
theorem ZkSyncOp.chunks_le (op : ZkSyncOp) : op.chunks ≤ 6 := by
  cases op <;> exact Nat.le_of_ble_eq_true rfl

/-- A transfer that is estimated as one to an existing account. -/
theorem chunksForTx_cases {tx : ZkSyncTx} {n : Nat} (h : s.chunksForTx tx = .ok n) :
    (n = 6 ∨ ∃ tx', tx = .Close tx') ∨
      ∃ t, tx = .Transfer t ∧ n = 2 ∧ (s.accountIdByAddress.lookup t.toAddress).isSome := by
  cases tx with
  | Transfer t =>
    unfold ZkSyncState.chunksForTx at h
    dsimp only at h
    rw [Outcome.bind_eq_ok] at h
    obtain ⟨found, hfound, h⟩ := h
    cases found with
    | none => exact Or.inl (Or.inl (Except.ok.inj h).symm)
    | some r =>
      refine Or.inr ⟨t, rfl, (Except.ok.inj h).symm, ?_⟩
      rw [(s.getAccountByAddress_eq_some hfound).1]
      rfl
  | Close tx => exact Or.inl (Or.inr ⟨tx, rfl⟩)
  | Withdraw => exact Or.inl (Or.inl (Except.ok.inj h).symm)
  | ChangePubKey => exact Or.inl (Or.inl (Except.ok.inj h).symm)
  | ForcedExit => exact Or.inl (Or.inl (Except.ok.inj h).symm)

/-- The estimate of a transaction holds in every state whose index has grown. -/
theorem chunks_le_estimate {s₁ s₂ : ZkSyncState} {tx : ZkSyncTx} {n : Nat} {r : OpSuccess}
    (hn : s.chunksForTx tx = .ok n) (hgrows : IndexGrows s s₁)
    (h : s₁.executeTx env tx = .ok (r, s₂)) : r.executedOp.chunks ≤ n := by
  rcases chunksForTx_cases hn with (rfl | ⟨tx', rfl⟩) | ⟨t, rfl, rfl, hsome⟩
  · exact ZkSyncOp.chunks_le _
  · cases h
  · have hsome₁ := hgrows t.toAddress hsome
    cases executeTx_effect h with
    | transfer => exact Nat.le_refl _
    | transferToSelf => exact Nat.le_refl _
    | transferToNew _ _ target =>
      rw [target] at hsome₁
      cases hsome₁

/-- The operations of a batch take at most the chunks of the batch. -/
theorem chunks_le_batch {es : List Executed} (hrun : Run (TxStep env) s es s')
    {txs : List SignedZkSyncTx} {s₀ : ZkSyncState} {n : Nat} (hgrows : IndexGrows s₀ s)
    (hn : s₀.chunksForBatch txs = .ok n) (htxs : txs.map (·.tx) = es.map (·.1)) :
    ∀ e ∈ es, e.2.executedOp.chunks ≤ n := by
  induction hrun generalizing txs n with
  | nil => exact fun e he => absurd he List.not_mem_nil
  | @cons s s₁ s' e es hstep _ ih =>
    obtain ⟨tx, txs', rfl, htx, htxs'⟩ := List.map_eq_cons_iff.mp htxs
    unfold ZkSyncState.chunksForBatch at hn
    simp only [Outcome.bind_eq_ok, Outcome.pure_eq, Except.ok.injEq] at hn
    obtain ⟨c, hc, rest, hrest, rfl⟩ := hn
    rw [htx] at hc
    have hgrows₁ : IndexGrows s₀ s₁ := fun address h =>
      (executeTx_effect hstep).indexGrows address (hgrows address h)
    intro e' he'
    rcases List.mem_cons.mp he' with rfl | he'
    · exact Nat.le_trans (chunks_le_estimate hc hgrows hstep) (Nat.le_add_right _ _)
    · exact Nat.le_trans (ih hgrows₁ hrest htxs' e' he') (Nat.le_add_left _ _)

end Estimates

/-! ## Pushing -/

/-- Between two pending blocks the chunks left and those used have moved only
downwards, and no operation was executed by a failed transaction. -/
structure Charged (p p' : PendingBlock) : Prop where
  left : p'.chunksLeft ≤ p.chunksLeft
  total : p'.chunksLeft + chunksOf p'.successOperations ≤
    p.chunksLeft + chunksOf p.successOperations
  failed : (∀ tx ∈ p.failedTxs, tx.op = none) → ∀ tx ∈ p'.failedTxs, tx.op = none

theorem Charged.refl (p : PendingBlock) : Charged p p :=
  ⟨Nat.le_refl _, Nat.le_refl _, id⟩

/-- What is charged twice is charged together. -/
theorem Charged.trans {p p' p'' : PendingBlock} (h : Charged p p') (h' : Charged p' p'') :
    Charged p p'' :=
  ⟨Nat.le_trans h'.left h.left, Nat.le_trans h'.total h.total, fun hp => h'.failed (h.failed hp)⟩

/-- Counting charges nothing. -/
theorem Counted.charged {p p' : PendingBlock} (h : Counted p p') : Charged p p' := by
  unfold Counted at h
  rw [h]
  exact ⟨Nat.le_refl _, Nat.le_refl _, id⟩

namespace PendingBlock

variable {p p' : PendingBlock} {overflowChecks : Bool} {chunksNeeded : Nat}

/-- A push that is covered: it takes the chunks it was estimated at, and no less
than the operation takes. -/
theorem charged_pushSuccess {success : OpSuccess} {executed : UInt32 → ExecutedOperations}
    {e : ExecutedOperations} (hroom : chunksNeeded ≤ p.chunksLeft)
    (hop : ∀ i, (executed i).getExecutedOp = some success.executedOp)
    (hle : success.executedOp.chunks ≤ chunksNeeded)
    (h : p.pushSuccess overflowChecks chunksNeeded success executed = .ok (e, p')) :
    Charged p p' ∧ p'.chunksLeft = p.chunksLeft - chunksNeeded := by
  obtain ⟨chunksLeft, index, hsub, -, rfl, rfl⟩ := pushSuccess_eq_ok.mp h
  unfold usizeSub at hsub
  rw [if_pos hroom] at hsub
  obtain rfl := Except.ok.inj hsub
  refine ⟨⟨Nat.sub_le _ _, ?_, id⟩, rfl⟩
  dsimp only
  rw [chunksOf_append, chunksOf_singleton (hop _)]
  omega

/-- A covered push does not panic by itself. -/
theorem isCall_pushSuccess {success : OpSuccess} {executed : UInt32 → ExecutedOperations}
    {e : KeeperPanic} (hroom : chunksNeeded ≤ p.chunksLeft)
    (h : p.pushSuccess overflowChecks chunksNeeded success executed = .error e) : e.IsCall :=
  (pushSuccess_eq_error h).elim id fun hlt => absurd hroom (Nat.not_le_of_lt hlt)

/-- A failed transaction takes no room. -/
theorem charged_pushFailed {batchId : Option Int} {tx : SignedZkSyncTx} {error : String}
    {e : ExecutedOperations}
    (h : p.pushTxResult overflowChecks chunksNeeded batchId tx (.error error) = .ok (e, p')) :
    Charged p p' ∧ p'.chunksLeft = p.chunksLeft := by
  cases h
  refine ⟨⟨Nat.le_refl _, Nat.le_refl _, fun hp tx' htx' => ?_⟩, rfl⟩
  rcases List.mem_append.mp htx' with htx' | htx'
  · exact hp tx' htx'
  · rw [List.mem_singleton.mp htx']

/-- A success takes the room that was asked for. -/
theorem charged_pushTxResult {batchId : Option Int} {tx : SignedZkSyncTx}
    {result : Except String OpSuccess} {e : ExecutedOperations} (hroom : chunksNeeded ≤ p.chunksLeft)
    (hle : ∀ success, result = .ok success → success.executedOp.chunks ≤ chunksNeeded)
    (h : p.pushTxResult overflowChecks chunksNeeded batchId tx result = .ok (e, p')) :
    Charged p p' := by
  cases result with
  | ok success =>
    unfold pushTxResult at h
    exact (charged_pushSuccess hroom (fun _ => rfl) (hle success rfl) h).1
  | error error => exact (charged_pushFailed h).1

/-- What goes wrong there is a panic of the call. -/
theorem isCall_pushTxResult {batchId : Option Int} {tx : SignedZkSyncTx}
    {result : Except String OpSuccess} {e : KeeperPanic} (hroom : chunksNeeded ≤ p.chunksLeft)
    (h : p.pushTxResult overflowChecks chunksNeeded batchId tx result = .error e) : e.IsCall := by
  cases result with
  | ok success =>
    unfold pushTxResult at h
    exact isCall_pushSuccess hroom h
  | error error => cases h

/-- The results of a batch that succeeded, if each of them is covered. -/
theorem pushBatchResults_ok {batchId : Int} (l : List (SignedZkSyncTx × OpSuccess))
    (hroom : l.length * chunksNeeded ≤ p.chunksLeft)
    (hle : ∀ e ∈ l, e.2.executedOp.chunks ≤ chunksNeeded) :
    (∀ e, p.pushBatchResults overflowChecks chunksNeeded batchId
      (l.map fun e => (e.1, .ok e.2)) = .error e → e.IsCall) ∧
    ∀ ops p', p.pushBatchResults overflowChecks chunksNeeded batchId
      (l.map fun e => (e.1, .ok e.2)) = .ok (ops, p') → Charged p p' := by
  induction l generalizing p with
  | nil =>
    refine ⟨fun e h => (by cases h), fun ops p' h => ?_⟩
    cases h
    exact Charged.refl p
  | cons e l ih =>
    obtain ⟨tx, success⟩ := e
    rw [List.length_cons, Nat.succ_mul] at hroom
    have hfirst : chunksNeeded ≤ p.chunksLeft := by omega
    have hhead := hle (tx, success) List.mem_cons_self
    have htail : ∀ e p₁, p.pushTxResult overflowChecks chunksNeeded (some batchId) tx
        (.ok success) = .ok (e, p₁) → Charged p p₁ ∧ l.length * chunksNeeded ≤ p₁.chunksLeft := by
      intro e p₁ h
      unfold pushTxResult at h
      obtain ⟨hcharged, hleft⟩ := charged_pushSuccess hfirst (fun _ => rfl) hhead h
      exact ⟨hcharged, by omega⟩
    have hrest := fun p₁ (h : l.length * chunksNeeded ≤ p₁.chunksLeft) =>
      @ih p₁ h fun e he => hle e (List.mem_cons_of_mem _ he)
    rw [List.map_cons]
    unfold pushBatchResults
    refine ⟨fun e h => ?_, fun ops p' h => ?_⟩
    · rcases Outcome.bind_eq_error.mp h with h | ⟨⟨e', p₁⟩, h₁, h⟩
      · exact isCall_pushTxResult hfirst h
      · rcases Outcome.bind_eq_error.mp h with h | ⟨r, -, h⟩
        · exact (hrest p₁ (htail e' p₁ h₁).2).1 e h
        · cases h
    · rw [Outcome.bind_eq_ok] at h
      obtain ⟨⟨e', p₁⟩, h₁, h⟩ := h
      rw [Outcome.bind_eq_ok] at h
      obtain ⟨⟨ops', p₂⟩, h₂, h⟩ := h
      cases h
      obtain ⟨hcharged, hroom₁⟩ := htail e' p₁ h₁
      exact hcharged.trans ((hrest p₁ hroom₁).2 ops' p' h₂)

/-- The results of a batch that failed take nothing. -/
theorem pushBatchResults_failed {batchId : Int} {error : String} (txs : List SignedZkSyncTx) :
    (∀ e, p.pushBatchResults overflowChecks chunksNeeded batchId
      (txs.map fun tx => (tx, .error error)) = .error e → e.IsCall) ∧
    ∀ ops p', p.pushBatchResults overflowChecks chunksNeeded batchId
      (txs.map fun tx => (tx, .error error)) = .ok (ops, p') → Charged p p' := by
  induction txs generalizing p with
  | nil =>
    refine ⟨fun e h => (by cases h), fun ops p' h => ?_⟩
    cases h
    exact Charged.refl p
  | cons tx txs ih =>
    rw [List.map_cons]
    unfold pushBatchResults
    refine ⟨fun e h => ?_, fun ops p' h => ?_⟩
    · rcases Outcome.bind_eq_error.mp h with h | ⟨⟨e', p₁⟩, -, h⟩
      · cases h
      · rcases Outcome.bind_eq_error.mp h with h | ⟨r, -, h⟩
        · exact ih.1 e h
        · cases h
    · rw [Outcome.bind_eq_ok] at h
      obtain ⟨⟨e', p₁⟩, h₁, h⟩ := h
      rw [Outcome.bind_eq_ok] at h
      obtain ⟨⟨ops', p₂⟩, h₂, h⟩ := h
      cases h
      exact (charged_pushFailed h₁).1.trans (ih.2 ops' p' h₂)

end PendingBlock

/-! ## Calls -/

/-- The invariant of the keeper: its sizes are sorted, the chunks left and used
do not exceed the largest, and failed transactions executed nothing. -/
structure ChunksOk (k : ZkSyncStateKeeper) : Prop where
  sorted : k.availableBlockChunkSizes.Pairwise (· ≤ ·)
  total : ∃ max, k.availableBlockChunkSizes.getLast? = some max ∧
    k.pendingBlock.chunksLeft + chunksOf k.pendingBlock.successOperations ≤ max
  failed : ∀ tx ∈ k.pendingBlock.failedTxs, tx.op = none

/-- The room left is right if what was charged is what is there. -/
theorem ChunksOk.charged {k k' : ZkSyncStateKeeper} (h : ChunksOk k)
    (hsizes : k'.availableBlockChunkSizes = k.availableBlockChunkSizes)
    (hc : Charged k.pendingBlock k'.pendingBlock) : ChunksOk k' := by
  obtain ⟨max, hmax, hle⟩ := h.total
  refine ⟨by rw [hsizes]; exact h.sorted, ⟨max, by rw [hsizes]; exact hmax, ?_⟩, hc.failed h.failed⟩
  exact Nat.le_trans hc.total hle

section Calls

variable {env : Env} {k k' : ZkSyncStateKeeper}

/-- All of a batch that is done was executed. -/
theorem executedBefore_of_done {s s' : ZkSyncState} {es : List Executed}
    (h : Run (TxStep env) s es s') : executedBefore env s (es.map (·.1)) = es.map (·.1) := by
  induction h with
  | nil => rfl
  | @cons s s₁ s' e es hstep _ ih =>
    have hexec : s.executeTx env e.1 = .ok (e.2, s₁) := hstep
    rw [List.map_cons, executedBefore, hexec]
    exact congrArg (e.1 :: ·) ih

/-- The transactions of a batch beside their results. -/
theorem zip_ok (txs : List SignedZkSyncTx) (es : List Executed) :
    txs.zip (es.map fun e => Except.ok e.2) =
      (txs.zip (es.map (·.2))).map fun e => (e.1, (.ok e.2 : Except String OpSuccess)) := by
  have hmap : (es.map fun e => (Except.ok e.2 : Except String OpSuccess)) =
      (es.map (·.2)).map .ok := List.map_map.symm
  rw [hmap, List.zip_map_right]
  rfl

theorem zip_error (txs : List SignedZkSyncTx) (error : String) :
    txs.zip (List.replicate txs.length (.error error)) =
      txs.map fun tx => (tx, (.error error : Except String OpSuccess)) := by
  induction txs with
  | nil => rfl
  | cons tx txs ih => rw [List.length_cons, List.replicate_succ, List.zip_cons_cons, ih]; rfl

/-- What is executed takes no more room than was asked for. -/
theorem chunks_le_priorityOp {s s' : ZkSyncState} {op : ZkSyncPriorityOp} {r : OpSuccess}
    (h : s.executePriorityOp op = .ok (r, s')) : r.executedOp.chunks ≤ op.chunks := by
  cases executePriorityOp_effect h <;> exact Nat.le_refl _

/-- A success of the keeper is one of the state. -/
theorem executeTx_of_result {s s' : ZkSyncState} {tx : ZkSyncTx} {success : OpSuccess}
    (h : ZkSyncStateKeeper.executeTxResult env s tx = .ok (.ok success, s')) :
    s.executeTx env tx = .ok (success, s') := by
  unfold ZkSyncStateKeeper.executeTxResult at h
  split at h
  next success' state' hexec =>
    cases h
    exact hexec
  next => cases h
  next => cases h

/-- A transaction that fails leaves the state as it was. -/
theorem state_of_failed {s s' : ZkSyncState} {tx : ZkSyncTx} {error : String}
    (h : ZkSyncStateKeeper.executeTxResult env s tx = .ok (.error error, s')) : s' = s := by
  unfold ZkSyncStateKeeper.executeTxResult at h
  split at h
  next => cases h
  next =>
    cases h
    rfl
  next => cases h

theorem charged_countIteration (k : ZkSyncStateKeeper) :
    k.countIteration.availableBlockChunkSizes = k.availableBlockChunkSizes ∧
      Charged k.pendingBlock k.countIteration.pendingBlock := by
  unfold ZkSyncStateKeeper.countIteration
  split
  · exact ⟨rfl, Nat.le_refl _, Nat.le_refl _, id⟩
  · exact ⟨rfl, Charged.refl _⟩

/-- The results of a batch, pushed. -/
theorem pushed_batch {txs : List SignedZkSyncTx} {batchId : Int} {chunksNeeded : Nat}
    {p : PendingBlock} {results : BatchResults} {state : ZkSyncState}
    (hfits : KeeperCall.Fits env k (.batch txs batchId))
    (estimate : k.state.chunksForBatch txs = .ok chunksNeeded)
    (room : chunksNeeded ≤ k.pendingBlock.chunksLeft)
    (admitted : k.pendingBlock.admitBatch env k.state k.maxNumberOfWithdrawalsPerBlock
      (txs.map (·.tx)) = .ok (true, p))
    (executed : k.state.executeTxsBatch env txs = .ok (results, state)) :
    (∀ e, p.pushBatchResults env.overflowChecks chunksNeeded batchId (txs.zip results) = .error e →
      e.IsCall) ∧
    ∀ ops p', p.pushBatchResults env.overflowChecks chunksNeeded batchId (txs.zip results) =
      .ok (ops, p') → Charged p p' := by
  cases executeTxsBatch_outcome executed with
  | @done es _ batch run =>
    have hlen : txs.length = es.length := by
      rw [← List.length_map, batch, List.length_map]
    have hall : executedBefore env k.state (txs.map (·.tx)) = txs.map (·.tx) := by
      rw [batch]
      exact executedBefore_of_done run
    have hleft : p.chunksLeft = k.pendingBlock.chunksLeft := by
      rw [PendingBlock.counted_admitBatch admitted]
    rw [zip_ok]
    refine PendingBlock.pushBatchResults_ok _ ?_ fun e he => ?_
    · rw [List.length_zip, List.length_map, hlen, Nat.min_self, hleft, ← hlen]
      exact hfits chunksNeeded p estimate room admitted hall
    · obtain ⟨-, hmem⟩ := List.of_mem_zip he
      obtain ⟨e', he', he⟩ := List.mem_map.mp hmem
      rw [← he]
      exact chunks_le_batch run (fun _ h => h) estimate batch e' he'
  | undone =>
    rw [zip_error]
    exact PendingBlock.pushBatchResults_failed txs

/-- A call that does not seal charges the pending block. -/
theorem charged_of_step {e : KeeperCall × KeeperReply} (hfits : e.1.Fits env k)
    (hstep : KeeperStep env k e k') (hopen : ∀ request updates, e.2 ≠ .sealed request updates) :
    k'.availableBlockChunkSizes = k.availableBlockChunkSizes ∧
      Charged k.pendingBlock k'.pendingBlock := by
  have heff := hstep.effect
  obtain ⟨call, reply⟩ := e
  cases heff with
  | full counted => exact ⟨rfl, counted.charged⟩
  | @priorityOp op nonExecutedOp gasCounter success state e p next room _ _ executed pushed _ =>
    have hc : Counted k.pendingBlock { k.pendingBlock with gasCounter := gasCounter } := rfl
    have hroom : op.data.chunks ≤
        ({ k.pendingBlock with gasCounter := gasCounter } : PendingBlock).chunksLeft := room
    refine ⟨rfl, hc.charged.trans ?_⟩
    exact (PendingBlock.charged_pushSuccess hroom (fun _ => rfl)
      (chunks_le_priorityOp executed) pushed).1
  | @tx tx chunksNeeded p p' result state e estimate room admitted executed pushed =>
    have hc := PendingBlock.counted_admitTx admitted
    refine ⟨rfl, hc.charged.trans ?_⟩
    refine PendingBlock.charged_pushTxResult ?_ (fun success hs => ?_) pushed
    · rw [hc]
      exact room
    · exact chunks_le_estimate estimate (fun _ h => h)
        (executeTx_of_result (by rw [← hs]; exact executed))
  | batch estimate room admitted executed pushed =>
    exact ⟨rfl, (PendingBlock.counted_admitBatch admitted).charged.trans
      ((pushed_batch hfits estimate room admitted executed).2 _ _ pushed)⟩
  | sealed => exact absurd rfl (hopen _ _)
  | stored hstore =>
    obtain ⟨-, -, -, rfl⟩ := storePendingBlock_eq_ok hstore
    obtain ⟨hsizes, hcharged⟩ := charged_countIteration k
    exact ⟨hsizes, hcharged.left, hcharged.total, hcharged.failed⟩

/-- The keeper that seals: the one that is asked, or the one at the end of a
mini block. -/
theorem ChunksOk.before {call : KeeperCall} {k₁ : ZkSyncStateKeeper} (h : ChunksOk k)
    (hb : call = .sealBlock ∧ k₁ = k ∨ call = .endMiniBlock ∧ k₁ = k.countIteration) :
    ChunksOk k₁ ∧ k₁.availableBlockChunkSizes = k.availableBlockChunkSizes := by
  rcases hb with ⟨-, rfl⟩ | ⟨-, rfl⟩
  · exact ⟨h, rfl⟩
  · obtain ⟨hsizes, hcharged⟩ := charged_countIteration k
    exact ⟨h.charged hsizes hcharged, hsizes⟩

/-- Each step keeps the room right, while no batch fails. -/
theorem ChunksOk.step {e : KeeperCall × KeeperReply} (h : ChunksOk k)
    (hfits : e.1.Fits env k) (hstep : KeeperStep env k e k') : ChunksOk k' := by
  obtain ⟨call, reply⟩ := e
  by_cases hopen : ∃ request updates, reply = .sealed request updates
  · obtain ⟨request, updates, rfl⟩ := hopen
    have heff := hstep.effect
    cases heff with
    | sealed hb hseal =>
      obtain ⟨_, _, _, _, max, -, -, hmax, rfl⟩ := sealPendingBlock_eq_ok hseal
      exact ⟨(h.before hb).1.sorted, ⟨max, hmax, Nat.le_refl _⟩,
        fun tx htx => absurd htx List.not_mem_nil⟩
  · obtain ⟨hsizes, hcharged⟩ := charged_of_step hfits hstep
      fun request updates he => hopen ⟨request, updates, he⟩
    exact h.charged hsizes hcharged

/-! ### Panics -/

/-- A panic of the state is one of the call. -/
theorem isCall_executeTxResult {s : ZkSyncState} {tx : ZkSyncTx} {e : KeeperPanic}
    (h : ZkSyncStateKeeper.executeTxResult env s tx = .error e) : e.IsCall := by
  unfold ZkSyncStateKeeper.executeTxResult at h
  split at h
  next => cases h
  next => cases h
  next message _ =>
    cases h
    exact ⟨message, rfl⟩

/-- A priority operation panics within the call only. -/
theorem isCall_applyPriorityOp {op : PriorityOp} {e : KeeperPanic}
    (h : k.applyPriorityOp env op = .error e) : e.IsCall := by
  unfold ZkSyncStateKeeper.applyPriorityOp at h
  dsimp only at h
  split at h
  next => cases h
  next hroom =>
    rcases Outcome.bind_eq_error.mp h with h | ⟨nonExecutedOp, -, h⟩
    · exact isCall_infallible h
    rcases Outcome.bind_eq_error.mp h with h | ⟨gasCounter, -, h⟩
    · exact isCall_infallible h
    cases gasCounter with
    | none => cases h
    | some gasCounter =>
      rcases Outcome.bind_eq_error.mp h with h | ⟨⟨success, state⟩, -, h⟩
      · exact isCall_infallible h
      rcases Outcome.bind_eq_error.mp h with h | ⟨⟨execOp, p⟩, -, h⟩
      · have hroom' : op.data.chunks ≤
            ({ k.pendingBlock with gasCounter := gasCounter } : PendingBlock).chunksLeft :=
          Nat.le_of_not_lt hroom
        exact PendingBlock.isCall_pushSuccess hroom' h
      rcases Outcome.bind_eq_error.mp h with h | ⟨next, -, h⟩
      · exact isCall_infallible h
      · cases h

/-- So does a transaction. -/
theorem isCall_applyTx {tx : SignedZkSyncTx} {e : KeeperPanic}
    (h : k.applyTx env tx = .error e) : e.IsCall := by
  unfold ZkSyncStateKeeper.applyTx at h
  rcases Outcome.bind_eq_error.mp h with h | ⟨chunksNeeded, -, h⟩
  · exact isCall_infallible h
  split at h
  next => cases h
  next hroom =>
    rcases Outcome.bind_eq_error.mp h with h | ⟨⟨admitted, p⟩, hadm, h⟩
    · exact PendingBlock.isCall_admitTx h
    cases admitted with
    | false => cases h
    | true =>
      rcases Outcome.bind_eq_error.mp h with h | ⟨⟨result, state⟩, -, h⟩
      · exact isCall_executeTxResult h
      rcases Outcome.bind_eq_error.mp h with h | ⟨r, -, h⟩
      · refine PendingBlock.isCall_pushTxResult ?_ h
        rw [PendingBlock.counted_admitTx hadm]
        exact Nat.le_of_not_lt hroom
      · cases h

/-- So does a batch. -/
theorem isCall_applyBatch {txs : List SignedZkSyncTx} {batchId : Int} {e : KeeperPanic}
    (hfits : KeeperCall.Fits env k (.batch txs batchId))
    (h : k.applyBatch env txs batchId = .error e) : e.IsCall := by
  unfold ZkSyncStateKeeper.applyBatch at h
  rcases Outcome.bind_eq_error.mp h with h | ⟨chunksNeeded, hest, h⟩
  · exact isCall_infallible h
  split at h
  next => cases h
  next hroom =>
    rcases Outcome.bind_eq_error.mp h with h | ⟨⟨admitted, p⟩, hadm, h⟩
    · exact PendingBlock.isCall_admitBatch h
    cases admitted with
    | false => cases h
    | true =>
      rcases Outcome.bind_eq_error.mp h with h | ⟨⟨results, state⟩, hexec, h⟩
      · exact isCall_infallible h
      rcases Outcome.bind_eq_error.mp h with h | ⟨r, -, h⟩
      · exact (pushed_batch hfits (infallible_eq_ok.mp hest) (Nat.le_of_not_lt hroom) hadm
          (infallible_eq_ok.mp hexec)).1 e h
      · cases h

/-- The block fits: its chunks are those of the successful operations. -/
theorem chunksUsed_le (h : ChunksOk k) : ∃ max ∈ k.availableBlockChunkSizes,
    chunksOf (k.pendingBlock.successOperations ++ k.pendingBlock.failedTxs.map .Tx) ≤ max := by
  obtain ⟨max, hmax, hle⟩ := h.total
  refine ⟨max, List.mem_of_getLast? hmax, ?_⟩
  have hfailed : chunksOf (k.pendingBlock.failedTxs.map .Tx) = 0 := by
    refine chunksOf_eq_zero fun op hop => ?_
    obtain ⟨tx, htx, rfl⟩ := List.mem_map.mp hop
    exact h.failed tx htx
  rw [chunksOf_append, hfailed]
  omega

/-- Where the room is right, sealing finds a size for the block. -/
theorem isCall_sealPendingBlock {e : KeeperPanic} (hk : ChunksOk k)
    (h : k.sealPendingBlock env = .error e) : e.IsCall := by
  unfold ZkSyncStateKeeper.sealPendingBlock at h
  rcases Outcome.bind_eq_error.mp h with h | ⟨maxBlockSize, -, h⟩
  · exact isCall_infallible h
  rcases Outcome.bind_eq_error.mp h with h | ⟨⟨feeUpdates, paid⟩, -, h⟩
  · exact isCall_infallible h
  rcases Outcome.bind_eq_error.mp h with h | ⟨⟨hash, hashed⟩, -, h⟩
  · exact isCall_infallible h
  rcases Outcome.bind_eq_error.mp h with h | ⟨block, -, h⟩
  · obtain ⟨f, hf, -⟩ := infallible_eq_error.mp h
    obtain ⟨max, hmem, hle⟩ := chunksUsed_le hk
    obtain ⟨size, hsize⟩ := smallestBlockSizeForChunks_ok hmem hle
    unfold Block.newFromAvailableBlockSizes Block.chunksUsed at hf
    dsimp only at hf
    rw [hsize] at hf
    cases hf
  rcases Outcome.bind_eq_error.mp h with h | ⟨notStored, -, h⟩
  · exact isCall_infallible h
  rcases Outcome.bind_eq_error.mp h with h | ⟨blockNumber, -, h⟩
  · exact isCall_infallible h
  · cases h

theorem isCall_sealReply {e : KeeperPanic} (hk : ChunksOk k) (h : k.sealReply env = .error e) :
    e.IsCall := by
  unfold ZkSyncStateKeeper.sealReply at h
  rcases Outcome.bind_eq_error.mp h with h | ⟨r, -, h⟩
  · exact isCall_sealPendingBlock hk h
  · cases h

/-- A call that meets the condition ends, or a function the keeper calls
panics. -/
theorem ChunksOk.isCall {call : KeeperCall} {e : KeeperPanic} (hk : ChunksOk k)
    (hfits : call.Fits env k) (h : k.answer env call = .error e) : e.IsCall := by
  cases call with
  | priorityOp op =>
    rcases Outcome.bind_eq_error.mp h with h | ⟨⟨r, k₁⟩, -, h⟩
    · exact isCall_applyPriorityOp h
    · cases r <;> cases h
  | tx tx =>
    rcases Outcome.bind_eq_error.mp h with h | ⟨⟨r, k₁⟩, -, h⟩
    · exact isCall_applyTx h
    · cases r <;> cases h
  | batch txs batchId =>
    rcases Outcome.bind_eq_error.mp h with h | ⟨⟨r, k₁⟩, -, h⟩
    · exact isCall_applyBatch hfits h
    · cases r <;> cases h
  | sealBlock => exact isCall_sealReply hk h
  | endMiniBlock =>
    obtain ⟨hsizes, hcharged⟩ := charged_countIteration k
    unfold ZkSyncStateKeeper.answer at h
    dsimp only at h
    split at h
    next => exact isCall_sealReply (hk.charged hsizes hcharged) h
    next =>
      rcases Outcome.bind_eq_error.mp h with h | ⟨r, -, h⟩
      · unfold ZkSyncStateKeeper.storePendingBlock at h
        rcases Outcome.bind_eq_error.mp h with h | ⟨notStored, -, h⟩
        · exact isCall_infallible h
        · cases h
      · cases h

end Calls

/-! ## Runs -/

/-- The last of a sorted list is the largest. -/
theorem le_getLast {sizes : List Nat} {max : Nat} (hsorted : sizes.Pairwise (· ≤ ·))
    (hmax : sizes.getLast? = some max) : ∀ size ∈ sizes, size ≤ max := by
  obtain ⟨init, rfl⟩ := List.getLast?_eq_some_iff.mp hmax
  intro size hsize
  rcases List.mem_append.mp hsize with h | h
  · exact (List.pairwise_append.mp hsorted).2.2 size h max (List.mem_singleton_self max)
  · rw [List.mem_singleton.mp h]

/-- Of sorted sizes the last is the largest. -/
theorem max?_eq_getLast? {sizes : List Nat} (hsorted : sizes.Pairwise (· ≤ ·)) :
    sizes.max? = sizes.getLast? := by
  cases hlast : sizes.getLast? with
  | none =>
    rw [List.getLast?_eq_none_iff.mp hlast]
    rfl
  | some max =>
    exact List.max?_eq_some_iff.mpr ⟨List.mem_of_getLast? hlast, le_getLast hsorted hlast⟩

/-- A new keeper has the room of the largest block. -/
theorem chunksOk_new {env : Env} {initialState : ZkSyncStateInitParams}
    {feeAccountAddress : Address} {sizes : List Nat} {maxMini fastMini maxWithdrawals : Nat}
    {k : ZkSyncStateKeeper} (h : ZkSyncStateKeeper.new env initialState feeAccountAddress sizes
      maxMini fastMini maxWithdrawals = .ok k) : ChunksOk k := by
  obtain ⟨blockNumber, feeAccountId, maxBlockSize, hok, -, hk⟩ := ZkSyncStateKeeper.new_eq_ok h
  rw [hk]
  refine ⟨hok.sorted, ⟨sizes.getLast hok.sizes_ne, List.getLast?_eq_some_getLast _, ?_⟩,
    fun tx htx => absurd htx List.not_mem_nil⟩
  exact le_getLast hok.sorted (List.getLast?_eq_some_getLast _) maxBlockSize
    (List.max?_eq_some_iff.mp hok.largest).1

/-- The accounting of chunks, as far as it goes. In every run of the keeper
whose batches meet the condition, the chunks left and the chunks of the executed
operations are at most the largest block size; and a next call that meets it
subtracts without underflow and panics only where a function it calls does, so a
block that is sealed fits the size it takes. -/
theorem chunks_accounted {env : Env} {initialState : ZkSyncStateInitParams}
    {feeAccountAddress : Address} {sizes : List Nat} {maxMini fastMini maxWithdrawals : Nat}
    {k₀ k : ZkSyncStateKeeper} {tr : List (KeeperCall × KeeperReply)}
    (hnew : ZkSyncStateKeeper.new env initialState feeAccountAddress sizes maxMini fastMini
      maxWithdrawals = .ok k₀)
    (hrun : Run (fun k e k' => e.1.Fits env k ∧ KeeperStep env k e k') k₀ tr k) :
    (∃ max ∈ k.availableBlockChunkSizes, (∀ size ∈ k.availableBlockChunkSizes, size ≤ max) ∧
      k.pendingBlock.chunksLeft + chunksOf k.pendingBlock.successOperations ≤ max) ∧
    ∀ call : KeeperCall, call.Fits env k →
      (∀ e, k.answer env call = .error e → e.IsCall) ∧
      (∀ reply k', k.answer env call = .ok (reply, k') →
        (∀ request updates, reply ≠ .sealed request updates) →
        k'.pendingBlock.chunksLeft ≤ k.pendingBlock.chunksLeft) ∧
      ∀ request updates k', k.answer env call = .ok (.sealed request updates, k') →
        request.block.blockChunksSize ∈ k.availableBlockChunkSizes ∧
        request.block.chunksUsed ≤ request.block.blockChunksSize := by
  have hok : ChunksOk k := Run.invariant (fun _ _ _ h hs => h.step hs.1 hs.2) hrun
    (chunksOk_new hnew)
  obtain ⟨max, hmax, hle⟩ := hok.total
  refine ⟨⟨max, List.mem_of_getLast? hmax, le_getLast hok.sorted hmax, hle⟩,
    fun call hfits => ⟨fun e => hok.isCall hfits, ?_, ?_⟩⟩
  · intro reply k' h hopen
    exact (charged_of_step (e := (call, reply)) hfits h hopen).2.left
  · intro request updates k' h
    have heff := KeeperStep.effect (e := (call, .sealed request updates)) h
    cases heff with
    | sealed hb hseal =>
      obtain ⟨_, _, _, _, _, hsealed, -⟩ := sealPendingBlock_eq_ok hseal
      rw [← (hok.before hb).2]
      exact smallestBlockSizeForChunks_eq_ok hsealed.size

/-! ### A batch that is overcharged -/

/-- The accounts of `sampleState`, as a server loads them. -/
def sampleInitParams : ZkSyncStateInitParams where
  tree := sampleState.balanceTree
  accIdByAddr := sampleState.accountIdByAddress
  lastBlockNumber := 0
  unprocessedPriorityOp := 0

/-- The keeper of a server with blocks of 6 and 30 chunks. -/
def sampleKeeper : ZkSyncStateKeeper :=
  ZkSyncStateKeeper.unhashed sampleInitParams 1 0 30 [6, 30] 10 2 5

/-- Its token has a leaf. -/
theorem fits_sampleAccount : sampleAccount.Fits := by
  intro token h
  obtain rfl : token = 0 := by simpa [sampleAccount] using h
  decide

theorem sampleState_fits {id : AccountId} {a : Account} (h : sampleState.getAccount id = some a) :
    a.Fits := by
  have hget : sampleState.getAccount = Function.update (fun _ => none) 0 (some sampleAccount) := by
    unfold sampleState ZkSyncState.fromAccMap
    exact ZkSyncState.getAccount_insertAccount _ _ _
  rw [hget, Function.update_apply] at h
  split at h
  · rw [← Option.some.inj h]
    exact fits_sampleAccount
  · cases h

/-- The root hash does not depend on the block number. -/
theorem root_blockNumber (H : Hasher Fr) (s : ZkSyncState) (n : BlockNumber) :
    ZkSyncState.root H { s with blockNumber := n } = s.root H := by
  unfold ZkSyncState.root ZkSyncState.rootHash
  dsimp only
  cases s.balanceTree.rootHash H <;> rfl

/-- `Env.signedBy` in a debug or a release build. -/
def Env.built (signer : PubKeyHash) (overflowChecks : Bool) : Env :=
  { Env.signedBy signer with overflowChecks := overflowChecks }

/-- Its signatures are those of key 1. -/
theorem noZeroSigner_built (overflowChecks : Bool) : (Env.built 1 overflowChecks).NoZeroSigner :=
  noZeroSigner_signedBy (by decide : (1 : PubKeyHash) ≠ 0)

/-- A new keeper answers as `sampleKeeper` does. -/
theorem new_sampleKeeper (overflowChecks : Bool) :
    ∃ k, ZkSyncStateKeeper.new (Env.built 1 overflowChecks) sampleInitParams 1 [6, 30] 10 2 5 =
      .ok k ∧ KeeperAlike sampleKeeper k := by
  have hnext : u32Increment overflowChecks sampleInitParams.lastBlockNumber = .ok 1 := by
    cases overflowChecks <;> rfl
  rcases rootHash_cases (reachable_hashed reachable_sampleState) with
    ⟨⟨hash, hroot⟩, -⟩ | ⟨-, id, a, ha, hnot⟩
  · rw [← root_blockNumber _ sampleState 1] at hroot
    exact ZkSyncStateKeeper.new_alike ⟨by decide, by decide, hnext, ⟨sampleAccount, rfl⟩, rfl⟩ hroot
  · exact absurd (sampleState_fits ha) hnot

/-- Four transfers of account 0 to itself. -/
def sampleTransfers : List SignedZkSyncTx :=
  [0, 1, 2, 3].map fun nonce => ⟨.Transfer (sampleTransfer 1 nonce), none⟩

/-- A batch of four transfers, 8 chunks, is let into an empty block of 30 chunks
and charged 32: a debug build panics, a release build has almost 2^64 chunks
left. -/
theorem batch_overcharged :
    (∃ k, ZkSyncStateKeeper.new (Env.built 1 true) sampleInitParams 1 [6, 30] 10 2 5 = .ok k ∧
      k.answer (Env.built 1 true) (.batch sampleTransfers 0) =
        .error (.chunksLeft "attempt to subtract with overflow")) ∧
    ∃ k k' ops, ZkSyncStateKeeper.new (Env.built 1 false) sampleInitParams 1 [6, 30] 10 2 5 =
      .ok k ∧ k.answer (Env.built 1 false) (.batch sampleTransfers 0) = .ok (.executed ops, k') ∧
      k'.pendingBlock.chunksLeft = 2 ^ 64 - 2 := by
  refine ⟨?_, ?_⟩
  · obtain ⟨k, hnew, halike⟩ := new_sampleKeeper true
    exact ⟨k, hnew, (halike.answer_batch sampleTransfers 0).of_error rfl⟩
  · obtain ⟨k, hnew, halike⟩ := new_sampleKeeper false
    have hleft : ((sampleKeeper.answer (Env.built 1 false) (.batch sampleTransfers 0)).toOption.map
        fun r => (match r.1 with | .executed _ => true | _ => false,
          r.2.pendingBlock.chunksLeft)) = some (true, 2 ^ 64 - 2) := by decide +kernel
    obtain ⟨⟨reply, k₁⟩, hsome, hr⟩ := Option.map_eq_some_iff.mp hleft
    obtain ⟨⟨reply', k'⟩, hanswer, rfl, hk'⟩ :=
      (halike.answer_batch sampleTransfers 0).of_ok (Outcome.toOption_eq_some.mp hsome)
    cases reply with
    | executed ops =>
      have hk : k' = { k₁ with state := k'.state } := hk'.rest
      refine ⟨k, k', ops, hnew, hanswer, ?_⟩
      rw [hk]
      exact (Prod.mk.inj hr).2
    | _ => cases hr

/-- A batch of two of the transfers is charged 8 of the 30 chunks. -/
theorem chunks_accounted_sampleTransfers : ∃ k₀ k reply,
    ZkSyncStateKeeper.new (Env.built 1 true) sampleInitParams 1 [6, 30] 10 2 5 = .ok k₀ ∧
    KeeperStep (Env.built 1 true) k₀ (.batch (sampleTransfers.take 2) 0, reply) k ∧
    k.pendingBlock.chunksLeft = 22 ∧
    ∃ max ∈ k.availableBlockChunkSizes, (∀ size ∈ k.availableBlockChunkSizes, size ≤ max) ∧
      k.pendingBlock.chunksLeft + chunksOf k.pendingBlock.successOperations ≤ max := by
  obtain ⟨k₀, hnew, halike⟩ := new_sampleKeeper true
  have hleft : ((sampleKeeper.answer (Env.built 1 true)
      (.batch (sampleTransfers.take 2) 0)).toOption.map fun r => r.2.pendingBlock.chunksLeft) =
        some 22 := by decide +kernel
  obtain ⟨⟨reply, k₁⟩, hsome, hr⟩ := Option.map_eq_some_iff.mp hleft
  obtain ⟨⟨reply', k⟩, hanswer, rfl, hk'⟩ :=
    (halike.answer_batch (sampleTransfers.take 2) 0).of_ok (Outcome.toOption_eq_some.mp hsome)
  have hk : k = { k₁ with state := k.state } := hk'.rest
  have hroom : 22 = k.pendingBlock.chunksLeft := by
    rw [hk]
    exact hr.symm
  have hfits : KeeperCall.Fits (Env.built 1 true) k₀ (.batch (sampleTransfers.take 2) 0) := by
    intro chunksNeeded p hest _ _ _
    rw [← halike.state.chunksForBatch] at hest
    obtain rfl : 4 = chunksNeeded := Except.ok.inj hest
    rw [halike.rest]
    show 2 * 4 ≤ 30
    decide
  have hstep : KeeperStep (Env.built 1 true) k₀ (.batch (sampleTransfers.take 2) 0, reply) k :=
    hanswer
  exact ⟨k₀, k, reply, hnew, hstep, hroom.symm,
    (chunks_accounted hnew (.cons ⟨hfits, hstep⟩ (.nil _))).1⟩

end ZkSync
