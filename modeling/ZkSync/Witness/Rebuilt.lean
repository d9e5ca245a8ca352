import ZkSync.Witness.Rounds

/-!
# The block, executed again on a tree

Since a block was begun the keeper executed operations, on its state; the witness builder
will execute the same operations, on a tree that shows the state in which the block was
begun. `Rebuilt` is what holds between the two at every call: the loop of the builder
returns, and its tree shows the state. A transaction that fails is not among the
operations; a batch that fails is undone, and leaves what cannot be told from the accounts
that were there (`Mirrors`).
-/

namespace ZkSync

open Circuit FloatConversions

/-! ## The loop of the builder -/

/-- What the loop made of the operations. -/
structure Built (H : Hasher Fr) (tree₀ : CircuitAccountTree) (ops : List ZkSyncOp)
    (fees : List CollectedFee) (m : AccountId → Account) (accum : BlockAccum)
    (tree : CircuitAccountTree) : Prop where
  loop : witnessOperations H .empty tree₀ ops = .ok (accum, tree)
  pubData : ∃ data, publicDataOf ops = .ok data ∧ accum.pubData = fromBeBytes data
  operations : accum.operations.length = chunksOfOps ops
  fees : accum.fees = fees
  shows : TreeShows H ops.length tree m
  kept : ∀ j, (tree₀.get j).isSome → (tree.get j).isSome

section Loop

variable {H : Hasher Fr} {n n' : Nat} {tree₀ tree : CircuitAccountTree} {ops : List ZkSyncOp}
  {op : ZkSyncOp} {fees fees' : List CollectedFee} {m m' : AccountId → Account} {accum : BlockAccum}

theorem TreeShows.mono (h : TreeShows H n tree m) (hn : n ≤ n') : TreeShows H n' tree m :=
  ⟨h.ok, fun id => (h.accounts id).mono hn⟩

theorem built_nil (h : TreeShows H 0 tree₀ m) : Built H tree₀ [] [] m .empty tree₀ :=
  ⟨rfl, ⟨[], rfl, rfl⟩, rfl, rfl, h, fun _ hj => hj⟩

theorem publicDataOf_singleton {data : Bytes} (h : op.publicData = .ok data) :
    publicDataOf [op] = .ok data := by
  unfold publicDataOf
  rw [h]
  show Except.ok (data ++ []) = _
  rw [List.append_nil]

/-- One more round. -/
theorem Built.push (h : Built H tree₀ ops fees m accum tree)
    (hround : RoundShows H n tree op fees' m') (hn : n ≤ ops.length + 1) :
    ∃ accum tree', Built H tree₀ (ops ++ [op]) (fees ++ fees') m' accum tree' := by
  obtain ⟨data', tree', hdata', ⟨operations, hround, hlength⟩, hshows, hkeep⟩ := hround
  obtain ⟨data, hdata, hpubData⟩ := h.pubData
  refine ⟨_, tree', witnessOperations_append H h.loop hround, ⟨data ++ data', ?_, ?_⟩, ?_, ?_, ?_, ?_⟩
  · exact publicDataOf_append hdata (publicDataOf_singleton hdata')
  · show accum.pubData ++ fromBeBytes data' = _
    rw [hpubData, fromBeBytes_append]
  · show (accum.operations ++ operations).length = _
    rw [List.length_append, h.operations, hlength]
    unfold chunksOfOps
    rw [List.map_append, List.sum_append, List.map_singleton, List.sum_singleton]
  · exact congrArg (· ++ fees') h.fees
  · rw [List.length_append]
    exact hshows.mono hn
  · exact fun j hj => hkeep j (h.kept j hj)

end Loop

/-! ## The pending block -/

/-- What the builder will make of the pending block `p`, if the accounts of the state
have leaves for their balances. -/
structure Rebuilt (env : Env) (tree₀ : CircuitAccountTree) (s : ZkSyncState) (p : PendingBlock) :
    Prop where
  failed : ∀ tx ∈ p.failedTxs, tx.op = none
  fees : AllFit s → ∀ fee ∈ p.collectedFees, HasLeaf fee.token ∧ fee.amount < u128Bound
  built : AllFit s → p.executedOps.length < 2 ^ 64 →
    ∃ accum tree, Built env.hasher tree₀ p.executedOps p.collectedFees s.content accum tree

/-- All balances have 128 bits as long as these transactions succeed one after the other. -/
def BelowWhile (env : Env) (s : ZkSyncState) (txs : List ZkSyncTx) : Prop :=
  ∀ es s₁, Run (TxStep env) s es s₁ → es.map Prod.fst <+: txs → BalancesBelow s₁

theorem BelowWhile.start {env : Env} {s : ZkSyncState} {txs : List ZkSyncTx}
    (h : BelowWhile env s txs) : BalancesBelow s :=
  h [] s (.nil s) List.nil_prefix

theorem BelowWhile.rest {env : Env} {s s₁ : ZkSyncState} {e : Executed} {txs : List ZkSyncTx}
    (h : BelowWhile env s (e.1 :: txs)) (hstep : TxStep env s e s₁) : BelowWhile env s₁ txs := by
  intro es s₂ hrun hprefix
  refine h (e :: es) s₂ (.cons hstep hrun) ?_
  rw [List.map_cons]
  exact List.cons_prefix_cons.mpr ⟨rfl, hprefix⟩

/-- What is paid was there. -/
theorem TxEffect.fee_below {env : Env} {s s' : ZkSyncState} {tx : ZkSyncTx} {r : OpSuccess}
    (h : TxEffect env s tx r s') (hbelow : BalancesBelow s) :
    ∀ fee ∈ r.fee, fee.amount < u128Bound := by
  intro fee hfee
  have hsender : ∀ {tx : ZkSyncTx} {address : Address} {id : AccountId} {nonce : Nonce}
      {token : TokenId} {amount fee : Nat} {a : Account},
      SenderOk env s tx address id nonce token (amount + fee) a → fee < u128Bound := by
    intro tx address id nonce token amount fee a sender
    have hbalance := hbelow id a token sender.account
    have hfunds := sender.funds
    omega
  cases h with
  | transfer sender =>
    cases hfee
    exact hsender sender
  | transferToSelf sender =>
    cases hfee
    exact hsender sender
  | transferToNew sender =>
    cases hfee
    exact hsender sender
  | withdraw sender =>
    cases hfee
    exact hsender sender
  | changePubKey _ account _ _ _ _ _ funds =>
    cases hfee
    exact Nat.lt_of_le_of_lt funds (hbelow _ _ _ account)
  | forcedExit account _ _ _ _ _ _ _ _ _ funds =>
    cases hfee
    exact Nat.lt_of_le_of_lt funds (hbelow _ _ _ account)

section Pending

variable {env : Env} {tree₀ : CircuitAccountTree} {s s' : ZkSyncState} {p p' : PendingBlock}
  {r : OpSuccess} {chunksNeeded : Nat} {executed : UInt32 → ExecutedOperations}
  {e : ExecutedOperations}

/-- An operation that was executed is pushed, and is the next of the builder. -/
theorem Rebuilt.push (h : Rebuilt env tree₀ s p) (hfits : AllFit s' → AllFit s)
    (hfee : AllFit s' → ∀ fee ∈ r.fee, HasLeaf fee.token ∧ fee.amount < u128Bound)
    (hround : ∀ {n tree}, AllFit s' → n < 2 ^ 64 → TreeShows env.hasher n tree s.content →
      RoundShows env.hasher (n + 1) tree r.executedOp r.fee.toList s'.content)
    (hpush : p.pushSuccess env.overflowChecks chunksNeeded r executed = .ok (e, p'))
    (hexecuted : ∀ i, (executed i).getExecutedOp = some r.executedOp) : Rebuilt env tree₀ s' p' := by
  have hops := (pushedOps_pushSuccess hexecuted hpush).ops
  obtain ⟨_, _, -, -, -, rfl⟩ := PendingBlock.pushSuccess_eq_ok.mp hpush
  refine ⟨h.failed, fun hfit fee hmem => ?_, fun hfit hlength => ?_⟩
  · rcases List.mem_append.mp hmem with hmem | hmem
    · exact h.fees (hfits hfit) fee hmem
    · exact hfee hfit fee (Option.mem_toList.mp hmem)
  · rw [hops] at hlength ⊢
    rw [List.length_append, List.length_singleton] at hlength
    have hlt : p.executedOps.length < 2 ^ 64 := by omega
    obtain ⟨accum, tree, hbuilt⟩ := h.built (hfits hfit) hlt
    exact hbuilt.push (hround hfit hlt hbuilt.shows) (Nat.le_refl _)

theorem Rebuilt.tx (hz : env.NoZeroSigner) (h : Rebuilt env tree₀ s p) (hindexed : Indexed s)
    (hbelow : BalancesBelow s) {tx : ZkSyncTx} (hexec : s.executeTx env tx = .ok (r, s'))
    (hpackable : tx.Packable)
    (hpush : p.pushSuccess env.overflowChecks chunksNeeded r executed = .ok (e, p'))
    (hexecuted : ∀ i, (executed i).getExecutedOp = some r.executedOp) : Rebuilt env tree₀ s' p' := by
  have heff := executeTx_effect hexec
  refine h.push (fun hfit => (heff.allFit_iff.mp hfit).1) (fun hfit fee hfee => ?_)
    (fun hfit hn hshows => ?_) hpush hexecuted
  · exact ⟨heff.fee_hasLeaf (heff.allFit_iff.mp hfit).2 fee hfee, heff.fee_below hbelow fee hfee⟩
  · exact heff.round hz hshows hn hindexed (heff.allFit_iff.mp hfit).2 hpackable hbelow

theorem Rebuilt.priorityOp (h : Rebuilt env tree₀ s p) (hindexed : Indexed s)
    (hbelow : BalancesBelow s) (hbelow' : BalancesBelow s') {op : ZkSyncPriorityOp}
    (hfresh : FreshDeposit s op) (hexec : s.executePriorityOp op = .ok (r, s'))
    (hpush : p.pushSuccess env.overflowChecks chunksNeeded r executed = .ok (e, p'))
    (hexecuted : ∀ i, (executed i).getExecutedOp = some r.executedOp) : Rebuilt env tree₀ s' p' := by
  have heff := executePriorityOp_effect hexec
  refine h.push heff.allFit_iff.mp (fun _ fee hfee => ?_) (fun _ _ hshows => ?_) hpush hexecuted
  · rw [heff.fee_none] at hfee
    cases hfee
  · obtain ⟨data, tree', hdata, hok, hshows', hkeep⟩ :=
      heff.round hshows hindexed hfresh hbelow hbelow'
    exact ⟨data, tree', hdata, hok, hshows'.mono (Nat.le_succ _), hkeep⟩

/-- The builder sees nothing of a failed transaction, or of the counters; and accounts
that cannot be told apart are shown by the same tree. -/
theorem Rebuilt.unseen (h : Rebuilt env tree₀ s p) (hfits : AllFit s' → AllFit s)
    (hcontent : ∀ id, (s.content id).Equiv (s'.content id))
    (hfailed : ∀ tx ∈ p'.failedTxs, tx.op = none) (hops : p'.successOperations = p.successOperations)
    (hfees : p'.collectedFees = p.collectedFees) : Rebuilt env tree₀ s' p' := by
  have hexecuted : p'.executedOps = p.executedOps := by
    unfold PendingBlock.executedOps
    rw [hops]
  refine ⟨hfailed, fun hfit => ?_, fun hfit hlength => ?_⟩
  · rw [hfees]
    exact h.fees (hfits hfit)
  · rw [hexecuted] at hlength ⊢
    rw [hfees]
    obtain ⟨accum, tree, hbuilt⟩ := h.built (hfits hfit) hlength
    exact ⟨accum, tree, { hbuilt with shows := hbuilt.shows.equiv hcontent }⟩

theorem Rebuilt.counted (h : Rebuilt env tree₀ s p) (hp : Counted p p') : Rebuilt env tree₀ s p' := by
  have hrest : p'.failedTxs = p.failedTxs ∧ p'.successOperations = p.successOperations ∧
      p'.collectedFees = p.collectedFees := by
    rw [hp]
    exact ⟨rfl, rfl, rfl⟩
  exact h.unseen id (fun _ => Account.Equiv.refl _) (hrest.1 ▸ h.failed) hrest.2.1 hrest.2.2

/-- A batch that was executed. -/
theorem Rebuilt.batch (hz : env.NoZeroSigner) {es : List Executed} (hrun : Run (TxStep env) s es s') :
    ∀ {p p' : PendingBlock} {txs : List SignedZkSyncTx} {batchId : Int}
      {ops : List ExecutedOperations}, Rebuilt env tree₀ s p → Indexed s →
      txs.map (·.tx) = es.map (·.1) → BelowWhile env s (txs.map (·.tx)) →
      (∀ request ∈ txs, request.tx.Packable) →
      p.pushBatchResults env.overflowChecks chunksNeeded batchId
        (txs.zip (es.map fun e => .ok e.2)) = .ok (ops, p') → Rebuilt env tree₀ s' p' := by
  induction hrun with
  | nil =>
    intro p p' txs batchId ops h hindexed htxs hbelow hpackable hpush
    obtain rfl := List.map_eq_nil_iff.mp htxs
    cases hpush
    exact h
  | @cons s s₁ s' e es hstep _ ih =>
    intro p p' txs batchId ops h hindexed htxs hbelow hpackable hpush
    cases txs with
    | nil => cases htxs
    | cons tx txs =>
      obtain ⟨htx, htxs⟩ := List.cons.inj htxs
      rw [List.map_cons, List.zip_cons_cons] at hpush
      unfold PendingBlock.pushBatchResults at hpush
      simp only [Outcome.bind_eq_ok] at hpush
      obtain ⟨⟨_, p₁⟩, hp₁, ⟨_, p₂⟩, hp₂, hpush⟩ := hpush
      cases hpush
      have htx : tx.tx = e.1 := htx
      have hexec : s.executeTx env tx.tx = .ok (e.2, s₁) := by
        rw [htx]
        exact hstep
      unfold PendingBlock.pushTxResult at hp₁
      rw [List.map_cons, htx] at hbelow
      have hfirst := h.tx hz hindexed hbelow.start hexec (hpackable tx List.mem_cons_self) hp₁
        (by exact fun _ => rfl)
      exact ih hfirst ((Step.txOk hexec).writes.indexed hindexed) htxs (hbelow.rest hstep)
        (fun request hrequest => hpackable request (List.mem_cons_of_mem _ hrequest)) hp₂

/-- The accounts of a state that is what the map stores. -/
theorem Mirrors.content {m : Ledger} (h : Mirrors m s) (id : AccountId) :
    ((m id).getD Account.default).Equiv (s.content id) := by
  unfold ZkSyncState.content
  cases hm : m id with
  | some a =>
    obtain ⟨a', ha', hcovers⟩ := h.stored id a hm
    rw [ha']
    exact hcovers.equiv.symm
  | none =>
    cases hs : s.getAccount id with
    | none => exact Account.Equiv.refl _
    | some a' => exact (h.absent id a' hm hs).symm

/-- A batch that failed. -/
theorem Rebuilt.failedBatch (h : Rebuilt env tree₀ s p) (hmirrors : Mirrors s.getAccount s')
    {batchId : Int} {error : String} {txs : List SignedZkSyncTx} {ops : List ExecutedOperations}
    (hpush : p.pushBatchResults env.overflowChecks chunksNeeded batchId
      (txs.zip (List.replicate txs.length (.error error))) = .ok (ops, p')) :
    Rebuilt env tree₀ s' p' := by
  have hfits : AllFit s' → AllFit s := by
    intro hfit id a ha
    obtain ⟨a', ha', hcovers⟩ := hmirrors.stored id a ha
    exact hcovers.fits (hfit id a' ha')
  have hp := pushBatchResults_error hpush
  refine h.unseen hfits hmirrors.content ((pushedOps_pushBatchResults hpush).failed h.failed) ?_ ?_
  · rw [hp]
  · rw [hp]

end Pending

/-! ## The keeper -/

/-- The state is indexed and hashed as it should. -/
structure Maintained (env : Env) (s : ZkSyncState) : Prop where
  indexed : Indexed s
  hashed : Hashed env.hasher s

section Keeper

variable {env : Env} {tree₀ : CircuitAccountTree} {s s' : ZkSyncState} {k k' : ZkSyncStateKeeper}

theorem Maintained.writes (h : Maintained env s) (hwrites : Writes env.hasher s s') :
    Maintained env s' :=
  ⟨hwrites.indexed h.indexed, hwrites.hashed h.hashed⟩

theorem Maintained.step (h : Maintained env k.state) {e : KeeperCall × KeeperReply}
    (hstep : KeeperStep env k e k') : Maintained env k'.state := by
  obtain ⟨call, reply⟩ := e
  have heff := hstep.effect
  dsimp only at heff
  cases heff with
  | full => exact h
  | priorityOp _ _ _ executed => exact h.writes (Step.priorityOp executed).writes
  | @tx _ _ _ _ result _ _ _ _ _ executed =>
    cases result with
    | ok success => exact h.writes (Step.txOk (executeTx_of_result executed)).writes
    | error error =>
      obtain rfl := state_of_failed executed
      exact h
  | batch _ _ _ executed => exact h.writes (Step.batch executed).writes
  | @sealed _ _ _ k₁ _ before hseal =>
    have hk : k₁.state = k.state := by
      rcases before with ⟨-, rfl⟩ | ⟨-, rfl⟩
      · rfl
      · exact state_countIteration k
    obtain ⟨_, paid, hashed, _, _, hs, -, -, rfl⟩ := sealPendingBlock_eq_ok hseal
    have hfees := hs.fees
    rw [hk] at hfees
    have hhashed := (h.writes (Step.collectFee hfees).writes).writes (Step.rootHash hs.root).writes
    exact ⟨hhashed.indexed, hhashed.hashed⟩
  | stored hstore =>
    obtain ⟨-, -, -, rfl⟩ := storePendingBlock_eq_ok hstore
    show Maintained env k.countIteration.state
    rw [state_countIteration]
    exact h

/-- All balances have 128 bits while the call is executed. -/
def KeeperCall.BalancesBelow (env : Env) (k : ZkSyncStateKeeper) : KeeperCall → Prop
  | .batch txs _ => BelowWhile env k.state (txs.map (·.tx))
  | _ => ZkSync.BalancesBelow k.state

def KeeperCall.FreshDeposit (k : ZkSyncStateKeeper) : KeeperCall → Prop
  | .priorityOp op => ZkSync.FreshDeposit k.state op.data
  | _ => True

/-- A step of the keeper within a block. -/
structure BlockStep (env : Env) (k : ZkSyncStateKeeper) (e : KeeperCall × KeeperReply)
    (k' : ZkSyncStateKeeper) : Prop where
  step : KeeperStep env k e k'
  unsealed : ¬ e.2.IsSealed
  packable : e.1.Packable
  below : e.1.BalancesBelow env k
  below' : BalancesBelow k'.state

theorem rebuilt_countIteration (h : Rebuilt env tree₀ k.state k.pendingBlock) :
    Rebuilt env tree₀ k.countIteration.state k.countIteration.pendingBlock := by
  unfold ZkSyncStateKeeper.countIteration
  split
  · exact h.unseen id (fun _ => Account.Equiv.refl _) h.failed rfl rfl
  · exact h

/-- Every call within a block. -/
theorem Rebuilt.step (hz : env.NoZeroSigner) (h : Rebuilt env tree₀ k.state k.pendingBlock)
    (hindexed : Indexed k.state) {e : KeeperCall × KeeperReply} (hstep : BlockStep env k e k')
    (hfresh : e.1.FreshDeposit k) : Rebuilt env tree₀ k'.state k'.pendingBlock := by
  obtain ⟨call, reply⟩ := e
  obtain ⟨hstep, hunsealed, hpackable, hbelow, hbelow'⟩ := hstep
  have heff := hstep.effect
  dsimp only at heff hunsealed hpackable hbelow hfresh
  cases heff with
  | full counted => exact h.counted counted
  | @priorityOp _ _ gasCounter _ _ _ _ _ _ _ _ executed pushed counter =>
    have hcharged : Rebuilt env tree₀ k.state { k.pendingBlock with gasCounter := gasCounter } :=
      h.counted rfl
    exact hcharged.priorityOp hindexed hbelow hbelow' hfresh executed pushed (by exact fun _ => rfl)
  | @tx tx _ p _ result _ _ _ _ admitted executed pushed =>
    have hcounted := h.counted (PendingBlock.counted_admitTx admitted)
    cases result with
    | ok success =>
      unfold PendingBlock.pushTxResult at pushed
      exact hcounted.tx hz hindexed hbelow (executeTx_of_result executed) hpackable pushed
        (by exact fun _ => rfl)
    | error error =>
      obtain rfl := state_of_failed executed
      have hfailed := (pushedOps_pushTxResult pushed).failed hcounted.failed
      cases pushed
      exact hcounted.unseen id (fun _ => Account.Equiv.refl _) hfailed rfl rfl
  | batch estimate room admitted executed pushed =>
    have hcounted := h.counted (PendingBlock.counted_admitBatch admitted)
    have hmirrors := (mirrors_batch hz executed (mirrors_self hindexed) hindexed).1
    cases executeTxsBatch_outcome executed with
    | done batch run => exact Rebuilt.batch hz run hcounted hindexed batch hbelow hpackable pushed
    | undone =>
      rw [succeeded_error] at hmirrors
      exact hcounted.failedBatch hmirrors pushed
  | sealed => exact absurd trivial hunsealed
  | stored hstore =>
    have hk := rebuilt_countIteration h
    obtain ⟨-, -, -, rfl⟩ := storePendingBlock_eq_ok hstore
    exact hk.unseen id (fun _ => Account.Equiv.refl _) hk.failed rfl rfl

/-- A block that was just begun. -/
theorem rebuilt_new {max : Nat} (h : TreeShows env.hasher 0 tree₀ s.content) (n : UInt64) :
    Rebuilt env tree₀ s (PendingBlock.new n max) :=
  ⟨fun _ htx => absurd htx List.not_mem_nil, fun _ _ hfee => absurd hfee List.not_mem_nil,
    fun _ _ => ⟨.empty, tree₀, built_nil h⟩⟩

/-- A run within a block. -/
theorem Rebuilt.run (hz : env.NoZeroSigner) {tr : List (KeeperCall × KeeperReply)}
    (hrun : Run (fun k e k' => BlockStep env k e k' ∧ e.1.FreshDeposit k) k tr k') :
    Maintained env k.state → Rebuilt env tree₀ k.state k.pendingBlock →
      Maintained env k'.state ∧ Rebuilt env tree₀ k'.state k'.pendingBlock := by
  induction hrun with
  | nil => exact fun hs h => ⟨hs, h⟩
  | cons hstep _ ih =>
    intro hs h
    exact ih (hs.step hstep.1.step) (h.step hz hs.indexed hstep.1 hstep.2)

end Keeper

end ZkSync
