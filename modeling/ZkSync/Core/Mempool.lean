import ZkSync.Core.Stream

/-!
# The mempool

`zksync_core::mempool`, as far as it admits batches: it knows the accounts of
the committed blocks, estimates the chunks of a batch by what it knows, and
turns down batches that are too large or withdraw too much.

What the mempool knows comes from the keeper: the stored accounts at the start,
and the account updates of every committed block. So every address it knows is
in the index of the keeper (`knows_of_run`), and its estimate of a batch is at
least that of the keeper (`chunksForBatch_le`).

The database is in `MempoolStorage`, the selection of transactions for a block in
`BlockProposer`.
-/

namespace ZkSync

namespace ZkSyncTx

/-- The account affected by the transaction. -/
def account : ZkSyncTx → Address
  | .Transfer tx => tx.fromAddress
  | .Withdraw tx => tx.fromAddress
  | .Close tx => tx.account
  | .ChangePubKey tx => tx.account
  | .ForcedExit tx => tx.target

/-- `is_withdraw`: a forced exit is one as well. -/
def isWithdraw : ZkSyncTx → Bool
  | .Withdraw _ => true
  | .ForcedExit _ => true
  | _ => false

end ZkSyncTx

/-! ## The state of the mempool -/

/-- What the mempool knows of the accounts, and the queue. -/
structure MempoolState where
  /-- Account and last committed nonce. -/
  accountNonces : Finmap fun _ : Address => Nonce
  accountIds : Finmap fun _ : AccountId => Address
  readyTxs : List SignedTxVariant

namespace MempoolState

/-- A transfer to an address that the mempool does not know takes the room of a new account. -/
def chunksForTx (m : MempoolState) : ZkSyncTx → Nat
  | .Transfer tx =>
    if tx.toAddress ∈ m.accountNonces then TransferOp.CHUNKS else TransferToNewOp.CHUNKS
  | tx => tx.minChunks

/-- The room of a batch is that of its transactions. -/
def chunksForBatch (m : MempoolState) (txs : List SignedZkSyncTx) : Nat :=
  (txs.map fun tx => m.chunksForTx tx.tx).sum

/-- The loop of `restore_from_db` over the stored accounts; the transactions that
wait in the database are left out. -/
def restore (accounts : AList fun _ : AccountId => Account) : MempoolState :=
  accounts.entries.foldl (fun m entry => { m with
    accountIds := m.accountIds.insert entry.1 entry.2.address
    accountNonces := m.accountNonces.insert entry.2.address entry.2.nonce })
    { accountNonces := ∅, accountIds := ∅, readyTxs := [] }

/-- The nonce of a known account is set. -/
def setNonce (m : MempoolState) (id : AccountId) (newNonce : Nonce) : MempoolState :=
  match m.accountIds.lookup id with
  | some address =>
    if address ∈ m.accountNonces then
      { m with accountNonces := m.accountNonces.insert address newNonce }
    else m
  | none => m

/-- `update_nonce`: what a committed update says of an account. -/
def updateNonce (m : MempoolState) (id : AccountId) : AccountUpdate → MempoolState
  | .Create address nonce => { m with
      accountIds := m.accountIds.insert id address
      accountNonces := m.accountNonces.insert address nonce }
  | .Delete address _ => { m with
      accountIds := m.accountIds.erase id
      accountNonces := m.accountNonces.erase address }
  | .UpdateBalance _ newNonce _ => m.setNonce id newNonce
  | .ChangePubKeyHash _ _ _ newNonce => m.setNonce id newNonce

/-- `MempoolRequest::UpdateNonces`. -/
def updateNonces (m : MempoolState) (updates : AccountUpdates) : MempoolState :=
  updates.foldl (fun m u => m.updateNonce u.1 u.2) m

/-- `MempoolState::add_batch`. -/
def addBatch (m : MempoolState) (batch : SignedTxsBatch) : Outcome MempoolState := do
  Outcome.assert (batch.batchId ≠ 0) "Batch ID was not set"
  Outcome.ensure (∀ tx ∈ batch.txs,
    ((m.accountNonces.lookup tx.tx.account).getD 0) ≤ tx.tx.nonce) "Tx nonce is too low."
  return { m with readyTxs := m.readyTxs ++ [.Batch batch] }

/-- What the committer tells the mempool when it received a request. -/
def notify (m : MempoolState) : CommitRequest → MempoolState
  | .Block request _ => m.updateNonces request.accountsUpdated
  | .PendingBlock _ _ => m

end MempoolState

/-- The mempool, with the limits of a block. -/
structure Mempool where
  mempoolState : MempoolState
  maxBlockSizeChunks : Nat
  maxNumberOfWithdrawalsPerBlock : Nat

/-- `Mempool::add_batch`; the id is the one the database gives the batch. -/
def Mempool.addBatch (m : Mempool) (txs : List SignedZkSyncTx) (batchId : Int) :
    Outcome Mempool := do
  Outcome.ensure (m.mempoolState.chunksForBatch txs ≤ m.maxBlockSizeChunks)
    "Batch will not fit in any of supported block sizes"
  Outcome.ensure (txs.countP (·.tx.isWithdraw) ≤ m.maxNumberOfWithdrawalsPerBlock)
    "The number of withdrawals in the batch is too big"
  let mempoolState ← m.mempoolState.addBatch ⟨txs, batchId⟩
  return { m with mempoolState := mempoolState }

/-! ## What the mempool knows -/

section Known

variable {m : MempoolState} {address : Address}

/-- Setting a nonce makes no address known. -/
theorem mem_setNonce {id : AccountId} {nonce : Nonce}
    (h : address ∈ (m.setNonce id nonce).accountNonces) : address ∈ m.accountNonces := by
  unfold MempoolState.setNonce at h
  split at h
  · split at h
    next hmem =>
      rcases Finmap.mem_insert.mp h with rfl | h
      · exact hmem
      · exact h
    next => exact h
  · exact h

/-- An address that an update makes known is one it creates. -/
theorem mem_updateNonce {u : AccountId × AccountUpdate}
    (h : address ∈ (m.updateNonce u.1 u.2).accountNonces) :
    address ∈ m.accountNonces ∨ ∃ nonce, u.2 = .Create address nonce := by
  obtain ⟨id, update⟩ := u
  cases update with
  | Create address' nonce =>
    rcases Finmap.mem_insert.mp h with rfl | h
    · exact Or.inr ⟨nonce, rfl⟩
    · exact Or.inl h
  | Delete address' nonce => exact Or.inl (Finmap.mem_erase.mp h).2
  | UpdateBalance _ newNonce _ => exact Or.inl (mem_setNonce h)
  | ChangePubKeyHash _ _ _ newNonce => exact Or.inl (mem_setNonce h)

/-- An address is known only if it was before, or was created. -/
theorem mem_updateNonces {us : AccountUpdates} (h : address ∈ (m.updateNonces us).accountNonces) :
    address ∈ m.accountNonces ∨ ∃ u ∈ us, ∃ nonce, u.2 = .Create address nonce := by
  unfold MempoolState.updateNonces at h
  induction us generalizing m with
  | nil => exact Or.inl h
  | cons u us ih =>
    rcases ih h with h | ⟨v, hv, hc⟩
    · exact (mem_updateNonce h).imp_right fun hc => ⟨u, List.mem_cons_self, hc⟩
    · exact Or.inr ⟨v, List.mem_cons_of_mem _ hv, hc⟩

/-- At a restart the mempool knows the stored accounts. -/
theorem mem_restore {accounts : AList fun _ : AccountId => Account}
    (h : address ∈ (MempoolState.restore accounts).accountNonces) :
    ∃ id a, accounts.lookup id = some a ∧ a.address = address := by
  unfold MempoolState.restore at h
  have hfold : ∀ (entries : List (Sigma fun _ : AccountId => Account)) (m : MempoolState),
      address ∈ (entries.foldl (fun m entry => { m with
        accountIds := m.accountIds.insert entry.1 entry.2.address
        accountNonces := m.accountNonces.insert entry.2.address entry.2.nonce }) m).accountNonces →
      address ∈ m.accountNonces ∨ ∃ entry ∈ entries, entry.2.address = address := by
    intro entries
    induction entries with
    | nil => exact fun m h => Or.inl h
    | cons entry entries ih =>
      intro m h
      rcases ih _ h with h | ⟨e, he, hadr⟩
      · rcases Finmap.mem_insert.mp h with rfl | h
        · exact Or.inr ⟨entry, List.mem_cons_self, rfl⟩
        · exact Or.inl h
      · exact Or.inr ⟨e, List.mem_cons_of_mem _ he, hadr⟩
  rcases hfold accounts.entries _ h with h | ⟨entry, he, hadr⟩
  · exact absurd h Finmap.notMem_empty
  · exact ⟨entry.1, entry.2, (List.mem_dlookup accounts.nodupKeys he), hadr⟩

end Known

/-! ## The index of the keeper only grows -/

section Grows

variable {env : Env} {s s' : ZkSyncState} {k k' : ZkSyncStateKeeper}

/-- Every address of a list of updates that create accounts is in the index. -/
def CreatesKnown (us : AccountUpdates) (s : ZkSyncState) : Prop :=
  ∀ u ∈ us, ∀ address nonce, u.2 = .Create address nonce →
    (s.accountIdByAddress.lookup address).isSome

/-- Addresses stay in the index. -/
theorem CreatesKnown.grows {us : AccountUpdates} (h : CreatesKnown us s) (hg : IndexGrows s s') :
    CreatesKnown us s' :=
  fun u hu address nonce he => hg address (h u hu address nonce he)

theorem CreatesKnown.append {us vs : AccountUpdates} (h : CreatesKnown us s)
    (h' : CreatesKnown vs s) : CreatesKnown (us ++ vs) s := by
  intro u hu
  rcases List.mem_append.mp hu with hu | hu
  · exact h u hu
  · exact h' u hu

/-- Updates that create nothing name no address. -/
theorem NoCreate.createsKnown {us : AccountUpdates} (h : NoCreate us) (s : ZkSyncState) :
    CreatesKnown us s :=
  fun u hu address nonce he => absurd he (h u hu address nonce)

/-- An account that a transaction creates is in the index behind it. -/
theorem TxEffect.createsKnown {tx : ZkSyncTx} {r : OpSuccess} (h : TxEffect env s tx r s') :
    CreatesKnown r.updates s' := by
  cases h with
  | transferToNew =>
    intro u hu address nonce he
    simp only [List.mem_cons, List.not_mem_nil, or_false] at hu
    rcases hu with rfl | rfl | rfl
    · cases he
      rw [ZkSyncState.lookup_insertAccount, if_pos (by rfl)]
      rfl
    · cases he
    · cases he
  | transfer =>
    exact (noCreate_updateBalance (noCreate_updateBalance noCreate_nil)).createsKnown _
  | transferToSelf => exact (noCreate_updateBalance noCreate_nil).createsKnown _
  | withdraw => exact (noCreate_updateBalance noCreate_nil).createsKnown _
  | changePubKey =>
    exact (noCreate_cons (fun _ _ h => by cases h)
      (noCreate_updateBalance noCreate_nil)).createsKnown _
  | forcedExit =>
    exact (noCreate_updateBalance (noCreate_updateBalance noCreate_nil)).createsKnown _

/-- So is one that a deposit creates. -/
theorem PriorityEffect.createsKnown {op : ZkSyncPriorityOp} {r : OpSuccess}
    (h : PriorityEffect s op r s') : CreatesKnown r.updates s' := by
  cases h with
  | depositToNew =>
    intro u hu address nonce he
    simp only [List.mem_cons, List.not_mem_nil, or_false] at hu
    rcases hu with rfl | rfl
    · cases he
      rw [ZkSyncState.lookup_insertAccount, if_pos (by rfl)]
      rfl
    · cases he
  | deposit => exact (noCreate_updateBalance noCreate_nil).createsKnown _
  | fullExit => exact (noCreate_updateBalance noCreate_nil).createsKnown _
  | fullExitRefused => exact noCreate_nil.createsKnown _

/-- Priority operations take no address from the index. -/
theorem PriorityEffect.indexGrows {op : ZkSyncPriorityOp} {r : OpSuccess}
    (h : PriorityEffect s op r s') : IndexGrows s s' := by
  cases h with
  | deposit => exact indexGrows_insertAccount s _ _
  | depositToNew => exact indexGrows_insertAccount s _ _
  | fullExit => exact indexGrows_insertAccount s _ _
  | fullExitRefused => exact indexGrows_refl s

/-- What transactions create is in the index behind all of them. -/
theorem createsKnown_txRun {es : List Executed} (h : Run (TxStep env) s es s') :
    CreatesKnown (updatesOf es) s' := by
  induction h with
  | nil => exact noCreate_nil.createsKnown _
  | cons hstep hrest ih =>
    unfold updatesOf
    rw [List.flatMap_cons]
    exact ((executeTx_effect hstep).createsKnown.grows (indexGrows_of_run hrest).1).append ih

/-- What a batch creates is in the index behind it; one that fails creates nothing. -/
theorem createsKnown_batch {txs : List SignedZkSyncTx} {results : BatchResults}
    (h : s.executeTxsBatch env txs = .ok (results, s')) :
    IndexGrows s s' ∧ CreatesKnown (updatesOf (succeeded txs results)) s' := by
  cases executeTxsBatch_outcome h with
  | done batch run =>
    rw [succeeded_ok batch]
    exact ⟨(indexGrows_of_run run).1, createsKnown_txRun run⟩
  | undone _ run _ undo =>
    rw [succeeded_error]
    exact ⟨indexGrows_of_undo run undo, noCreate_nil.createsKnown _⟩

/-- Collecting fees leaves the index. -/
theorem indexGrows_collectFee {fees : List CollectedFee} {feeAccount : AccountId}
    {us : AccountUpdates} (h : s.collectFee fees feeAccount = .ok (us, s')) : IndexGrows s s' := by
  obtain ⟨a, a', -, -, rfl, -, -⟩ := collectFee_effect h
  exact indexGrows_insertAccount s _ _

theorem indexGrows_rootHash {H : Hasher Fr} {hash : Fr} (h : s.rootHash H = .ok (hash, s')) :
    IndexGrows s s' := by
  intro address hadr
  rw [index_of_rootHash h]
  exact hadr

end Grows

/-! ## The keeper knows what the mempool knows -/

/-- The account updates of what the keeper sends to the committer. -/
def CommitRequest.accountsUpdated : CommitRequest → AccountUpdates
  | .Block request _ => request.accountsUpdated
  | .PendingBlock _ _ => []

/-- Every address the mempool knows is in the index. -/
def MempoolState.KnownTo (m : MempoolState) (s : ZkSyncState) : Prop :=
  ∀ address ∈ m.accountNonces, (s.accountIdByAddress.lookup address).isSome

section Keeper

variable {env : Env} {k k' k₀ : ZkSyncStateKeeper} {m : MempoolState}

/-- What the mempool knows stays true when the index grows. -/
theorem MempoolState.KnownTo.grows {s s' : ZkSyncState} (h : m.KnownTo s) (hg : IndexGrows s s') :
    m.KnownTo s' :=
  fun address hadr => hg address (h address hadr)

/-- What it is told of a block makes it know created addresses only. -/
theorem MempoolState.KnownTo.notify {s : ZkSyncState} (h : m.KnownTo s) {request : CommitRequest}
    (hc : CreatesKnown request.accountsUpdated s) : (m.notify request).KnownTo s := by
  intro address hadr
  cases request with
  | Block request updates =>
    rcases mem_updateNonces hadr with hadr | ⟨u, hu, nonce, he⟩
    · exact h address hadr
    · exact hc u hu address nonce he
  | PendingBlock pendingBlock updates => exact h address hadr

theorem createsKnown_countIteration
    (h : CreatesKnown k.pendingBlock.accountUpdates k.state) :
    CreatesKnown k.countIteration.pendingBlock.accountUpdates k.countIteration.state := by
  unfold ZkSyncStateKeeper.countIteration
  split <;> exact h

theorem state_countIteration (k : ZkSyncStateKeeper) : k.countIteration.state = k.state := by
  unfold ZkSyncStateKeeper.countIteration
  split <;> rfl

/-- One call: the index grows, and what was created, and is pushed or sent, is in it. -/
theorem createsKnown_step {e : KeeperCall × KeeperReply}
    (h : CreatesKnown k.pendingBlock.accountUpdates k.state) (hstep : KeeperStep env k e k') :
    IndexGrows k.state k'.state ∧ CreatesKnown k'.pendingBlock.accountUpdates k'.state ∧
      ∀ request ∈ e.2.sent, CreatesKnown request.accountsUpdated k'.state := by
  obtain ⟨call, reply⟩ := e
  have heff := hstep.effect
  dsimp only at heff ⊢
  -- what is pushed joins what was pushed before, whose addresses are still in the index
  have hpush : ∀ {us : AccountUpdates} {count : Nat} {p : PendingBlock} {s' : ZkSyncState},
      PushedBy us count k.pendingBlock p → IndexGrows k.state s' → CreatesKnown us s' →
      CreatesKnown p.accountUpdates s' := by
    intro us count p s' hpushed hg hus
    rw [hpushed.updates]
    exact (h.grows hg).append hus
  have hsilent : ∀ request ∈ ([] : List CommitRequest),
      CreatesKnown request.accountsUpdated k'.state := fun request hr => absurd hr List.not_mem_nil
  cases heff with
  | full counted =>
    exact ⟨indexGrows_refl _, hpush counted.pushedBy (indexGrows_refl _)
      (noCreate_nil.createsKnown _), hsilent⟩
  | priorityOp _ _ _ executed pushed =>
    have hprio := executePriorityOp_effect executed
    obtain ⟨_, _, -, -, -, rfl⟩ := PendingBlock.pushSuccess_eq_ok.mp pushed
    exact ⟨hprio.indexGrows, (h.grows hprio.indexGrows).append hprio.createsKnown, hsilent⟩
  | @tx tx chunksNeeded p p' result state e _ _ admitted executed pushed =>
    have hpushed := (PendingBlock.counted_admitTx admitted).pushedBy.trans
      (pushedBy_pushTxResult pushed)
    cases result with
    | ok success =>
      have htx := executeTx_effect (executeTx_of_result executed)
      exact ⟨htx.indexGrows, hpush hpushed htx.indexGrows htx.createsKnown, hsilent⟩
    | error error =>
      obtain rfl := state_of_failed executed
      exact ⟨indexGrows_refl _, hpush hpushed (indexGrows_refl _) (noCreate_nil.createsKnown _),
        hsilent⟩
  | @batch txs batchId chunksNeeded p p' results state ops _ _ admitted executed pushed =>
    have hpushed := (PendingBlock.counted_admitBatch admitted).pushedBy.trans
      (pushedBy_pushBatchResults pushed)
    rw [List.nil_append, updatesOf_succeeded] at hpushed
    obtain ⟨hg, hc⟩ := createsKnown_batch executed
    exact ⟨hg, hpush hpushed hg hc, hsilent⟩
  | @sealed _ request updates k₁ _ before hseal =>
    -- the request holds all that was pushed, and the fees create nobody
    have hk : k₁.state = k.state ∧ CreatesKnown k₁.pendingBlock.accountUpdates k₁.state := by
      rcases before with ⟨-, rfl⟩ | ⟨-, rfl⟩
      · exact ⟨rfl, h⟩
      · exact ⟨state_countIteration k, createsKnown_countIteration h⟩
    obtain ⟨feeUpdates, paid, hashed, _, _, hs, -, -, rfl⟩ := sealPendingBlock_eq_ok hseal
    have hpaid := indexGrows_collectFee hs.fees
    have hg : IndexGrows k₁.state hashed := fun address hadr =>
      indexGrows_rootHash hs.root address (hpaid address hadr)
    obtain ⟨_, _, -, -, -, hno, -⟩ := collectFee_effect hs.fees
    refine ⟨fun address hadr => hg address (by rw [hk.1]; exact hadr), noCreate_nil.createsKnown _,
      fun r hr => ?_⟩
    obtain rfl := List.mem_singleton.mp hr
    show CreatesKnown request.accountsUpdated _
    rw [hs.accounts]
    exact (hk.2.grows hg).append (hno.createsKnown _)
  | stored hstore =>
    have hc := createsKnown_countIteration h
    obtain ⟨-, -, -, rfl⟩ := storePendingBlock_eq_ok hstore
    refine ⟨?_, hc, fun r hr => ?_⟩
    · show IndexGrows k.state k.countIteration.state
      rw [state_countIteration]
      exact indexGrows_refl _
    · obtain rfl := List.mem_singleton.mp hr
      exact noCreate_nil.createsKnown _

/-- All that the keeper tells the mempool is in its index. -/
theorem createsKnown_run {tr : List (KeeperCall × KeeperReply)} (hrun : Run (KeeperStep env) k tr k')
    (h : CreatesKnown k.pendingBlock.accountUpdates k.state) :
    IndexGrows k.state k'.state ∧ CreatesKnown k'.pendingBlock.accountUpdates k'.state ∧
      ∀ request ∈ sentBy tr, CreatesKnown request.accountsUpdated k'.state := by
  induction hrun with
  | nil => exact ⟨indexGrows_refl _, h, fun request hr => absurd hr List.not_mem_nil⟩
  | @cons k k₁ k' e tr hstep _ ih =>
    obtain ⟨hg, hk, hsent⟩ := createsKnown_step h hstep
    obtain ⟨hg', hk', hsent'⟩ := ih hk
    refine ⟨fun address hadr => hg' address (hg address hadr), hk', fun request hr => ?_⟩
    have hr' : request ∈ e.2.sent ++ sentBy tr := hr
    rcases List.mem_append.mp hr' with hr' | hr'
    · exact (hsent request hr').grows hg'
    · exact hsent' request hr'

/-- What the mempool knows: the stored accounts, and the updates of the blocks of
which the committer has told it. -/
def MempoolState.after (accounts : AList fun _ : AccountId => Account)
    (told : List CommitRequest) : MempoolState :=
  told.foldl MempoolState.notify (MempoolState.restore accounts)

/-- Over a run from the stored accounts, the keeper knows every address of which
the mempool was told. -/
theorem knownTo_run {accounts : AList fun _ : AccountId => Account} {lastBlockNumber : BlockNumber}
    {unprocessedPriorityOp : UInt64} {feeAccountAddress : Address} {sizes : List Nat}
    {maxMini fastMini maxWithdrawals : Nat}
    (hnew : ZkSyncStateKeeper.new env (.fromAccMap env.hasher accounts lastBlockNumber
      unprocessedPriorityOp) feeAccountAddress sizes maxMini fastMini maxWithdrawals = .ok k₀)
    {tr : List (KeeperCall × KeeperReply)} (hrun : Run (KeeperStep env) k₀ tr k)
    {told : List CommitRequest} (htold : told <+: sentBy tr) :
    (MempoolState.after accounts told).KnownTo k.state := by
  obtain ⟨blockNumber, feeAccountId, maxBlockSize, -, ⟨hash, hroot⟩, hk⟩ :=
    ZkSyncStateKeeper.new_eq_ok hnew
  have hpending : k₀.pendingBlock.accountUpdates = [] := by
    rw [hk]
    rfl
  have hstart : CreatesKnown k₀.pendingBlock.accountUpdates k₀.state := by
    rw [hpending]
    exact noCreate_nil.createsKnown _
  obtain ⟨hg, -, hsent⟩ := createsKnown_run hrun hstart
  have hrestore : (MempoolState.restore accounts).KnownTo k.state := by
    intro address hadr
    obtain ⟨id, a, ha, rfl⟩ := mem_restore hadr
    refine hg a.address (indexGrows_rootHash hroot a.address ?_)
    have hget := getAccount_fromAccMap env.hasher accounts lastBlockNumber id
    exact located_fromAccMap env.hasher accounts lastBlockNumber id a (hget.trans ha) trivial
  have hall : ∀ request ∈ told, CreatesKnown request.accountsUpdated k.state :=
    fun request hr => hsent request (htold.subset hr)
  unfold MempoolState.after
  generalize MempoolState.restore accounts = m at hrestore
  clear htold
  induction told generalizing m with
  | nil => exact hrestore
  | cons request told ih =>
    exact ih (fun r hr => hall r (List.mem_cons_of_mem _ hr)) _
      (hrestore.notify (hall request List.mem_cons_self))

end Keeper

/-! ## Estimates -/

/-- The keeper needs no more chunks than the mempool expects, if it knows what
the mempool knows. -/
theorem chunksForTx_le {m : MempoolState} {s : ZkSyncState} (hm : m.KnownTo s) {tx : ZkSyncTx}
    {n : Nat} (h : s.chunksForTx tx = .ok n) : n ≤ m.chunksForTx tx := by
  cases tx with
  | Transfer tx =>
    unfold ZkSyncState.chunksForTx at h
    dsimp only at h
    rw [Outcome.bind_eq_ok] at h
    obtain ⟨found, hfound, h⟩ := h
    obtain rfl := Except.ok.inj h
    unfold MempoolState.chunksForTx
    dsimp only
    cases found with
    | some r =>
      show TransferOp.CHUNKS ≤ _
      split <;> decide
    | none =>
      have hnot : tx.toAddress ∉ m.accountNonces := fun hmem => by
        have hsome := hm _ hmem
        rw [s.getAccountByAddress_eq_none hfound] at hsome
        cases hsome
      rw [if_neg hnot]
      exact Nat.le_refl _
  | Withdraw => exact Nat.le_of_eq (Except.ok.inj h).symm
  | Close => exact Nat.le_of_eq (Except.ok.inj h).symm
  | ChangePubKey => exact Nat.le_of_eq (Except.ok.inj h).symm
  | ForcedExit => exact Nat.le_of_eq (Except.ok.inj h).symm

/-- The mempool never asks for less room than the state will. -/
theorem chunksForBatch_le {m : MempoolState} {s : ZkSyncState} (hm : m.KnownTo s)
    {txs : List SignedZkSyncTx} {n : Nat} (h : s.chunksForBatch txs = .ok n) :
    n ≤ m.chunksForBatch txs := by
  induction txs generalizing n with
  | nil =>
    cases h
    exact Nat.zero_le _
  | cons tx txs ih =>
    unfold ZkSyncState.chunksForBatch at h
    simp only [Outcome.bind_eq_ok, Outcome.pure_eq, Except.ok.injEq] at h
    obtain ⟨c, hc, rest, hrest, rfl⟩ := h
    unfold MempoolState.chunksForBatch at ih ⊢
    rw [List.map_cons, List.sum_cons]
    exact Nat.add_le_add (chunksForTx_le hm hc) (ih hrest)

/-- What a batch was checked for when it was admitted. -/
theorem addBatch_eq_ok {m m' : Mempool} {txs : List SignedZkSyncTx} {batchId : Int}
    (h : m.addBatch txs batchId = .ok m') :
    m.mempoolState.chunksForBatch txs ≤ m.maxBlockSizeChunks ∧
      txs.countP (·.tx.isWithdraw) ≤ m.maxNumberOfWithdrawalsPerBlock := by
  unfold Mempool.addBatch at h
  simp only [Outcome.bind_eq_ok, Outcome.ensure_eq_ok] at h
  obtain ⟨_, hchunks, _, hwithdrawals, -⟩ := h
  exact ⟨hchunks, hwithdrawals⟩

end ZkSync
