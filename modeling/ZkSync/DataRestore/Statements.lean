import ZkSync.Core.BlockFunds
import ZkSync.Witness.PublicInput

/-!
# Account statements

What an account holds, from the operations alone. An operation posts amounts to accounts
(`ZkSyncOp.posted`): what a transfer takes from one account, with its fee, and gives to
another, what is deposited, paid out, charged. When a block is sealed, its fees are posted
to its fee account. There are no other movements: in every run of the state keeper the
balance of every account is the first one, with what the sealed blocks and the pending
block have posted (`balances_of_run`); batches that fail, transactions that are refused and
accounts that a failed batch leaves behind change nothing.

What a block posts can be read from its public data. So a statement of any account can be
drawn from what is on Ethereum (`balances_published`), also where the restorer, which
executes the operations again, comes to another state: the ids are in the data.
-/

namespace ZkSync

/-! ## Postings -/

/-- An amount, for one account and one token. -/
def posting (account : AccountId) (currency : TokenId) (amount : Int) (id : AccountId)
    (token : TokenId) : Int :=
  if account = id ∧ currency = token then amount else 0

/-- What the operation posts, without the fee that is collected later. -/
def ZkSyncOp.posted (id : AccountId) (token : TokenId) : ZkSyncOp → Int
  | .Deposit op => posting op.accountId op.priorityOp.token op.priorityOp.amount id token
  | .TransferToNew op =>
    posting op.fromId op.tx.token (-(op.tx.amount + op.tx.fee : Nat)) id token +
      posting op.toId op.tx.token op.tx.amount id token
  | .Withdraw op =>
    posting op.accountId op.tx.token (-(op.tx.amount + op.tx.fee : Nat)) id token
  | .Close _ => 0
  | .Transfer op =>
    posting op.fromId op.tx.token (-(op.tx.amount + op.tx.fee : Nat)) id token +
      posting op.toId op.tx.token op.tx.amount id token
  | .FullExit op =>
    posting op.priorityOp.accountId op.priorityOp.token (-(op.withdrawAmount.getD 0 : Nat)) id token
  | .ChangePubKeyOffchain op => posting op.accountId op.tx.feeToken (-(op.tx.fee : Nat)) id token
  | .ForcedExit op =>
    posting op.tx.initiatorAccountId op.tx.token (-(op.tx.fee : Nat)) id token +
      posting op.targetAccountId op.tx.token (-(op.withdrawAmount.getD 0 : Nat)) id token
  | .Noop => 0

/-- The fee of the operation. -/
def ZkSyncOp.feeIn (token : TokenId) : ZkSyncOp → Nat
  | .TransferToNew op => if op.tx.token = token then op.tx.fee else 0
  | .Withdraw op => if op.tx.token = token then op.tx.fee else 0
  | .Transfer op => if op.tx.token = token then op.tx.fee else 0
  | .ChangePubKeyOffchain op => if op.tx.feeToken = token then op.tx.fee else 0
  | .ForcedExit op => if op.tx.token = token then op.tx.fee else 0
  | _ => 0

/-- What the operations of a pending block have posted. -/
def pendingPostings (ops : List ZkSyncOp) (id : AccountId) (token : TokenId) : Int :=
  (ops.map (·.posted id token)).sum

/-- What the operations of a block post, with the fees. -/
def postings (feeAccount : AccountId) (ops : List ZkSyncOp) (id : AccountId) (token : TokenId) :
    Int :=
  pendingPostings ops id token + if feeAccount = id then ((ops.map (·.feeIn token)).sum : Nat) else 0

/-- The balance of a token, zero where no account is. -/
def ZkSyncState.balance (s : ZkSyncState) (id : AccountId) (token : TokenId) : Int :=
  Ledger.balanceOf (s.getAccount id) token

/-! ## What updates post -/

/-- What a list of updates adds to one balance. -/
def postedBy (id : AccountId) (token : TokenId) (us : AccountUpdates) : Int :=
  (us.map fun u => if u.1 = id then u.2.delta token else 0).sum

section Updates

variable {m m' : Ledger} (id : AccountId) (token : TokenId)

/-- An update moves the balance of its account by what it says, and no other. -/
theorem Ledger.balance_step {u : AccountId × AccountUpdate} (h : Ledger.Step m u m') :
    (Ledger.balanceOf (m' id) token : Int) =
      Ledger.balanceOf (m id) token + if u.1 = id then u.2.delta token else 0 := by
  obtain ⟨id', update⟩ := u
  obtain ⟨hfits, rfl⟩ := h
  by_cases hid : id' = id
  · subst hid
    rw [Function.update_self, if_pos rfl]
    dsimp only at hfits ⊢
    -- the update fits, so the balance that it names is the one that is there
    cases update with
    | Create address nonce =>
      rw [show m id' = none from hfits]
      simp [Ledger.balanceOf, Account.applyUpdate, AccountUpdate.delta, Account.getBalance,
        Account.default]
    | Delete address nonce => exact hfits.elim
    | UpdateBalance oldNonce newNonce upd =>
      obtain ⟨token', oldBalance, newBalance⟩ := upd
      obtain ⟨a, ha, hold, -⟩ := hfits
      rw [ha]
      have hnew : Ledger.balanceOf (Account.applyUpdate (some a)
          (.UpdateBalance oldNonce newNonce (token', oldBalance, newBalance))) token =
          if token = token' then newBalance else a.getBalance token :=
        Account.getBalance_setBalance a token' token newBalance
      rw [hnew]
      simp only [Ledger.balanceOf, Option.elim_some, AccountUpdate.delta]
      by_cases htoken : token = token'
      · subst htoken
        simp only [if_true, hold]
        omega
      · simp only [htoken, Ne.symm htoken, if_false]
        omega
    | ChangePubKeyHash oldPubKeyHash newPubKeyHash oldNonce newNonce =>
      obtain ⟨a, ha, -⟩ := hfits
      rw [ha]
      simp [Ledger.balanceOf, Account.applyUpdate, AccountUpdate.delta, Account.getBalance]
  · rw [Function.update_of_ne (Ne.symm hid), if_neg hid, add_zero]

theorem Ledger.balance_run {us : AccountUpdates} (h : Run Ledger.Step m us m') :
    (Ledger.balanceOf (m' id) token : Int) = Ledger.balanceOf (m id) token + postedBy id token us :=
  Run.sum (fun m => (Ledger.balanceOf (m id) token : Int))
    (fun u => if u.1 = id then u.2.delta token else 0)
    (fun _ _ _ hstep => Ledger.balance_step id token hstep) h

end Updates

section Effects

variable {env : Env} {s s' : ZkSyncState} {r : OpSuccess} (id : AccountId) (token : TokenId)

/-- A transaction changes every balance by what its operation posts. -/
theorem TxEffect.posted {tx : ZkSyncTx} (h : TxEffect env s tx r s') :
    postedBy id token r.updates = r.executedOp.posted id token := by
  unfold postedBy
  cases h with
  | transfer sender =>
    simp only [List.map_cons, List.map_nil, List.sum_cons, List.sum_nil, delta_debit sender.funds,
      delta_credit, ZkSyncOp.posted, posting, ite_and, add_zero]
  | @transferToSelf tx a sender =>
    have hfee : tx.fee ≤ a.getBalance tx.token := le_trans (Nat.le_add_left _ _) sender.funds
    simp only [List.map_cons, List.map_nil, List.sum_cons, List.sum_nil, delta_debit hfee,
      ZkSyncOp.posted, posting, ite_and]
    -- what it takes from itself it gives to itself, up to the fee
    split
    · split <;> omega
    · rfl
  | transferToNew sender =>
    simp only [List.map_cons, List.map_nil, List.sum_cons, List.sum_nil, delta_debit sender.funds,
      delta_credit, delta_create, ZkSyncOp.posted, posting, ite_and, add_zero, ite_self, zero_add]
  | withdraw sender =>
    simp only [List.map_cons, List.map_nil, List.sum_cons, List.sum_nil, delta_debit sender.funds,
      ZkSyncOp.posted, posting, ite_and, add_zero]
  | changePubKey _ _ _ _ _ _ _ funds =>
    simp only [List.map_cons, List.map_nil, List.sum_cons, List.sum_nil, delta_setBalance,
      delta_changePubKeyHash, ZkSyncOp.posted, posting, ite_and, add_zero, ite_self, zero_add]
    split
    · split <;> omega
    · rfl
  | forcedExit _ _ _ _ _ _ amount _ _ _ funds =>
    simp only [List.map_cons, List.map_nil, List.sum_cons, List.sum_nil, delta_debit funds,
      delta_setBalance, ZkSyncOp.posted, posting, ite_and, amount, add_zero]
    simp

/-- So does a priority operation. -/
theorem PriorityEffect.posted {op : ZkSyncPriorityOp} (h : PriorityEffect s op r s') :
    postedBy id token r.updates = r.executedOp.posted id token := by
  unfold postedBy
  cases h with
  | deposit =>
    simp only [List.map_cons, List.map_nil, List.sum_cons, List.sum_nil, delta_credit,
      ZkSyncOp.posted, posting, ite_and, add_zero]
  | depositToNew =>
    simp only [List.map_cons, List.map_nil, List.sum_cons, List.sum_nil, delta_credit,
      delta_create, ZkSyncOp.posted, posting, ite_and, add_zero, ite_self, zero_add]
  | fullExit =>
    simp only [List.map_cons, List.map_nil, List.sum_cons, List.sum_nil, delta_setBalance,
      ZkSyncOp.posted, posting, ite_and, Option.getD_some, add_zero]
    simp
  | fullExitRefused => simp [ZkSyncOp.posted, posting]

theorem TxEffect.feeIn {tx : ZkSyncTx} (h : TxEffect env s tx r s') :
    (r.fee.toList.map (CollectedFee.of token)).sum = r.executedOp.feeIn token := by
  cases h <;> exact Nat.add_zero _

theorem PriorityEffect.feeIn {op : ZkSyncPriorityOp} (h : PriorityEffect s op r s') :
    (r.fee.toList.map (CollectedFee.of token)).sum = r.executedOp.feeIn token := by
  cases h <;> rfl

end Effects

/-! ## Within a block -/

/-- From these balances the executed operations have led to those of the state, and the
fees that wait for the seal are theirs. -/
structure StatementFollows (opening : AccountId → TokenId → Int) (s : ZkSyncState)
    (ops : List ZkSyncOp) (fees : List CollectedFee) : Prop where
  balance : ∀ id token, s.balance id token = opening id token + pendingPostings ops id token
  fees : ∀ token, (fees.map (CollectedFee.of token)).sum = (ops.map (·.feeIn token)).sum

section Within

variable {env : Env} {opening : AccountId → TokenId → Int} {s s' : ZkSyncState}
  {ops : List ZkSyncOp} {fees : List CollectedFee}

theorem statementFollows_nil (s : ZkSyncState) : StatementFollows s.balance s [] [] := by
  refine ⟨fun id token => ?_, fun _ => rfl⟩
  simp [pendingPostings]

/-- An operation whose updates post what it says. -/
theorem StatementFollows.push (h : StatementFollows opening s ops fees) {r : OpSuccess}
    (hrun : Run Ledger.Step s.getAccount r.updates s'.getAccount)
    (hposted : ∀ id token, postedBy id token r.updates = r.executedOp.posted id token)
    (hfee : ∀ token,
      (r.fee.toList.map (CollectedFee.of token)).sum = r.executedOp.feeIn token) :
    StatementFollows opening s' (ops ++ [r.executedOp]) (fees ++ r.fee.toList) := by
  refine ⟨fun id token => ?_, fun token => ?_⟩
  · have hbefore := h.balance id token
    have hmoved := Ledger.balance_run id token hrun
    rw [hposted] at hmoved
    simp only [ZkSyncState.balance, pendingPostings, List.map_append, List.sum_append,
      List.map_cons, List.map_nil, List.sum_cons, List.sum_nil] at hbefore ⊢
    omega
  · simp only [List.map_append, List.sum_append, List.map_cons, List.map_nil, List.sum_cons,
      List.sum_nil, h.fees token, hfee token, Nat.add_zero]

theorem statementFollows_kept (hz : env.NoZeroSigner) (opening : AccountId → TokenId → Int) :
    KeptWithin env (StatementFollows opening) where
  tx h _ heffect := h.push (heffect.run hz) heffect.posted heffect.feeIn
  priorityOp h heffect := h.push heffect.run heffect.posted heffect.feeIn
  undone h hmirrors := by
    refine ⟨fun id token => ?_, h.fees⟩
    rw [← h.balance id token]
    unfold ZkSyncState.balance
    rw [hmirrors.balance_eq]

/-- Sealing adds the fees to the fee account. -/
theorem StatementFollows.sealed {k : ZkSyncStateKeeper} {request : BlockCommitRequest}
    {updates : AppliedUpdatesRequest} {feeUpdates : AccountUpdates} {paid hashed : ZkSyncState}
    (h : StatementFollows opening k.state k.pendingBlock.executedOps k.pendingBlock.collectedFees)
    (hs : Sealed env k request updates feeUpdates paid hashed) (id : AccountId) (token : TokenId) :
    hashed.balance id token = opening id token +
      postings request.block.feeAccount k.pendingBlock.executedOps id token := by
  obtain ⟨a, a', ha, hcredited, hpaid, -, -⟩ := collectFee_effect hs.fees
  have hbefore := h.balance id token
  have hfees := h.fees token
  unfold ZkSyncState.balance at hbefore ⊢
  unfold postings
  rw [getAccount_of_rootHash hs.root, hpaid, hs.feeAccount]
  by_cases hid : k.feeAccountId = id
  · subst hid
    rw [ha] at hbefore
    rw [ZkSyncState.getAccount_insertAccount, Function.update_self, if_pos rfl]
    simp only [Ledger.balanceOf, Option.elim_some, hcredited.balance token, hfees] at hbefore ⊢
    omega
  · rw [ZkSyncState.getAccount_insertAccount_of_ne _ _ _ (Ne.symm hid), if_neg hid]
    omega

end Within

/-! ## Runs -/

section Runs

variable {env : Env} {k k' : ZkSyncStateKeeper} {tr : List (KeeperCall × KeeperReply)}

/-- What the sealed blocks have posted. -/
def blockPostings (blocks : List Block) (id : AccountId) (token : TokenId) : Int :=
  (blocks.map fun block => postings block.feeAccount block.executedOps id token).sum

theorem blocksOf_sealed {call : KeeperCall} {request : BlockCommitRequest}
    {updates : AppliedUpdatesRequest} : blocksOf [(call, .sealed request updates)] = [request.block] :=
  rfl

/-- One call: the sealed block, if it seals one, is carried over to the opening balances. -/
theorem statement_step (hz : env.NoZeroSigner) {opening : AccountId → TokenId → Int}
    (hk : WithinBlock (StatementFollows opening) k) {e : KeeperCall × KeeperReply}
    (hstep : KeeperStep env k e k') :
    WithinBlock (StatementFollows fun id token =>
      opening id token + blockPostings (blocksOf [e]) id token) k' := by
  by_cases hsealed : e.2.IsSealed
  · obtain ⟨call, reply⟩ := e
    cases reply with
    | sealed request updates =>
      obtain ⟨k₁, feeUpdates, paid, hashed, hk₁, hs, hops, -, haccounts, hnext⟩ := hk.sealed hstep
      refine hnext _ ?_
      have hbalance : k'.state.balance = fun id token =>
          opening id token + blockPostings (blocksOf [(call, .sealed request updates)]) id token := by
        funext id token
        have hsealed := hk₁.rel.sealed hs id token
        unfold ZkSyncState.balance at hsealed ⊢
        rw [haccounts, hsealed, blocksOf_sealed, ← hops]
        simp [blockPostings]
      rw [← hbalance]
      exact statementFollows_nil _
    | _ => exact hsealed.elim
  · rw [blocksOf_unsealed hsealed]
    have hsame : (fun id token => opening id token + blockPostings [] id token) = opening := by
      funext id token
      simp [blockPostings]
    rw [hsame]
    exact (statementFollows_kept hz opening).step hz hk hstep hsealed

theorem blockPostings_append (blocks blocks' : List Block) (id : AccountId) (token : TokenId) :
    blockPostings (blocks ++ blocks') id token =
      blockPostings blocks id token + blockPostings blocks' id token := by
  simp [blockPostings]

theorem statement_run (hz : env.NoZeroSigner) (hrun : Run (KeeperStep env) k tr k') :
    ∀ opening : AccountId → TokenId → Int, WithinBlock (StatementFollows opening) k →
      WithinBlock (StatementFollows fun id token =>
        opening id token + blockPostings (blocksOf tr) id token) k' := by
  induction hrun with
  | nil k =>
    intro opening hk
    have hsame : (fun id token => opening id token + blockPostings (blocksOf []) id token) =
        opening := by
      funext id token
      exact add_zero _
    rw [hsame]
    exact hk
  | @cons k k₁ k' e tr hstep _ ih =>
    intro opening hk
    have hrest := ih _ (statement_step hz hk hstep)
    have hsame : (fun id token => opening id token + blockPostings (blocksOf (e :: tr)) id token) =
        fun id token => opening id token + blockPostings (blocksOf [e]) id token +
          blockPostings (blocksOf tr) id token := by
      funext id token
      rw [← List.singleton_append, blocksOf_append, blockPostings_append, add_assoc]
    rw [hsame]
    exact hrest

variable {accounts : AList fun _ : AccountId => Account} {n : BlockNumber} {unprocessed : UInt64}
  {feeAccountAddress : Address} {sizes : List Nat} {maxMini fastMini maxWithdrawals : Nat}
  {k₀ : ZkSyncStateKeeper}

/-- The balances that a keeper is started with. -/
def openingBalance (accounts : AList fun _ : AccountId => Account) (id : AccountId)
    (token : TokenId) : Int :=
  Ledger.balanceOf (accounts.lookup id) token

/-- A new keeper has executed nothing. -/
theorem statement_new (hnew : ZkSyncStateKeeper.new env
    (.fromAccMap env.hasher accounts n unprocessed) feeAccountAddress sizes maxMini fastMini
    maxWithdrawals = .ok k₀) : WithinBlock (StatementFollows (openingBalance accounts)) k₀ := by
  obtain ⟨blockNumber, feeAccountId, max, -, ⟨hash, hroot⟩, hk⟩ := ZkSyncStateKeeper.new_eq_ok hnew
  have hindexed : Indexed { ZkSyncState.fromAccMap env.hasher accounts n with
      blockNumber := blockNumber } := indexed_fromAccMap env.hasher accounts n
  have hbalance : openingBalance accounts = k₀.state.balance := by
    funext id token
    unfold ZkSyncState.balance openingBalance
    rw [getAccount_of_rootHash hroot, ← getAccount_fromAccMap env.hasher accounts n]
    rfl
  rw [hbalance, hk]
  exact ⟨(Step.rootHash hroot).writes.indexed hindexed,
    fun _ htx => absurd htx List.not_mem_nil, statementFollows_nil _⟩

/-- In every run the balance of an account is the one it began with, with what the sealed
blocks and the pending block have posted to it. -/
theorem balances_of_run (hz : env.NoZeroSigner)
    (hnew : ZkSyncStateKeeper.new env (.fromAccMap env.hasher accounts n unprocessed)
      feeAccountAddress sizes maxMini fastMini maxWithdrawals = .ok k₀)
    (hrun : Run (KeeperStep env) k₀ tr k) (id : AccountId) (token : TokenId) :
    k.state.balance id token = openingBalance accounts id token +
      blockPostings (blocksOf tr) id token +
        pendingPostings k.pendingBlock.executedOps id token :=
  (statement_run hz hrun _ (statement_new hnew)).rel.balance id token

end Runs

/-! ## From the public data -/

section Published

variable {env : Env} {k k' : ZkSyncStateKeeper} {tr : List (KeeperCall × KeeperReply)}

/-- A call with packable transactions. The public data of a block that it seals exists: it
was published. -/
def PublishedStep (env : Env) (k : ZkSyncStateKeeper) (e : KeeperCall × KeeperReply)
    (k' : ZkSyncStateKeeper) : Prop :=
  e.1.Packable ∧ (∀ block ∈ blocksOf [e], ∃ data, block.getEthPublicData = .ok data) ∧
    KeeperStep env k e k'

/-- What a block posts, read from its public data. -/
def Block.publishedPostings (block : Block) (id : AccountId) (token : TokenId) : Outcome Int := do
  let data ← block.getEthPublicData
  let ops ← getRollupOpsFromData data
  return postings block.feeAccount ops id token

/-- What the public data hides of an operation moves nothing. -/
theorem posted_visible (op : ZkSyncOp) (id : AccountId) (token : TokenId) :
    op.visible.posted id token = op.posted id token := by
  cases op <;> rfl

theorem feeIn_visible (op : ZkSyncOp) (token : TokenId) : op.visible.feeIn token = op.feeIn token := by
  cases op <;> rfl

/-- The padding moves nothing either. -/
theorem postings_padded (feeAccount : AccountId) (ops : List ZkSyncOp) (n : Nat) (id : AccountId)
    (token : TokenId) :
    postings feeAccount (ops.map ZkSyncOp.visible ++ List.replicate n .Noop) id token =
      postings feeAccount ops id token := by
  have hposted : (ZkSyncOp.Noop).posted id token = 0 := rfl
  have hfee : (ZkSyncOp.Noop).feeIn token = 0 := rfl
  unfold postings pendingPostings
  simp only [List.map_append, List.map_map, List.map_replicate, List.sum_append, List.sum_replicate,
    hposted, hfee, nsmul_zero, add_zero, Function.comp_def, posted_visible, feeIn_visible]

/-- The operations that a call with packable transactions executes are packable. -/
theorem packable_step (hpackable : ∀ op ∈ k.pendingBlock.executedOps, op.Packable)
    {e : KeeperCall × KeeperReply} (hcall : e.1.Packable) (hstep : KeeperStep env k e k') :
    ∀ op ∈ k'.pendingBlock.executedOps, op.Packable := by
  obtain ⟨call, reply⟩ := e
  have heff := hstep.effect
  dsimp only at heff hcall
  -- whatever a call pushes comes after what is there
  have hpushed : ∀ {p p' : PendingBlock} {ops : List ZkSyncOp},
      SameExecuted k.pendingBlock p → PushedOps ops p p' → (∀ op ∈ ops, op.Packable) →
        ∀ op ∈ p'.executedOps, op.Packable := by
    intro p p' ops hsame hpush hops op hop
    rw [hpush.ops, hsame.ops] at hop
    rcases List.mem_append.mp hop with hop | hop
    · exact hpackable op hop
    · exact hops op hop
  cases heff with
  | full counted => exact (SameExecuted.of_counted counted).ops ▸ hpackable
  | priorityOp _ _ _ executed pushed =>
    have hpush := pushedOps_pushSuccess (by exact fun _ => rfl) pushed
    refine hpushed ?_ hpush ?_
    · exact ⟨id, rfl, rfl⟩
    intro op hop
    rw [List.mem_singleton.mp hop]
    exact (executePriorityOp_effect executed).packable
  | @tx tx _ _ _ result _ _ _ _ admitted executed pushed =>
    refine hpushed (.of_counted (PendingBlock.counted_admitTx admitted))
      (pushedOps_pushTxResult pushed) ?_
    intro op hop
    obtain ⟨success, hsuccess, rfl⟩ := List.mem_map.mp hop
    cases result with
    | error error => exact absurd hsuccess List.not_mem_nil
    | ok success' =>
      obtain rfl := List.mem_singleton.mp hsuccess
      exact (executeTx_effect (executeTx_of_result executed)).packable hcall
  | batch _ _ admitted executed pushed =>
    refine hpushed (.of_counted (PendingBlock.counted_admitBatch admitted))
      (pushedOps_pushBatchResults pushed) ?_
    intro op hop
    obtain ⟨⟨tx, result⟩, hr, hop⟩ := List.mem_flatMap.mp hop
    cases result with
    | error error => exact absurd hop List.not_mem_nil
    | ok success =>
      obtain rfl := List.mem_singleton.mp hop
      obtain ⟨s, s', hexec⟩ := resultOf_batch executed _ hr success rfl
      exact (executeTx_effect hexec).packable (hcall _ (List.of_mem_zip hr).1)
  | sealed _ hseal =>
    obtain ⟨_, _, _, _, _, _, -, -, rfl⟩ := sealPendingBlock_eq_ok hseal
    exact fun op hop => absurd hop List.not_mem_nil
  | stored hstore =>
    obtain ⟨-, -, -, rfl⟩ := storePendingBlock_eq_ok hstore
    exact (sameExecuted_countIteration k).ops ▸ hpackable

/-- The public data of a sealed block says what the block posted. -/
theorem publishedPostings_of_sealed {opening : AccountId → TokenId → Int}
    (hk : WithinBlock (StatementFollows opening) k)
    (hpackable : ∀ op ∈ k.pendingBlock.executedOps, op.Packable) {call : KeeperCall}
    {request : BlockCommitRequest} {updates : AppliedUpdatesRequest}
    (hstep : KeeperStep env k (call, .sealed request updates) k') {data : Bytes}
    (hdata : request.block.getEthPublicData = .ok data) (id : AccountId) (token : TokenId) :
    request.block.publishedPostings id token =
      .ok (postings request.block.feeAccount request.block.executedOps id token) := by
  obtain ⟨k₁, feeUpdates, paid, hashed, hk₁, hs, hops₁, hops, -, -⟩ := hk.sealed hstep
  rw [← hops, hops₁] at hpackable
  obtain ⟨count, hparsed⟩ := parsed_of_sealed hs hk₁.failed hpackable hdata
  unfold Block.publishedPostings
  rw [hdata, Outcome.ok_bind, hparsed, Outcome.ok_bind, postings_padded, hops₁]
  rfl

/-- Every sealed block of a run can be read, and says what it posted. -/
theorem published_run (hz : env.NoZeroSigner) (id : AccountId) (token : TokenId)
    (hrun : Run (PublishedStep env) k tr k') :
    ∀ opening : AccountId → TokenId → Int, WithinBlock (StatementFollows opening) k →
      (∀ op ∈ k.pendingBlock.executedOps, op.Packable) →
      (blocksOf tr).mapM (·.publishedPostings id token) =
        .ok ((blocksOf tr).map fun block =>
          postings block.feeAccount block.executedOps id token) := by
  induction hrun with
  | nil => exact fun _ _ _ => rfl
  | @cons k k₁ k' e tr hstep _ ih =>
    intro opening hk hpackable
    obtain ⟨hcall, hpublic, hstep⟩ := hstep
    have hrest := ih _ (statement_step hz hk hstep) (packable_step hpackable hcall hstep)
    rw [← List.singleton_append, blocksOf_append]
    by_cases hsealed : e.2.IsSealed
    · obtain ⟨call, reply⟩ := e
      cases reply with
      | sealed request updates =>
        obtain ⟨data, hdata⟩ := hpublic request.block List.mem_cons_self
        rw [blocksOf_sealed, List.singleton_append, List.mapM_cons,
          publishedPostings_of_sealed hk hpackable hstep hdata, Outcome.ok_bind, hrest]
        rfl
      | _ => exact hsealed.elim
    · rw [blocksOf_unsealed hsealed, List.nil_append]
      exact hrest

variable {accounts : AList fun _ : AccountId => Account} {n : BlockNumber} {unprocessed : UInt64}
  {feeAccountAddress : Address} {sizes : List Nat} {maxMini fastMini maxWithdrawals : Nat}
  {k₀ : ZkSyncStateKeeper}

/-- The public data of the sealed blocks can be read, and the balance of every account is
the one it began with, with what is read and what waits in the pending block. -/
theorem balances_published (hz : env.NoZeroSigner)
    (hnew : ZkSyncStateKeeper.new env (.fromAccMap env.hasher accounts n unprocessed)
      feeAccountAddress sizes maxMini fastMini maxWithdrawals = .ok k₀)
    (hrun : Run (PublishedStep env) k₀ tr k) (id : AccountId) (token : TokenId) :
    ∃ moves, (blocksOf tr).mapM (·.publishedPostings id token) = .ok moves ∧
      k.state.balance id token = openingBalance accounts id token + moves.sum +
        pendingPostings k.pendingBlock.executedOps id token := by
  have hsteps : Run (KeeperStep env) k₀ tr k := by
    exact Run.mono (I := fun _ => True) (fun _ _ _ _ _ => trivial)
      (fun _ _ _ _ hstep => hstep.2.2) hrun trivial
  have hnone : ∀ op ∈ k₀.pendingBlock.executedOps, op.Packable := by
    obtain ⟨_, _, _, -, -, hk⟩ := ZkSyncStateKeeper.new_eq_ok hnew
    rw [hk]
    exact fun op hop => absurd hop List.not_mem_nil
  have hstarted := statement_new hnew
  exact ⟨_, published_run hz id token hrun _ hstarted hnone,
    (statement_run hz hsteps _ hstarted).rel.balance id token⟩

end Published

/-! ## A transfer to a new account -/

/-- A block with a transfer of 3, for a fee of 1, from the fee account to a new one. -/
structure TransferBlock (k₀ k k' : ZkSyncStateKeeper) (reply : KeeperReply)
    (request : BlockCommitRequest) (updates : AppliedUpdatesRequest) : Prop where
  new : ZkSyncStateKeeper.new (Env.built 1 false)
    (.fromAccMap (Env.built 1 false).hasher sampleStored 0 0) 1 [6, 30] 10 2 5 = .ok k₀
  executed : PublishedStep (Env.built 1 false) k₀
    (.tx ⟨.Transfer (sampleTransfer 2 0), none⟩, reply) k
  sealed : PublishedStep (Env.built 1 false) k (.sealBlock, .sealed request updates) k'
  silent : blocksOf [(.tx ⟨.Transfer (sampleTransfer 2 0), none⟩, reply)] = []
  ops : request.block.executedOps = [.TransferToNew ⟨sampleTransfer 2 0, 0, 1⟩]
  feeAccount : request.block.feeAccount = 0
  begun : k'.pendingBlock.executedOps = []

theorem exists_transferBlock :
    ∃ k₀ k k' reply request updates, TransferBlock k₀ k k' reply request updates := by
  obtain ⟨k₀, k, k', reply, request, updates, hnew, hstep, hseal, hops⟩ :=
    exists_block (.tx ⟨.Transfer (sampleTransfer 2 0), none⟩)
      [.TransferToNew ⟨sampleTransfer 2 0, 0, 1⟩] fits_sampleAccount rfl trivial trivial
      (by decide +kernel)
  have hops : request.block.executedOps = [.TransferToNew ⟨sampleTransfer 2 0, 0, 1⟩] := hops
  have hinRange : ∀ op ∈ [ZkSyncOp.TransferToNew ⟨sampleTransfer 2 0, 0, 1⟩], op.InRange := by
    intro op hop
    rw [List.mem_singleton.mp hop]
    exact packable_sampleTransfer 2 0
  obtain ⟨data, hdata⟩ := publicDataOf_inRange hinRange
  have hpublic : ∀ block ∈ blocksOf [(.sealBlock, .sealed request updates)],
      ∃ data, block.getEthPublicData = .ok data := by
    intro block hblock
    rw [List.mem_singleton.mp hblock]
    unfold Block.getEthPublicData
    rw [hops, hdata]
    exact ⟨_, rfl⟩
  have hsilent : blocksOf [(.tx ⟨.Transfer (sampleTransfer 2 0), none⟩, reply)] = [] := by
    rcases hstep.entry trivial with rfl | ⟨ops, rfl⟩ <;> rfl
  have hfee : k.feeAccountId = 0 := by
    rw [feeAccountId_step hstep]
    obtain ⟨_, feeAccountId, _, hok, -, hk⟩ := ZkSyncStateKeeper.new_eq_ok hnew
    obtain ⟨account, hfound⟩ := hok.feeAccount
    have hzero : some (feeAccountId, account) = some (0, sampleAccount) :=
      Except.ok.inj (hfound.symm.trans rfl)
    rw [hk]
    exact (Prod.mk.inj (Option.some.inj hzero)).1
  have hbegun : k'.pendingBlock.executedOps = [] := by
    cases requestsStep hseal with
    | idle unsealed => exact absurd trivial unsealed
    | sealed ops => exact ops
  obtain ⟨_, _, _, hs⟩ := sealed_of_sealBlock hseal
  refine ⟨k₀, k, k', reply, request, updates, hnew, ⟨packable_sampleTransfer 2 0, ?_, hstep⟩,
    ⟨trivial, hpublic, hseal⟩, hsilent, hops, hs.feeAccount.trans hfee, hbegun⟩
  rw [hsilent]
  exact fun block hblock => absurd hblock List.not_mem_nil

/-- The sender, who is paid the fee, has lost what the new account has. -/
theorem balances_of_run_transfer : ∃ (tr : List (KeeperCall × KeeperReply)) (block : Block)
    (k : ZkSyncStateKeeper), blocksOf tr = [block] ∧
      block.executedOps = [.TransferToNew ⟨sampleTransfer 2 0, 0, 1⟩] ∧
      k.state.balance 0 0 = 7 ∧ k.state.balance 1 0 = 3 := by
  obtain ⟨k₀, k, k', reply, request, updates, h⟩ := exists_transferBlock
  have hrun := Run.cons h.executed.2.2 (Run.single h.sealed.2.2)
  have hblocks : blocksOf [(.tx ⟨.Transfer (sampleTransfer 2 0), none⟩, reply),
      (.sealBlock, .sealed request updates)] = [request.block] := by
    rw [← List.singleton_append, blocksOf_append, h.silent]
    rfl
  have hsender := balances_of_run (noZeroSigner_built _) h.new hrun 0 0
  have htarget := balances_of_run (noZeroSigner_built _) h.new hrun 1 0
  rw [hblocks, h.begun] at hsender htarget
  refine ⟨_, request.block, k', hblocks, h.ops, ?_, ?_⟩
  · simp only [hsender, blockPostings, postings, List.map_cons, List.map_nil, h.ops, h.feeAccount]
    decide
  · simp only [htarget, blockPostings, postings, List.map_cons, List.map_nil, h.ops, h.feeAccount]
    decide

/-- What the public data of the block says. -/
theorem balances_published_transfer : ∃ (block : Block) (k : ZkSyncStateKeeper) (moves : List Int),
    block.executedOps = [.TransferToNew ⟨sampleTransfer 2 0, 0, 1⟩] ∧
      [block].mapM (·.publishedPostings 1 0) = .ok moves ∧ k.state.balance 1 0 = moves.sum := by
  obtain ⟨k₀, k, k', reply, request, updates, h⟩ := exists_transferBlock
  have hrun := Run.cons h.executed (Run.single h.sealed)
  obtain ⟨moves, hmoves, hbalance⟩ := balances_published (noZeroSigner_built _) h.new hrun 1 0
  rw [← List.singleton_append, blocksOf_append, h.silent] at hmoves
  rw [h.begun] at hbalance
  refine ⟨request.block, k', moves, h.ops, hmoves, ?_⟩
  have hopening : openingBalance sampleStored 1 0 = 0 := by decide
  have hpending : pendingPostings [] 1 0 = 0 := by decide
  omega

end ZkSync
