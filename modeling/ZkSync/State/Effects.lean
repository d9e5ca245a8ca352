import ZkSync.State.Execute

/-!
# What a successful operation does

`executeTx_effect` reads every handler backwards, once: a successful
transaction is one of the six cases of `TxEffect`, each with the checks that
passed, the exact result and the exact state after. `executePriorityOp_effect`
does the same for the priority operations and `collectFee_effect` for fees.
Everything proved about runs of the state machine is a case analysis over
these, and no later file unfolds a handler.
-/

namespace ZkSync

/-- The account of a sender after it paid `amount`. -/
def Account.debit (a : Account) (token : TokenId) (amount : Nat) : Account :=
  { a.setBalance token (a.getBalance token - amount) with nonce := a.nonce + 1 }

namespace Account

@[simp] theorem debit_nonce (a : Account) (token : TokenId) (amount : Nat) :
    (a.debit token amount).nonce = a.nonce + 1 := rfl

@[simp] theorem debit_address (a : Account) (token : TokenId) (amount : Nat) :
    (a.debit token amount).address = a.address := rfl

@[simp] theorem debit_pubKeyHash (a : Account) (token : TokenId) (amount : Nat) :
    (a.debit token amount).pubKeyHash = a.pubKeyHash := rfl

theorem getBalance_debit (a : Account) (token token' : TokenId) (amount : Nat) :
    (a.debit token amount).getBalance token' =
      if token' = token then a.getBalance token - amount else a.getBalance token' :=
  getBalance_setBalance a token token' _

end Account

/-- The update a sender's debit is reported as. -/
def debitUpdate (a : Account) (token : TokenId) (amount : Nat) : AccountUpdate :=
  .UpdateBalance a.nonce (a.nonce + 1) (token, a.getBalance token, a.getBalance token - amount)

/-- The update a recipient's credit is reported as. -/
def creditUpdate (a : Account) (token : TokenId) (amount : Nat) : AccountUpdate :=
  .UpdateBalance a.nonce a.nonce (token, a.getBalance token, a.getBalance token + amount)

theorem debitUpdate_eq (a : Account) (token : TokenId) (amount : Nat) :
    debitUpdate a token amount = .UpdateBalance a.nonce (a.nonce + 1)
      (token, a.getBalance token, (a.debit token amount).getBalance token) := by
  rw [Account.getBalance_debit, if_pos rfl]
  rfl

theorem creditUpdate_eq (a : Account) (token : TokenId) (amount : Nat) :
    creditUpdate a token amount = .UpdateBalance a.nonce a.nonce
      (token, a.getBalance token, (a.addBalance token amount).getBalance token) := by
  unfold Account.addBalance
  rw [Account.getBalance_setBalance_self]
  rfl

/-- The nonce can be raised: always in a build without overflow checks. -/
def CanIncrement (env : Env) (nonce : Nonce) : Prop :=
  env.overflowChecks = false ∨ nonce.toNat + 1 < 2 ^ 32

theorem increment_eq_ok {env : Env} {nonce nonce' : Nonce} :
    Nonce.increment env.overflowChecks nonce = .ok nonce' ↔
      CanIncrement env nonce ∧ nonce' = nonce + 1 := by
  unfold Nonce.increment CanIncrement
  exact Outcome.guarded_eq_ok Outcome.assert_eq_ok

/-- The checks every transfer and withdrawal makes of its sender `a`, who pays
`total`. -/
structure SenderOk (env : Env) (s : ZkSyncState) (tx : ZkSyncTx) (address : Address)
    (id : AccountId) (nonce : Nonce) (token : TokenId) (total : Nat) (a : Account) : Prop where
  token_le : token ≤ maxTokenId
  index : s.accountIdByAddress.lookup address = some id
  account : s.getAccount id = some a
  unlocked : a.pubKeyHash ≠ 0
  signed : env.verifySignature tx = some a.pubKeyHash
  id_le : id ≤ maxAccountId
  nonce_eq : nonce = a.nonce
  canIncrement : CanIncrement env a.nonce
  funds : total ≤ a.getBalance token

/-! ## Transactions -/

/-- The six ways a transaction succeeds. -/
inductive TxEffect (env : Env) (s : ZkSyncState) : ZkSyncTx → OpSuccess → ZkSyncState → Prop
  | transfer {tx : Transfer} {j : AccountId} {a b : Account}
      (sender : SenderOk env s (.Transfer tx) tx.fromAddress tx.accountId tx.nonce tx.token
        (tx.amount + tx.fee) a)
      (notZero : tx.toAddress ≠ 0)
      (target : s.accountIdByAddress.lookup tx.toAddress = some j)
      (targetAccount : s.getAccount j = some b) (target_le : j ≤ maxAccountId)
      (ne : tx.accountId ≠ j) :
      TxEffect env s (.Transfer tx)
        { fee := some ⟨tx.token, tx.fee⟩
          updates := [(tx.accountId, debitUpdate a tx.token (tx.amount + tx.fee)),
            (j, creditUpdate b tx.token tx.amount)]
          executedOp := .Transfer ⟨tx, tx.accountId, j⟩ }
        ((s.insertAccount tx.accountId (a.debit tx.token (tx.amount + tx.fee))).insertAccount j
          (b.addBalance tx.token tx.amount))
  | transferToSelf {tx : Transfer} {a : Account}
      (sender : SenderOk env s (.Transfer tx) tx.fromAddress tx.accountId tx.nonce tx.token
        (tx.amount + tx.fee) a)
      (notZero : tx.toAddress ≠ 0)
      (target : s.accountIdByAddress.lookup tx.toAddress = some tx.accountId) :
      TxEffect env s (.Transfer tx)
        { fee := some ⟨tx.token, tx.fee⟩
          updates := [(tx.accountId, debitUpdate a tx.token tx.fee)]
          executedOp := .Transfer ⟨tx, tx.accountId, tx.accountId⟩ }
        (s.insertAccount tx.accountId (a.debit tx.token tx.fee))
  | transferToNew {tx : Transfer} {a : Account}
      (sender : SenderOk env s (.Transfer tx) tx.fromAddress tx.accountId tx.nonce tx.token
        (tx.amount + tx.fee) a)
      (notZero : tx.toAddress ≠ 0)
      (target : s.accountIdByAddress.lookup tx.toAddress = none)
      (free : s.getAccount s.getFreeAccountId = none)
      (target_le : s.getFreeAccountId ≤ maxAccountId) :
      TxEffect env s (.Transfer tx)
        { fee := some ⟨tx.token, tx.fee⟩
          updates := [(s.getFreeAccountId, .Create tx.toAddress 0),
            (tx.accountId, debitUpdate a tx.token (tx.amount + tx.fee)),
            (s.getFreeAccountId,
              creditUpdate (Account.defaultWithAddress tx.toAddress) tx.token tx.amount)]
          executedOp := .TransferToNew ⟨tx, tx.accountId, s.getFreeAccountId⟩ }
        ((s.insertAccount tx.accountId (a.debit tx.token (tx.amount + tx.fee))).insertAccount
          s.getFreeAccountId
          ((Account.defaultWithAddress tx.toAddress).addBalance tx.token tx.amount))
  | withdraw {tx : Withdraw} {a : Account}
      (sender : SenderOk env s (.Withdraw tx) tx.fromAddress tx.accountId tx.nonce tx.token
        (tx.amount + tx.fee) a) :
      TxEffect env s (.Withdraw tx)
        { fee := some ⟨tx.token, tx.fee⟩
          updates := [(tx.accountId, debitUpdate a tx.token (tx.amount + tx.fee))]
          executedOp := .Withdraw ⟨tx, tx.accountId⟩ }
        (s.insertAccount tx.accountId (a.debit tx.token (tx.amount + tx.fee)))
  | changePubKey {tx : ChangePubKey} {a : Account}
      (index : s.accountIdByAddress.lookup tx.account = some tx.accountId)
      (account : s.getAccount tx.accountId = some a)
      (ethSigned : tx.ethSignature = none ∨ env.verifyEthSignature tx = some a.address)
      (signed : env.verifySignature (.ChangePubKey tx) = some tx.newPkHash)
      (id_le : tx.accountId ≤ maxAccountId) (nonce_eq : tx.nonce = a.nonce)
      (canIncrement : CanIncrement env a.nonce) (funds : tx.fee ≤ a.getBalance tx.feeToken) :
      TxEffect env s (.ChangePubKey tx)
        { fee := some ⟨tx.feeToken, tx.fee⟩
          updates := [
            (tx.accountId, .ChangePubKeyHash a.pubKeyHash tx.newPkHash a.nonce (a.nonce + 1)),
            (tx.accountId, .UpdateBalance (a.nonce + 1) (a.nonce + 1)
              (tx.feeToken, a.getBalance tx.feeToken, a.getBalance tx.feeToken - tx.fee))]
          executedOp := .ChangePubKeyOffchain ⟨tx, tx.accountId⟩ }
        (s.insertAccount tx.accountId
          { a.debit tx.feeToken tx.fee with pubKeyHash := tx.newPkHash })
  | forcedExit {tx : ForcedExit} {j : AccountId} {a b : Account} {withdrawAmount : Option Nat}
      (account : s.getAccount tx.initiatorAccountId = some a)
      (signed : env.verifySignature (.ForcedExit tx) = some a.pubKeyHash)
      (token_le : tx.token ≤ maxTokenId)
      (target : s.accountIdByAddress.lookup tx.target = some j)
      (targetAccount : s.getAccount j = some b) (locked : b.pubKeyHash = 0)
      (amount : withdrawAmount.getD 0 = b.getBalance tx.token)
      (id_le : tx.initiatorAccountId ≤ maxAccountId) (nonce_eq : tx.nonce = a.nonce)
      (canIncrement : CanIncrement env a.nonce) (funds : tx.fee ≤ a.getBalance tx.token) :
      TxEffect env s (.ForcedExit tx)
        { fee := some ⟨tx.token, tx.fee⟩
          updates := [(tx.initiatorAccountId, debitUpdate a tx.token tx.fee),
            (j, .UpdateBalance b.nonce b.nonce (tx.token, b.getBalance tx.token, 0))]
          executedOp := .ForcedExit ⟨tx, j, withdrawAmount⟩ }
        ((s.insertAccount tx.initiatorAccountId (a.debit tx.token tx.fee)).insertAccount j
          (b.setBalance tx.token 0))

section Inversion

variable {env : Env} {s s' : ZkSyncState} {r : OpSuccess}

theorem Transfer.createOp_eq_ok {tx : Transfer} {op : TransferOutcome}
    (h : Transfer.createOp env s tx = .ok op) :
    tx.token ≤ maxTokenId ∧ tx.toAddress ≠ 0 ∧
    (∃ a, s.accountIdByAddress.lookup tx.fromAddress = some tx.accountId ∧
      s.getAccount tx.accountId = some a ∧ a.pubKeyHash ≠ 0 ∧
      env.verifySignature (.Transfer tx) = some a.pubKeyHash) ∧
    ((∃ j b, s.accountIdByAddress.lookup tx.toAddress = some j ∧ s.getAccount j = some b ∧
        op = .Transfer ⟨tx, tx.accountId, j⟩) ∨
      (s.accountIdByAddress.lookup tx.toAddress = none ∧
        op = .TransferToNew ⟨tx, tx.accountId, s.getFreeAccountId⟩)) := by
  unfold Transfer.createOp at h
  simp only [Outcome.bind_eq_ok, Outcome.ensure_eq_ok, Outcome.okOrElse_eq_ok] at h
  obtain ⟨_, htok, _, hzero, found, hfound, ⟨i, a⟩, rfl, h⟩ := h
  obtain ⟨hidx, hacc⟩ := s.getAccountByAddress_eq_some hfound
  obtain ⟨_, hlock, _, hsig, _, hid, target, htarget, h⟩ := h
  obtain rfl := hid
  refine ⟨htok, hzero, ⟨a, hidx, hacc, hlock, hsig⟩, ?_⟩
  cases target with
  | none => exact Or.inr ⟨s.getAccountByAddress_eq_none htarget, (Except.ok.inj h).symm⟩
  | some p =>
    obtain ⟨j, b⟩ := p
    obtain ⟨hj, hb⟩ := s.getAccountByAddress_eq_some htarget
    exact Or.inl ⟨j, b, hj, hb, (Except.ok.inj h).symm⟩

theorem Transfer.effect {tx : Transfer} (h : Transfer.applyTx env s tx = .ok (r, s')) :
    TxEffect env s (.Transfer tx) r s' := by
  unfold Transfer.applyTx at h
  simp only [Outcome.bind_eq_ok] at h
  obtain ⟨op, hcreate, ⟨⟨fee, updates⟩, s''⟩, happly, h⟩ := h
  obtain ⟨htok, hzero, ⟨a, hidx, hacc, hlock, hsig⟩, hop⟩ := Transfer.createOp_eq_ok hcreate
  cases h
  -- the receiver is known, or created
  rcases hop with ⟨j, b, hj, hb, rfl⟩ | ⟨hnone, rfl⟩
  · simp only [Transfer.applyOp] at happly
    unfold Transfer.applyTransferOp at happly
    simp only [Outcome.bind_eq_ok, Outcome.ensure_eq_ok] at happly
    obtain ⟨_, hile, _, hjle, happly⟩ := happly
    by_cases hij : tx.accountId = j
    · subst hij
      rw [if_pos rfl] at happly
      unfold Transfer.applyTransferOpToSelf at happly
      simp only [Outcome.bind_eq_ok, Outcome.ensure_eq_ok, Outcome.expect_eq_ok,
        Account.subBalance_eq_ok, increment_eq_ok] at happly
      obtain ⟨_, -, _, -, a', ha', _, hnonce, _, hfunds, a₁, ⟨hle, rfl⟩, n, ⟨hinc, rfl⟩, h⟩ :=
        happly
      rw [hacc] at ha'
      obtain rfl := Option.some.inj ha'
      cases h
      have heff := TxEffect.transferToSelf
        ⟨htok, hidx, hacc, hlock, hsig, hile, hnonce, hinc, hfunds⟩ hzero hj
      rw [debitUpdate_eq] at heff
      exact heff
    · rw [if_neg hij] at happly
      simp only [Outcome.bind_eq_ok, Outcome.ensure_eq_ok, Outcome.expect_eq_ok,
        Account.subBalance_eq_ok, increment_eq_ok] at happly
      obtain ⟨a', ha', b', hb', _, hnonce, _, hfunds, a₁, ⟨-, rfl⟩, n, ⟨hinc, rfl⟩, h⟩ := happly
      rw [hacc] at ha'
      obtain rfl := Option.some.inj ha'
      rw [hb] at hb'
      obtain rfl := Option.some.inj hb'
      cases h
      have heff := TxEffect.transfer
        ⟨htok, hidx, hacc, hlock, hsig, hile, hnonce, hinc, hfunds⟩ hzero hj hb hjle hij
      rw [debitUpdate_eq, creditUpdate_eq] at heff
      exact heff
  · simp only [Transfer.applyOp] at happly
    unfold Transfer.applyTransferToNewOp Account.createAccount at happly
    simp only [Outcome.bind_eq_ok, Outcome.ensure_eq_ok, Outcome.assert_eq_ok,
      Outcome.expect_eq_ok, Account.subBalance_eq_ok, increment_eq_ok] at happly
    obtain ⟨_, hile, _, hjle, _, hfree, a', ha', _, hnonce, _, hfunds, a₁, ⟨-, rfl⟩, n,
      ⟨hinc, rfl⟩, h⟩ := happly
    rw [hacc] at ha'
    obtain rfl := Option.some.inj ha'
    cases h
    have heff := TxEffect.transferToNew
      ⟨htok, hidx, hacc, hlock, hsig, hile, hnonce, hinc, hfunds⟩ hzero hnone hfree hjle
    rw [debitUpdate_eq, creditUpdate_eq] at heff
    exact heff

theorem Withdraw.effect {tx : Withdraw} (h : Withdraw.applyTx env s tx = .ok (r, s')) :
    TxEffect env s (.Withdraw tx) r s' := by
  unfold Withdraw.applyTx Withdraw.createOp at h
  simp only [Outcome.bind_eq_ok, Outcome.ensure_eq_ok, Outcome.okOrElse_eq_ok] at h
  obtain ⟨op, ⟨_, htok, found, hfound, ⟨i, a⟩, rfl, _, hlock, _, hsig, _, rfl, hop⟩,
    ⟨⟨fee, updates⟩, s''⟩, happly, h⟩ := h
  obtain ⟨hidx, hacc⟩ := s.getAccountByAddress_eq_some hfound
  cases h
  cases hop
  unfold Withdraw.applyOp at happly
  simp only [Outcome.bind_eq_ok, Outcome.ensure_eq_ok, Outcome.expect_eq_ok,
    Account.subBalance_eq_ok, increment_eq_ok] at happly
  obtain ⟨_, hile, a', ha', _, hnonce, _, hfunds, a₁, ⟨-, rfl⟩, n, ⟨hinc, rfl⟩, h⟩ := happly
  rw [hacc] at ha'
  obtain rfl := Option.some.inj ha'
  cases h
  have heff := TxEffect.withdraw ⟨htok, hidx, hacc, hlock, hsig, hile, hnonce, hinc, hfunds⟩
  rw [debitUpdate_eq] at heff
  exact heff

theorem ChangePubKey.effect {tx : ChangePubKey}
    (h : ChangePubKey.applyTx env s tx = .ok (r, s')) :
    TxEffect env s (.ChangePubKey tx) r s' := by
  unfold ChangePubKey.applyTx ChangePubKey.createOp at h
  simp only [Outcome.bind_eq_ok, Outcome.ensure_eq_ok, Outcome.okOrElse_eq_ok] at h
  obtain ⟨op, ⟨found, hfound, ⟨i, a⟩, rfl, _, heth, _, hsig, _, rfl, _, hile, hop⟩,
    ⟨⟨fee, updates⟩, s''⟩, happly, h⟩ := h
  obtain ⟨hidx, hacc⟩ := s.getAccountByAddress_eq_some hfound
  cases h
  cases hop
  unfold ChangePubKey.applyOp at happly
  simp only [Outcome.bind_eq_ok, Outcome.ensure_eq_ok, Outcome.expect_eq_ok,
    Account.subBalance_eq_ok, increment_eq_ok] at happly
  obtain ⟨a', ha', _, hnonce, n, ⟨hinc, rfl⟩, _, hfunds, a₁, ⟨-, rfl⟩, h⟩ := happly
  rw [hacc] at ha'
  obtain rfl := Option.some.inj ha'
  cases h
  rw [Account.getBalance_setBalance_self]
  exact TxEffect.changePubKey hidx hacc heth hsig hile hnonce hinc hfunds

theorem ForcedExit.effect {tx : ForcedExit} (h : ForcedExit.applyTx env s tx = .ok (r, s')) :
    TxEffect env s (.ForcedExit tx) r s' := by
  unfold ForcedExit.applyTx ForcedExit.createOp at h
  simp only [Outcome.bind_eq_ok, Outcome.ensure_eq_ok, Outcome.okOrElse_eq_ok] at h
  obtain ⟨op, ⟨a, hacc, _, hsig, _, htok, found, hfound, ⟨j, b⟩, rfl, _, hlock, hop⟩,
    ⟨⟨fee, updates⟩, s''⟩, happly, h⟩ := h
  obtain ⟨hidx, hb⟩ := s.getAccountByAddress_eq_some hfound
  cases h
  cases hop
  unfold ForcedExit.applyOp at happly
  simp only [Outcome.bind_eq_ok, Outcome.ensure_eq_ok, Outcome.expect_eq_ok,
    Account.subBalance_eq_ok, increment_eq_ok] at happly
  obtain ⟨_, hile, a', ha', b', hb', _, hnonce, _, hfunds, _, hamount, a₁, ⟨-, rfl⟩, n,
    ⟨hinc, rfl⟩, b₁, ⟨-, rfl⟩, h⟩ := happly
  rw [hacc] at ha'
  obtain rfl := Option.some.inj ha'
  rw [hb] at hb'
  obtain rfl := Option.some.inj hb'
  -- the whole balance of the target leaves it
  rw [← hamount, Nat.sub_self] at h
  cases h
  have heff := TxEffect.forcedExit hacc hsig htok hidx hb hlock hamount.symm hile hnonce hinc hfunds
  rw [debitUpdate_eq] at heff
  rw [Account.getBalance_setBalance_self]
  exact heff

/-- A successful transaction is one of the six cases. -/
theorem executeTx_effect {tx : ZkSyncTx} (h : s.executeTx env tx = .ok (r, s')) :
    TxEffect env s tx r s' := by
  cases tx with
  | Transfer tx => exact Transfer.effect h
  | Withdraw tx => exact Withdraw.effect h
  | Close tx => cases h
  | ChangePubKey tx => exact ChangePubKey.effect h
  | ForcedExit tx => exact ForcedExit.effect h

end Inversion

/-! ## Priority operations -/

/-- What a priority operation does. Unlike a transaction it cannot be refused. -/
inductive PriorityEffect (s : ZkSyncState) : ZkSyncPriorityOp → OpSuccess → ZkSyncState → Prop
  | deposit {op : Deposit} {i : AccountId} {a : Account} (token_le : op.token ≤ maxTokenId)
      (target : s.accountIdByAddress.lookup op.toAddress = some i ∨
        (s.accountIdByAddress.lookup op.toAddress = none ∧ i = s.getFreeAccountId))
      (account : s.getAccount i = some a) :
      PriorityEffect s (.Deposit op)
        { fee := none
          updates := [(i, creditUpdate a op.token op.amount)]
          executedOp := .Deposit ⟨op, i⟩ }
        (s.insertAccount i (a.addBalance op.token op.amount))
  | depositToNew {op : Deposit} (token_le : op.token ≤ maxTokenId)
      (target : s.accountIdByAddress.lookup op.toAddress = none)
      (free : s.getAccount s.getFreeAccountId = none) :
      PriorityEffect s (.Deposit op)
        { fee := none
          updates := [(s.getFreeAccountId, .Create op.toAddress 0),
            (s.getFreeAccountId,
              creditUpdate (Account.defaultWithAddress op.toAddress) op.token op.amount)]
          executedOp := .Deposit ⟨op, s.getFreeAccountId⟩ }
        (s.insertAccount s.getFreeAccountId
          ((Account.defaultWithAddress op.toAddress).addBalance op.token op.amount))
  | fullExit {op : FullExit} {a : Account} (token_le : op.token ≤ maxTokenId)
      (account : s.getAccount op.accountId = some a) (owner : a.address = op.ethAddress) :
      PriorityEffect s (.FullExit op)
        { fee := none
          updates := [(op.accountId,
            .UpdateBalance a.nonce a.nonce (op.token, a.getBalance op.token, 0))]
          executedOp := .FullExit ⟨op, some (a.getBalance op.token)⟩ }
        (s.insertAccount op.accountId (a.setBalance op.token 0))
  | fullExitRefused {op : FullExit} (token_le : op.token ≤ maxTokenId)
      (noAccount : ∀ a, s.getAccount op.accountId = some a → a.address ≠ op.ethAddress) :
      PriorityEffect s (.FullExit op)
        { fee := none
          updates := []
          executedOp := .FullExit ⟨op, none⟩ } s

section Priority

variable {s s' : ZkSyncState} {r : OpSuccess}

/-- The index never misses its account. -/
def IndexFound (s : ZkSyncState) : Prop :=
  ∀ address id, s.accountIdByAddress.lookup address = some id → ∃ a, s.getAccount id = some a

theorem Deposit.createOp_eq_ok {op : Deposit} {op' : DepositOp}
    (h : Deposit.createOp s op = .ok op') :
    op.token ≤ maxTokenId ∧ ∃ i, op' = ⟨op, i⟩ ∧
      ((∃ a, s.accountIdByAddress.lookup op.toAddress = some i ∧ s.getAccount i = some a) ∨
        (s.accountIdByAddress.lookup op.toAddress = none ∧ i = s.getFreeAccountId)) := by
  unfold Deposit.createOp at h
  simp only [Outcome.bind_eq_ok, Outcome.assert_eq_ok] at h
  obtain ⟨_, htok, found, hfound, h⟩ := h
  refine ⟨htok, ?_⟩
  cases found with
  | none =>
    exact ⟨_, (Except.ok.inj h).symm, Or.inr ⟨s.getAccountByAddress_eq_none hfound, rfl⟩⟩
  | some p =>
    obtain ⟨i, a⟩ := p
    obtain ⟨hi, ha⟩ := s.getAccountByAddress_eq_some hfound
    exact ⟨i, (Except.ok.inj h).symm, Or.inl ⟨a, hi, ha⟩⟩

theorem Deposit.effect {op : Deposit} (h : Deposit.applyTx s op = .ok (r, s')) :
    PriorityEffect s (.Deposit op) r s' := by
  unfold Deposit.applyTx at h
  simp only [Outcome.bind_eq_ok] at h
  obtain ⟨op', hcreate, ⟨⟨fee, updates⟩, s''⟩, happly, h⟩ := h
  obtain ⟨htok, i, rfl, htarget⟩ := Deposit.createOp_eq_ok hcreate
  cases h
  unfold Deposit.applyOp at happly
  cases ha : s.getAccount i with
  | some a =>
    rw [ha] at happly
    cases happly
    have heff : PriorityEffect s (.Deposit op) _ _ := PriorityEffect.deposit htok
      (htarget.imp (fun h => h.choose_spec.1) fun h => h) ha
    rw [creditUpdate_eq] at heff
    exact heff
  | none =>
    rw [ha] at happly
    cases happly
    rcases htarget with ⟨a, -, ha'⟩ | ⟨hnone, rfl⟩
    · rw [ha] at ha'
      cases ha'
    · have heff : PriorityEffect s (.Deposit op) _ _ := .depositToNew htok hnone ha
      rw [creditUpdate_eq] at heff
      exact heff

theorem FullExit.effect {op : FullExit} (h : FullExit.applyTx s op = .ok (r, s')) :
    PriorityEffect s (.FullExit op) r s' := by
  unfold FullExit.applyTx FullExit.createOp at h
  simp only [Outcome.bind_eq_ok, Outcome.assert_eq_ok] at h
  obtain ⟨op', ⟨_, htok, hop⟩, ⟨⟨fee, updates⟩, s''⟩, happly, h⟩ := h
  cases h
  cases hop
  unfold FullExit.applyOp at happly
  cases hfound : (s.getAccount op.accountId).filter
      fun account => account.address = op.ethAddress with
  | none =>
    rw [hfound] at happly
    cases happly
    refine PriorityEffect.fullExitRefused htok fun a ha hadr => ?_
    rw [ha, Option.filter_some, if_pos (by simpa using hadr)] at hfound
    cases hfound
  | some a =>
    obtain ⟨ha, hadr⟩ := Option.filter_eq_some_iff.mp hfound
    rw [hfound] at happly
    simp only [Option.map_some, Outcome.bind_eq_ok, Outcome.expect_eq_ok,
      Account.subBalance_eq_ok, Outcome.assert_eq_ok] at happly
    obtain ⟨a', ha', a₁, ⟨-, rfl⟩, _, -, h⟩ := happly
    rw [ha] at ha'
    obtain rfl := Option.some.inj ha'
    rw [Nat.sub_self] at h
    cases h
    rw [Account.getBalance_setBalance_self]
    exact PriorityEffect.fullExit htok ha (by simpa using hadr)

/-- A priority operation that returns did one of the four things. -/
theorem executePriorityOp_effect {op : ZkSyncPriorityOp}
    (h : s.executePriorityOp op = .ok (r, s')) : PriorityEffect s op r s' := by
  unfold ZkSyncState.executePriorityOp at h
  cases op with
  | Deposit op =>
    refine Deposit.effect ?_
    dsimp only at h
    split at h
    · cases h
    · exact h
  | FullExit op =>
    refine FullExit.effect ?_
    dsimp only at h
    split at h
    · cases h
    · exact h

end Priority

end ZkSync
