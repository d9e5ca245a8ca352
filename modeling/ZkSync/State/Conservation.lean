import ZkSync.State.System

/-!
# Conservation of funds

Per token, what the accounts hold and what the server owes its fee account
moves only by deposits and withdrawals. One operation at a time this is
`TxEffect.delta` and `PriorityEffect.delta`: the differences its updates carry
add up to what it deposits, less what it withdraws and the fee it returns. The
ledger turns differences into totals, a run adds the steps up.
-/

namespace ZkSync

namespace OpSuccess

/-- The fee the operation returned. -/
def feeOf (token : TokenId) (r : OpSuccess) : Nat := (r.fee.map (CollectedFee.of token)).getD 0

/-- What the operation brought in from outside. -/
def deposited (token : TokenId) (r : OpSuccess) : Nat :=
  match r.executedOp with
  | .Deposit op => if op.priorityOp.token = token then op.priorityOp.amount else 0
  | _ => 0

/-- What the operation paid out. -/
def withdrawn (token : TokenId) (r : OpSuccess) : Nat :=
  match r.executedOp with
  | .Withdraw op => if op.tx.token = token then op.tx.amount else 0
  | .ForcedExit op => if op.tx.token = token then op.withdrawAmount.getD 0 else 0
  | .FullExit op => if op.priorityOp.token = token then op.withdrawAmount.getD 0 else 0
  | _ => 0

/-- What the operation adds to the accounts. -/
def net (token : TokenId) (r : OpSuccess) : Int :=
  (r.deposited token : Int) - r.withdrawn token - r.feeOf token

end OpSuccess

/-- The operations a step executed for good. -/
def Event.operations : Event → List OpSuccess
  | .priorityOp _ r => [r]
  | e => e.committed.map (·.2)

/-- The fees a step handed over for collection. -/
def Event.feesCollected (token : TokenId) : Event → Nat
  | .collectFee fees _ _ => (fees.map (CollectedFee.of token)).sum
  | _ => 0

/-- The sum of a quantity over the operations of a run. -/
def sumOver (f : OpSuccess → Nat) (tr : List Event) : Int :=
  ((tr.flatMap Event.operations).map fun r => (f r : Int)).sum

/-- The fees passed to `collect_fee` in a run. -/
def feesCollected (token : TokenId) (tr : List Event) : Int :=
  (tr.map fun e => (e.feesCollected token : Int)).sum

/-- The sum of all account balances of a token. -/
def ZkSyncState.totalBalance (s : ZkSyncState) (token : TokenId) : Int :=
  Ledger.total s.getAccount token

/-! ## One operation -/

section Delta

variable {env : Env} {s s' : ZkSyncState} {r : OpSuccess}

theorem delta_setBalance (a : Account) (n n' : Nonce) (token token' : TokenId) (balance : Nat) :
    AccountUpdate.delta token' (.UpdateBalance n n' (token, a.getBalance token, balance)) =
      if token = token' then (balance : Int) - a.getBalance token else 0 := rfl

theorem delta_create (address : Address) (n : Nonce) (token : TokenId) :
    (AccountUpdate.Create address n).delta token = 0 := rfl

theorem delta_changePubKeyHash (p p' : PubKeyHash) (n n' : Nonce) (token : TokenId) :
    (AccountUpdate.ChangePubKeyHash p p' n n').delta token = 0 := rfl

theorem delta_debit {a : Account} {token : TokenId} {amount : Nat}
    (h : amount ≤ a.getBalance token) (token' : TokenId) :
    (debitUpdate a token amount).delta token' = if token = token' then -(amount : Int) else 0 := by
  unfold debitUpdate
  rw [delta_setBalance]
  split
  next => omega
  next => rfl

theorem delta_credit (a : Account) (token : TokenId) (amount : Nat) (token' : TokenId) :
    (creditUpdate a token amount).delta token' = if token = token' then (amount : Int) else 0 := by
  unfold creditUpdate
  rw [delta_setBalance]
  split
  next => omega
  next => rfl

theorem feeOf_mk (token token' : TokenId) (amount : Nat) (us : AccountUpdates) (op : ZkSyncOp) :
    OpSuccess.feeOf token ⟨some ⟨token', amount⟩, us, op⟩ = if token' = token then amount else 0 :=
  rfl

/-- A transaction moves the total by what it reports. -/
theorem TxEffect.delta {tx : ZkSyncTx} (h : TxEffect env s tx r s') (token : TokenId) :
    (r.updates.map (·.2.delta token)).sum = r.net token := by
  unfold OpSuccess.net
  cases h with
  | transfer sender =>
    simp only [List.map_cons, List.map_nil, List.sum_cons, List.sum_nil, delta_debit sender.funds,
      delta_credit, OpSuccess.deposited, OpSuccess.withdrawn, feeOf_mk]
    split <;> omega
  | @transferToSelf tx a sender =>
    have hfee : tx.fee ≤ a.getBalance tx.token := le_trans (Nat.le_add_left _ _) sender.funds
    simp only [List.map_cons, List.map_nil, List.sum_cons, List.sum_nil, delta_debit hfee,
      OpSuccess.deposited, OpSuccess.withdrawn, feeOf_mk]
    split <;> omega
  | transferToNew sender =>
    simp only [List.map_cons, List.map_nil, List.sum_cons, List.sum_nil, delta_debit sender.funds,
      delta_credit, delta_create, OpSuccess.deposited, OpSuccess.withdrawn, feeOf_mk]
    split <;> omega
  | withdraw sender =>
    simp only [List.map_cons, List.map_nil, List.sum_cons, List.sum_nil, delta_debit sender.funds,
      OpSuccess.deposited, OpSuccess.withdrawn, feeOf_mk]
    split <;> omega
  | changePubKey _ _ _ _ _ _ _ funds =>
    simp only [List.map_cons, List.map_nil, List.sum_cons, List.sum_nil, delta_setBalance,
      delta_changePubKeyHash, OpSuccess.deposited, OpSuccess.withdrawn, feeOf_mk]
    split <;> omega
  | forcedExit _ _ _ _ _ _ amount _ _ _ funds =>
    simp only [List.map_cons, List.map_nil, List.sum_cons, List.sum_nil, delta_debit funds,
      delta_setBalance, OpSuccess.deposited, OpSuccess.withdrawn, feeOf_mk, amount]
    split <;> omega

/-- So does a priority operation. -/
theorem PriorityEffect.delta {op : ZkSyncPriorityOp} (h : PriorityEffect s op r s')
    (token : TokenId) : (r.updates.map (·.2.delta token)).sum = r.net token := by
  unfold OpSuccess.net
  cases h with
  | deposit =>
    simp only [List.map_cons, List.map_nil, List.sum_cons, List.sum_nil, delta_credit,
      OpSuccess.deposited, OpSuccess.withdrawn, OpSuccess.feeOf]
    split <;> simp
  | depositToNew =>
    simp only [List.map_cons, List.map_nil, List.sum_cons, List.sum_nil, delta_credit,
      delta_create, OpSuccess.deposited, OpSuccess.withdrawn, OpSuccess.feeOf]
    split <;> simp
  | fullExit =>
    simp only [List.map_cons, List.map_nil, List.sum_cons, List.sum_nil, delta_setBalance,
      OpSuccess.deposited, OpSuccess.withdrawn, OpSuccess.feeOf, Option.getD_some]
    split <;> simp
  | fullExitRefused =>
    simp [OpSuccess.deposited, OpSuccess.withdrawn, OpSuccess.feeOf]

end Delta

/-! ## Steps and runs -/

section Runs

variable {env : Env} {s s' : ZkSyncState}

theorem totalBalance_txStep (hz : env.NoZeroSigner) {e : Executed} (h : TxStep env s e s')
    (token : TokenId) : s'.totalBalance token = s.totalBalance token + e.2.net token := by
  have heff := executeTx_effect h
  unfold ZkSyncState.totalBalance
  rw [Ledger.total_run (heff.run hz), heff.delta]

theorem totalBalance_credited {id : AccountId} {a a' : Account} {fees : List CollectedFee}
    (ha : s.getAccount id = some a) (hc : Credited a fees a') (token : TokenId) :
    (s.insertAccount id a').totalBalance token =
      s.totalBalance token + (fees.map (CollectedFee.of token)).sum := by
  unfold ZkSyncState.totalBalance
  rw [ZkSyncState.getAccount_insertAccount, Ledger.total_update, ha]
  have hbal := hc.balance token
  simp only [Ledger.balanceOf, Option.elim_some]
  omega

/-- What a step adds to the accounts. -/
def Event.net (token : TokenId) (e : Event) : Int :=
  (e.operations.map (·.net token)).sum + e.feesCollected token

/-- Every step moves the total by what it reports: a failed transaction and a
failed batch by nothing. -/
theorem totalBalance_step (hz : env.NoZeroSigner) (token : TokenId) {e : Event}
    (h : Step env s e s') : s'.totalBalance token = s.totalBalance token + e.net token := by
  cases h.effect hz with
  | executed run event =>
    have hsum := Run.sum (fun s => s.totalBalance token) (fun e => e.2.net token)
      (fun _ _ _ h => totalBalance_txStep hz h token) run
    have hnet : e.net token = (e.committed.map fun e => e.2.net token).sum := by
      unfold Event.net
      rcases event with ⟨tx, result, rfl⟩ | ⟨txs, results, rfl⟩ <;>
        simp [Event.operations, Event.feesCollected, Function.comp_def]
    rw [hnet]
    exact hsum
  | restored nothing event ledger =>
    have hnet : e.net token = 0 := by
      unfold Event.net
      rcases event with ⟨tx, result, rfl⟩ | ⟨txs, results, rfl⟩ | ⟨hash, rfl⟩ <;>
        simp [Event.operations, Event.feesCollected, nothing]
    rw [hnet, add_zero]
    exact ledger.total_eq token
  | priorityOp effect =>
    unfold ZkSyncState.totalBalance
    rw [Ledger.total_run effect.run, effect.delta]
    simp [Event.net, Event.operations, Event.feesCollected]
  | collectFee account credited =>
    rw [totalBalance_credited account credited]
    simp [Event.net, Event.operations, Event.feesCollected, Event.committed]

theorem sum_net (token : TokenId) (tr : List Event) :
    (tr.map (Event.net token)).sum =
      sumOver (OpSuccess.deposited token) tr - sumOver (OpSuccess.withdrawn token) tr -
        sumOver (OpSuccess.feeOf token) tr + feesCollected token tr := by
  have hops : ∀ rs : List OpSuccess, (rs.map (OpSuccess.net token)).sum =
      (rs.map fun r => (r.deposited token : Int)).sum -
        (rs.map fun r => (r.withdrawn token : Int)).sum -
        (rs.map fun r => (r.feeOf token : Int)).sum := by
    intro rs
    induction rs with
    | nil => rfl
    | cons r rs ih =>
      simp only [List.map_cons, List.sum_cons, ih, OpSuccess.net]
      omega
  unfold sumOver feesCollected
  induction tr with
  | nil => rfl
  | cons e tr ih =>
    simp only [List.map_cons, List.sum_cons, ih, List.flatMap_cons, List.map_append,
      List.sum_append, Event.net, hops]
    omega

/-- Conservation of funds. Over any run and for any token: the balances, and the
fees returned by operations and not yet passed to `collect_fee`, are what the
accounts held at first, with the deposits and without the withdrawals. -/
theorem funds_conserved (hz : env.NoZeroSigner) {tr : List Event} (hrun : Run (Step env) s tr s')
    (token : TokenId) :
    s'.totalBalance token +
        (sumOver (OpSuccess.feeOf token) tr - feesCollected token tr) =
      s.totalBalance token + sumOver (OpSuccess.deposited token) tr -
        sumOver (OpSuccess.withdrawn token) tr := by
  have hsum := Run.sum (fun s => s.totalBalance token) (Event.net token)
    (fun _ _ _ h => totalBalance_step hz token h) hrun
  rw [sum_net] at hsum
  omega

end Runs

/-- A transfer of three units to a new account, for a fee of one. -/
theorem funds_conserved_transferToNew :
    sampleStateAfter.totalBalance 0 +
        (sumOver (OpSuccess.feeOf 0) [.tx (.Transfer (sampleTransfer 2 0)) (.ok sampleSuccess)] -
          feesCollected 0 [.tx (.Transfer (sampleTransfer 2 0)) (.ok sampleSuccess)]) =
      sampleState.totalBalance 0 +
        sumOver (OpSuccess.deposited 0)
          [.tx (.Transfer (sampleTransfer 2 0)) (.ok sampleSuccess)] -
        sumOver (OpSuccess.withdrawn 0)
          [.tx (.Transfer (sampleTransfer 2 0)) (.ok sampleSuccess)] :=
  funds_conserved (noZeroSigner_signedBy (by decide)) (Run.single (.txOk sampleState_executeTx)) 0

end ZkSync
