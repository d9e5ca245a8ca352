import Mathlib.Algebra.BigOperators.Group.Finset.Piecewise
import Mathlib.Algebra.Order.BigOperators.Group.Finset
import Mathlib.Data.FinEnum
import ZkSync.Contract.Withdrawals

/-!
# What the contract owes in all

The sum of the balances of all owners (`Storage.owed`), and how a call moves it. As long
as the contract is active a call moves it by exactly what it credits and pays; a deposit
that is cancelled can only be lost to its owner, as the addition wraps, and so can the rest of
a credit of which a token has moved a part (`CallStep.owed`).
-/

namespace ZkSync.Contract

/-- What the list holds of a token. -/
def amountOf (tokenId : UInt16) (payments : List Payment) : Nat :=
  (payments.map fun p => if p.tokenId = tokenId then p.amount.toNat else 0).sum

/-- The balances of all owners. -/
@[irreducible] def Storage.owed (s : Storage) (tokenId : UInt16) : Nat :=
  ∑ owner : Address, s.balance owner tokenId

theorem amountOf_append (tokenId : UInt16) (payments payments' : List Payment) :
    amountOf tokenId (payments ++ payments') =
      amountOf tokenId payments + amountOf tokenId payments' := by
  simp [amountOf]

theorem amountOf_singleton (tokenId : UInt16) (payment : Payment) : amountOf tokenId [payment] =
    if payment.tokenId = tokenId then payment.amount.toNat else 0 :=
  Nat.add_zero _

/-- Every payment has one owner. -/
theorem sum_amountFor (tokenId : UInt16) (payments : List Payment) :
    ∑ owner, amountFor owner tokenId payments = amountOf tokenId payments := by
  induction payments with
  | nil => simp [amountFor, amountOf]
  | cons payment payments ih =>
    have hhead : ∑ owner : Address,
        (if payment.toAddress = owner ∧ payment.tokenId = tokenId then payment.amount.toNat else 0) =
          if payment.tokenId = tokenId then payment.amount.toNat else 0 := by
      by_cases htoken : payment.tokenId = tokenId <;> simp [htoken]
    simp only [amountFor_cons, Finset.sum_add_distrib, ih, hhead]
    rfl

section Calls

variable {ext : Externals} {s s' : Storage} {owner : Address} {tokenId : UInt16}

/-- What is taken from a balance. -/
theorem registerWithdrawal_balance {token : UInt16} {amount : BitVec 128} {toAddress : Address}
    (h : registerWithdrawal s token amount toAddress = .ok s') (owner : Address) (tokenId : UInt16) :
    s'.balance owner tokenId + amountFor owner tokenId [⟨toAddress, token, amount⟩] =
      s.balance owner tokenId := by
  obtain ⟨hle, rfl⟩ := registerWithdrawal_spec h
  have hle := BitVec.le_def.mp hle
  rw [amountFor_singleton, balance_setBalance]
  dsimp only
  by_cases heq : toAddress = owner ∧ token = tokenId
  · rw [if_pos heq, if_pos heq, BitVec.toNat_sub_of_le hle, Nat.sub_add_cancel hle, heq.1, heq.2]
    rfl
  · rw [if_neg heq, if_neg heq, Nat.add_zero]

/-- What an exit adds to the balance of the sender. -/
theorem exit_balance {msg : Msg} {accountId : UInt32} {token : UInt16} {amount : BitVec 128}
    {proof : List Nat} (h : exit ext msg s accountId token amount proof = .ok s') (owner : Address)
    (tokenId : UInt16) : s'.balance owner tokenId =
      s.balance owner tokenId + amountFor owner tokenId [⟨msg.sender, token, amount⟩] := by
  obtain ⟨balance, exited, hadd, rfl⟩ := exit_spec h
  have hadd := safeAdd128_eq_ok hadd
  show (s.setBalance (packAddressAndTokenId msg.sender token) _).balance owner tokenId = _
  rw [balance_setBalance, amountFor_singleton]
  dsimp only
  by_cases heq : msg.sender = owner ∧ token = tokenId
  · rw [if_pos heq, if_pos heq, hadd, heq.1, heq.2]
    rfl
  · rw [if_neg heq, if_neg heq, Nat.add_zero]

/-- What a verified block credits. -/
theorem verifyBlock_balance {governance : Governance} {msg : Msg} {blockNumber : UInt32}
    {proof : List Nat} {withdrawalsData : Bytes}
    (h : verifyBlock ext governance msg s blockNumber proof withdrawalsData = .ok s')
    (owner : Address) (tokenId : UInt16) : s'.balance owner tokenId = s.balance owner tokenId +
      amountFor owner tokenId ((withdrawalsIn withdrawalsData).map Withdrawal.credit) := by
  obtain ⟨-, -, -, -, hlength, p, hloop, rfl⟩ := verifyBlock_spec h
  have hdata : withdrawalsData.length = ONCHAIN_WITHDRAWAL_BYTES *
      (withdrawalsData.length / ONCHAIN_WITHDRAWAL_BYTES) :=
    (Nat.mul_div_cancel' (Nat.dvd_of_mod_eq_zero hlength)).symm
  have hrecords := processLoop_records hdata hloop (i := 0) rfl (Nat.zero_le _)
  rw [Nat.sub_zero, ← List.range_eq_range'] at hrecords
  exact (processAll_spec hrecords).1 owner tokenId

/-- What a call credits and pays is what it moves the balance of an owner by. Only the
additions of a call that cancels deposits wrap, and exodus mode is on there; and a token
may move less than the balance that `completeWithdrawals` has taken for it. -/
theorem CallStep.balance {e : Event} (hcall : CallStep ext s e s') (owner : Address)
    (tokenId : UInt16) :
    s'.balance owner tokenId + amountFor owner tokenId e.receipt.payments ≤
        s.balance owner tokenId + amountFor owner tokenId (credits s e.msg e.call) ∧
      (s.exodusMode = false → WholeTransfers s e.call →
        s'.balance owner tokenId + amountFor owner tokenId e.receipt.payments =
          s.balance owner tokenId + amountFor owner tokenId (credits s e.msg e.call)) := by
  -- a call that moves nothing, or only what the bound allows
  have moved {a b : Nat} {p : Prop} (h : a = b) : a ≤ b ∧ (s.exodusMode = false → p → a = b) :=
    ⟨Nat.le_of_eq h, fun _ _ => h⟩
  obtain ⟨governance, msg, call, receipt⟩ := e
  cases call with
  | register call =>
    obtain ⟨⟨s₁, event⟩, hregister, hcall⟩ := Outcome.bind_eq_ok.mp hcall
    cases hcall
    obtain ⟨balances, rfl, hbalances⟩ := (register_spec hregister).storage
    exact moved (congrArg (BitVec.toNat · + 0) (hbalances (packAddressAndTokenId owner tokenId)))
  | commitBlock blockNumber feeAccount newBlockInfo block =>
    obtain ⟨s₁, hcommit, hcall⟩ := Outcome.bind_eq_ok.mp hcall
    cases hcall
    obtain ⟨-, -, tr, w, stored, -, -, -, rfl⟩ := commitBlock_spec hcommit
    exact moved rfl
  | verifyBlock blockNumber proof withdrawalsData =>
    -- records are credited, which moves no token
    obtain ⟨s₁, hverify, hcall⟩ := Outcome.bind_eq_ok.mp hcall
    cases hcall
    exact moved (verifyBlock_balance hverify owner tokenId)
  | revertBlocks maxBlocksToRevert =>
    obtain ⟨s₁, hrevert, hcall⟩ := Outcome.bind_eq_ok.mp hcall
    cases hcall
    obtain ⟨-, -, n, r, -, -, rfl⟩ := revertBlocks_spec hrevert
    exact moved rfl
  | triggerExodusIfNeeded =>
    obtain ⟨rfl, rfl⟩ := callStep_triggerExodusIfNeeded hcall
    refine moved (congrArg (· + 0) ?_)
    rw [(triggerExodusIfNeeded_spec msg s).1]
    rfl
  | cancelOutstandingDepositsForExodusMode n =>
    obtain ⟨s₁, hcancel, hcall⟩ := Outcome.bind_eq_ok.mp hcall
    cases hcall
    obtain ⟨hexodus, toProcess, s₁, rfl, hloop, rfl⟩ :=
      cancelOutstandingDepositsForExodusMode_spec hcancel
    refine ⟨?_, fun hactive => absurd hexodus (by rw [hactive]; exact Bool.false_ne_true)⟩
    have hrefunds := foldlM_cancelRequest_balance (nodup_idsBetween _ _) hloop owner tokenId
    exact hrefunds.trans_le (Nat.mod_le _ _)
  | exit accountId tokenId₀ amount proof =>
    obtain ⟨s₁, hexit, hcall⟩ := Outcome.bind_eq_ok.mp hcall
    cases hcall
    exact moved (exit_balance hexit owner tokenId)
  | completeWithdrawals n sends =>
    obtain ⟨rfl, rfl⟩ := callStep_completeWithdrawals hcall
    obtain ⟨hle, hwhole⟩ := completeWithdrawals_balance s n sends owner tokenId
    exact ⟨hle, fun _ => hwhole⟩
  | withdrawETH amount success =>
    -- a call that does not send reverts
    obtain ⟨⟨s₁, payments⟩, hwithdraw, hcall⟩ := Outcome.bind_eq_ok.mp hcall
    cases hcall
    obtain ⟨hregister, hpaid⟩ := withdrawETH_spec hwithdraw
    refine moved ?_
    show _ + amountFor owner tokenId payments = _
    rw [hpaid]
    exact registerWithdrawal_balance hregister owner tokenId
  | withdrawERC20 token transfer =>
    -- the balance tells how much has left, which the guard bounds
    obtain ⟨⟨s₁, payments⟩, hwithdraw, hcall⟩ := Outcome.bind_eq_ok.mp hcall
    cases hcall
    obtain ⟨tokenId₀, amount, hregister, hpaid⟩ := withdrawERC20_spec hwithdraw
    refine moved ?_
    show _ + amountFor owner tokenId payments = _
    rw [hpaid]
    exact registerWithdrawal_balance hregister owner tokenId
  | setAuthPubkeyHash hash nonce =>
    obtain ⟨s₁, hset, hcall⟩ := Outcome.bind_eq_ok.mp hcall
    cases hcall
    obtain ⟨-, -, rfl⟩ := setAuthPubkeyHash_spec hset
    exact moved rfl

/-- What a call credits and pays is what it moves the sum of the balances by. -/
theorem CallStep.owed {e : Event} (hcall : CallStep ext s e s') (tokenId : UInt16) :
    s'.owed tokenId + amountOf tokenId e.receipt.payments ≤
        s.owed tokenId + amountOf tokenId (credits s e.msg e.call) ∧
      (s.exodusMode = false → WholeTransfers s e.call → s'.owed tokenId + amountOf tokenId e.receipt.payments =
        s.owed tokenId + amountOf tokenId (credits s e.msg e.call)) := by
  unfold Storage.owed
  rw [← sum_amountFor, ← sum_amountFor, ← Finset.sum_add_distrib, ← Finset.sum_add_distrib]
  constructor
  · exact Finset.sum_le_sum fun owner _ => (hcall.balance owner tokenId).1
  · intro hactive hwhole
    exact Finset.sum_congr rfl fun owner _ => (hcall.balance owner tokenId).2 hactive hwhole

end Calls

end ZkSync.Contract
