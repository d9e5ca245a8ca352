import ZkSync.State.Ledger

/-!
# Operations as runs of the ledger

Three interpreters read an account update: the handler that edited the account
and reported the update, `applyAccountUpdate` of the state, and
`Account::apply_update` of the account map. The ledger is where they meet:

* the updates of a successful operation are a run of the ledger from the state
  before to the state after (`TxEffect.run`, `PriorityEffect.run`,
  `collectFee_effect`);
* `applyAccountUpdate` follows a run (`applyAccountUpdates_of_run`) and
  interprets reversed updates (`interprets_state`), so `run_undo` applies to it.

A forced exit by an account on itself would report two updates of one account
that do not follow each other. It takes a signature that verifies to the hash
of a locked account; `NoZeroSigner` says there is none.
-/

namespace ZkSync

/-- No signature verifies to the hash of a locked account. -/
def Env.NoZeroSigner (env : Env) : Prop := ∀ tx, env.verifySignature tx ≠ some 0

namespace Ledger

/-! ## Single updates -/

theorem step_setBalance {m : Ledger} {id : AccountId} {a : Account} (h : m id = some a)
    (newNonce : Nonce) (token : TokenId) (balance : Nat) :
    Step m (id, .UpdateBalance a.nonce newNonce (token, a.getBalance token, balance))
      (Function.update m id (some { a.setBalance token balance with nonce := newNonce })) :=
  ⟨⟨a, h, rfl, rfl⟩, by dsimp only; rw [h]; rfl⟩

theorem step_debit {m : Ledger} {id : AccountId} {a : Account} (h : m id = some a)
    (token : TokenId) (amount : Nat) :
    Step m (id, debitUpdate a token amount)
      (Function.update m id (some (a.debit token amount))) :=
  step_setBalance h _ _ _

theorem step_credit {m : Ledger} {id : AccountId} {a : Account} (h : m id = some a)
    (token : TokenId) (amount : Nat) :
    Step m (id, creditUpdate a token amount)
      (Function.update m id (some (a.addBalance token amount))) :=
  step_setBalance h _ _ _

theorem step_changePubKeyHash {m : Ledger} {id : AccountId} {a : Account} (h : m id = some a)
    (newPubKeyHash : PubKeyHash) (newNonce : Nonce) :
    Step m (id, .ChangePubKeyHash a.pubKeyHash newPubKeyHash a.nonce newNonce)
      (Function.update m id (some { a with pubKeyHash := newPubKeyHash, nonce := newNonce })) :=
  ⟨⟨a, h, rfl, rfl⟩, by dsimp only; rw [h]; rfl⟩

theorem step_create {m : Ledger} {id : AccountId} (h : m id = none) (address : Address) :
    Step m (id, .Create address 0)
      (Function.update m id (some (Account.defaultWithAddress address))) :=
  ⟨h, by dsimp only; rw [h]; rfl⟩

end Ledger

open Ledger

/-! ## Operations -/

section Runs

variable {env : Env} {s s' : ZkSyncState} {r : OpSuccess}

/-- The updates a transaction reports lead from the ledger before it to the
ledger after it. -/
theorem TxEffect.run {tx : ZkSyncTx} (hz : env.NoZeroSigner) (h : TxEffect env s tx r s') :
    Run Step s.getAccount r.updates s'.getAccount := by
  cases h with
  | @transfer tx j a b sender _ _ targetAccount _ ne =>
    -- two updates, of which the second one finds the first account written
    rw [ZkSyncState.getAccount_insertAccount, ZkSyncState.getAccount_insertAccount]
    refine .cons (step_debit sender.account _ _) (Run.single (step_credit ?_ _ _))
    rw [Function.update_of_ne ne.symm, targetAccount]
  | transferToSelf sender =>
    rw [ZkSyncState.getAccount_insertAccount]
    exact Run.single (step_debit sender.account _ _)
  | @transferToNew tx a sender _ _ free _ =>
    -- the account is created before it is credited
    have ne : tx.accountId ≠ s.getFreeAccountId := by
      intro h
      rw [← h, sender.account] at free
      cases free
    rw [ZkSyncState.getAccount_insertAccount, ZkSyncState.getAccount_insertAccount]
    refine .cons (step_create free _) (.cons (step_debit (a := a) ?_ _ _) ?_)
    · rw [Function.update_of_ne ne, sender.account]
    · -- the handler writes the new account once, after the sender
      rw [Function.update_comm ne.symm]
      have hstep := step_credit (m := Function.update (Function.update s.getAccount tx.accountId
          (some (a.debit tx.token (tx.amount + tx.fee)))) s.getFreeAccountId
          (some (Account.defaultWithAddress tx.toAddress)))
        (Function.update_self _ _ _) tx.token tx.amount
      rw [Function.update_idem] at hstep
      exact Run.single hstep
  | withdraw sender =>
    rw [ZkSyncState.getAccount_insertAccount]
    exact Run.single (step_debit sender.account _ _)
  | @changePubKey tx a _ account =>
    rw [ZkSyncState.getAccount_insertAccount]
    refine .cons (step_changePubKeyHash account _ _) ?_
    have hstep := step_setBalance (m := Function.update s.getAccount tx.accountId
        (some { a with pubKeyHash := tx.newPkHash, nonce := a.nonce + 1 }))
      (Function.update_self _ _ _) (a.nonce + 1) tx.feeToken (a.getBalance tx.feeToken - tx.fee)
    rw [Function.update_idem] at hstep
    exact Run.single hstep
  | @forcedExit tx j a b _ account signed _ _ targetAccount locked =>
    -- the fee of the initiator, and the whole balance of the target
    have ne : tx.initiatorAccountId ≠ j := by
      intro h
      rw [← h, account] at targetAccount
      obtain rfl := Option.some.inj targetAccount
      exact hz _ (locked ▸ signed)
    rw [ZkSyncState.getAccount_insertAccount, ZkSyncState.getAccount_insertAccount]
    refine .cons (step_debit account _ _) (Run.single (step_setBalance ?_ _ _ _))
    rw [Function.update_of_ne ne.symm, targetAccount]

/-- The same for priority operations. -/
theorem PriorityEffect.run {op : ZkSyncPriorityOp} (h : PriorityEffect s op r s') :
    Run Step s.getAccount r.updates s'.getAccount := by
  cases h with
  | deposit _ _ account =>
    rw [ZkSyncState.getAccount_insertAccount]
    exact Run.single (step_credit account _ _)
  | @depositToNew op _ _ free =>
    rw [ZkSyncState.getAccount_insertAccount]
    refine .cons (step_create free _) ?_
    have hstep := step_credit (m := Function.update s.getAccount s.getFreeAccountId
        (some (Account.defaultWithAddress op.toAddress)))
      (Function.update_self _ _ _) op.token op.amount
    rw [Function.update_idem] at hstep
    exact Run.single hstep
  | fullExit _ account _ =>
    rw [ZkSyncState.getAccount_insertAccount]
    exact Run.single (step_setBalance account _ _ _)
  | fullExitRefused _ _ => exact .nil _

/-! ## Fees -/

/-- Updates that create no account. -/
def NoCreate (us : AccountUpdates) : Prop :=
  ∀ u ∈ us, ∀ address nonce, u.2 ≠ .Create address nonce

/-- What a fee adds to the balance of a token. -/
def CollectedFee.of (token : TokenId) (fee : CollectedFee) : Nat :=
  if fee.token = token then fee.amount else 0

/-- `a'` is `a` with the fees added to its balances. -/
structure Credited (a : Account) (fees : List CollectedFee) (a' : Account) : Prop where
  pubKeyHash : a'.pubKeyHash = a.pubKeyHash
  address : a'.address = a.address
  nonce : a'.nonce = a.nonce
  balance : ∀ token, a'.getBalance token =
    a.getBalance token + (fees.map (CollectedFee.of token)).sum

theorem collectFeeLoop_spec (id : AccountId) (fees : List CollectedFee) (a : Account)
    (us : AccountUpdates) :
    ∃ a' vs, ZkSyncState.collectFeeLoop id fees a us = (a', us ++ vs) ∧ Credited a fees a' ∧
      NoCreate vs ∧ ∀ m : Ledger, m id = some a → Run Step m vs (Function.update m id (some a')) := by
  -- induction on the fees, with the account as it is so far
  induction fees generalizing a us with
  | nil =>
    refine ⟨a, [], by rw [List.append_nil]; rfl, ⟨rfl, rfl, rfl, fun _ => rfl⟩,
      fun _ hu => absurd hu List.not_mem_nil, fun m hm => ?_⟩
    rw [← hm, Function.update_eq_self]
    exact .nil m
  | cons fee fees ih =>
    unfold ZkSyncState.collectFeeLoop
    by_cases h0 : fee.amount = 0
    · rw [if_pos h0]
      obtain ⟨a', vs, heq, hc, hno, hrun⟩ := ih a us
      refine ⟨a', vs, heq, ⟨hc.pubKeyHash, hc.address, hc.nonce, fun token => ?_⟩, hno, hrun⟩
      have hfee : fee.of token = 0 := by
        unfold CollectedFee.of
        rw [h0, ite_self]
      rw [hc.balance, List.map_cons, List.sum_cons, hfee, Nat.zero_add]
    · rw [if_neg h0]
      obtain ⟨a', vs, heq, hc, hno, hrun⟩ := ih (a.addBalance fee.token fee.amount)
        (us ++ [(id, creditUpdate a fee.token fee.amount)])
      refine ⟨a', (id, creditUpdate a fee.token fee.amount) :: vs, ?_,
        ⟨hc.pubKeyHash, hc.address, hc.nonce, fun token => ?_⟩, ?_, fun m hm => ?_⟩
      · rw [List.append_cons, ← heq]
        dsimp only
        rw [creditUpdate_eq]
      · rw [hc.balance, List.map_cons, List.sum_cons]
        unfold CollectedFee.of Account.addBalance
        rw [Account.getBalance_setBalance]
        by_cases ht : token = fee.token
        · rw [if_pos ht, if_pos ht.symm, ht]
          omega
        · rw [if_neg ht, if_neg (fun h => ht h.symm)]
          omega
      · intro u hu address nonce he
        rcases List.mem_cons.mp hu with rfl | hu
        · cases he
        · exact hno u hu address nonce he
      · have hrest := hrun (Function.update m id (some (a.addBalance fee.token fee.amount)))
          (Function.update_self _ _ _)
        rw [Function.update_idem] at hrest
        exact .cons (step_credit hm _ _) hrest

/-- Collecting fees credits the fee account, and nothing else. -/
theorem collectFee_effect {fees : List CollectedFee} {feeAccount : AccountId}
    {us : AccountUpdates} (h : s.collectFee fees feeAccount = .ok (us, s')) :
    ∃ a a', s.getAccount feeAccount = some a ∧ Credited a fees a' ∧
      s' = s.insertAccount feeAccount a' ∧ NoCreate us ∧
      Run Step s.getAccount us s'.getAccount := by
  unfold ZkSyncState.collectFee at h
  simp only [Outcome.bind_eq_ok, Outcome.expect_eq_ok] at h
  obtain ⟨a, ha, h⟩ := h
  obtain ⟨a', vs, heq, hc, hno, hrun⟩ := collectFeeLoop_spec feeAccount fees a []
  rw [heq] at h
  cases h
  refine ⟨a, a', ha, hc, rfl, hno, ?_⟩
  rw [ZkSyncState.getAccount_insertAccount, List.nil_append]
  exact hrun _ ha

end Runs

/-! ## The interpreter of the state -/

namespace ZkSyncState

variable {s s' : ZkSyncState}

/-- An update that asserts what holds does not panic. -/
theorem interprets_state :
    Interprets (fun (s : ZkSyncState) u s' => s.applyAccountUpdate u.1 u.2 = .ok s')
      getAccount := by
  intro s id update a ha hasserts
  cases update with
  | Create address nonce => exact hasserts.elim
  | Delete address nonce =>
    obtain ⟨h1, h2⟩ := hasserts
    refine ⟨s.removeAccount id, some Account.default, ?_, Or.inr ⟨rfl, rfl⟩, ?_⟩
    · simp [applyAccountUpdate, ha, h1, h2, Outcome.expect, Outcome.assert]
    · unfold removeAccount
      rw [ha]
      exact s.balanceTree.get_insert id _
  | UpdateBalance oldNonce newNonce upd =>
    obtain ⟨token, oldBalance, newBalance⟩ := upd
    obtain ⟨h1, h2⟩ := hasserts
    refine ⟨_, _, ?_, Or.inl rfl, s.getAccount_insertAccount id _⟩
    simp [applyAccountUpdate, ha, h1, h2, Outcome.expect, Outcome.assert]
  | ChangePubKeyHash oldPubKeyHash newPubKeyHash oldNonce newNonce =>
    obtain ⟨h1, h2⟩ := hasserts
    refine ⟨_, _, ?_, Or.inl rfl, s.getAccount_insertAccount id _⟩
    simp [applyAccountUpdate, ha, h1, h2, Outcome.expect, Outcome.assert]

theorem applyAccountUpdates_eq_ok {us : AccountUpdates} :
    s.applyAccountUpdates us = .ok s' ↔
      Run (fun (s : ZkSyncState) u s' => s.applyAccountUpdate u.1 u.2 = .ok s') s us s' := by
  induction us generalizing s with
  | nil =>
    refine ⟨fun h => ?_, fun h => ?_⟩
    · cases h
      exact .nil _
    · cases h
      rfl
  | cons u us ih =>
    obtain ⟨id, update⟩ := u
    unfold applyAccountUpdates
    rw [Outcome.bind_eq_ok]
    refine ⟨fun ⟨s₁, h, hrest⟩ => .cons h (ih.mp hrest), fun h => ?_⟩
    cases h with
    | cons h hrest => exact ⟨_, h, ih.mpr hrest⟩

theorem applyAccountUpdates_append (us vs : AccountUpdates) :
    s.applyAccountUpdates (us ++ vs) =
      s.applyAccountUpdates us >>= fun s => s.applyAccountUpdates vs := by
  induction us generalizing s with
  | nil => rfl
  | cons u us ih =>
    rw [List.cons_append, applyAccountUpdates, applyAccountUpdates, bind_assoc]
    congr 1
    funext s₁
    exact ih

/-- No address is created that the index already holds. -/
def Creatable (s : ZkSyncState) (update : AccountUpdate) : Prop :=
  ∀ address nonce, update = .Create address nonce → s.accountIdByAddress.lookup address = none

/-- A fitting update is applied as the ledger says. -/
theorem applyAccountUpdate_of_step {id : AccountId} {update : AccountUpdate} {m : Ledger}
    (h : Step s.getAccount (id, update) m) (hc : s.Creatable update) :
    ∃ s', s.applyAccountUpdate id update = .ok s' ∧ s'.getAccount = m := by
  obtain ⟨hfits, rfl⟩ := h
  dsimp only at hfits ⊢
  cases update with
  | Create address nonce =>
    have hnone : s.getAccount id = none := hfits
    have hidx : s.getAccountByAddress address = .ok none := by
      unfold getAccountByAddress
      rw [hc address nonce rfl]
    refine ⟨s.insertAccount id { Account.default with address := address, nonce := nonce }, ?_, ?_⟩
    · simp [applyAccountUpdate, hidx, Outcome.assert]
    · rw [getAccount_insertAccount, hnone]
      rfl
  | Delete address nonce => exact hfits.elim
  | UpdateBalance oldNonce newNonce upd =>
    obtain ⟨a, ha, hasserts⟩ := hfits
    obtain ⟨s', o, hs', ho, hview⟩ := interprets_state s id _ a ha hasserts
    rcases ho with rfl | ⟨hn, -⟩
    · exact ⟨s', hs', by rw [ha]; exact hview⟩
    · cases hn
  | ChangePubKeyHash oldPubKeyHash newPubKeyHash oldNonce newNonce =>
    obtain ⟨a, ha, hasserts⟩ := hfits
    obtain ⟨s', o, hs', ho, hview⟩ := interprets_state s id _ a ha hasserts
    rcases ho with rfl | ⟨hn, -⟩
    · exact ⟨s', hs', by rw [ha]; exact hview⟩
    · cases hn

/-- A run is applied as the ledger says, when only its first update may create
an account. -/
theorem applyAccountUpdates_of_run {us : AccountUpdates} {m : Ledger}
    (h : Run Step s.getAccount us m) (hhead : ∀ u ∈ us.head?, s.Creatable u.2)
    (htail : NoCreate us.tail) :
    ∃ s', s.applyAccountUpdates us = .ok s' ∧ s'.getAccount = m := by
  induction us generalizing s with
  | nil =>
    cases h
    exact ⟨s, rfl, rfl⟩
  | cons u us ih =>
    obtain ⟨id, update⟩ := u
    cases h with
    | cons hstep hrest =>
      obtain ⟨s₁, hs₁, hview⟩ := applyAccountUpdate_of_step hstep (hhead _ rfl)
      rw [← hview] at hrest
      obtain ⟨s', hs', hm⟩ := ih hrest
        (fun v hv address nonce he => absurd he (htail v (List.mem_of_mem_head? hv) address nonce))
        (fun v hv => htail v (List.mem_of_mem_tail hv))
      refine ⟨s', ?_, hm⟩
      unfold applyAccountUpdates
      rw [hs₁]
      exact hs'

end ZkSyncState

end ZkSync
