import ZkSync.State.System

/-!
# Emitted updates describe the operation

An operation edits accounts and reports updates. Here the report is compared
with the edit, forwards and backwards, through both functions that read updates
outside the handlers. `TxEffect.creatable` supplies what only the interpreter
of the state asks for: the account a list creates is one the index does not
know.
-/

namespace ZkSync

/-- One successful operation, with the updates it emits. -/
inductive OpStep (env : Env) (s : ZkSyncState) : AccountUpdates → ZkSyncState → Prop
  | tx {tx : ZkSyncTx} {r : OpSuccess} {s' : ZkSyncState}
      (h : s.executeTx env tx = .ok (r, s')) : OpStep env s r.updates s'
  | priorityOp {op : ZkSyncPriorityOp} {r : OpSuccess} {s' : ZkSyncState}
      (h : s.executePriorityOp op = .ok (r, s')) : OpStep env s r.updates s'
  | collectFee {fees : List CollectedFee} {feeAccount : AccountId} {us : AccountUpdates}
      {s' : ZkSyncState} (h : s.collectFee fees feeAccount = .ok (us, s')) : OpStep env s us s'

/-- Only the first update creates an account, at an address not in the index. -/
structure CreatesFirst (s : ZkSyncState) (us : AccountUpdates) : Prop where
  head : ∀ u ∈ us.head?, s.Creatable u.2
  tail : NoCreate us.tail

section Emitted

variable {env : Env} {s s' : ZkSyncState} {r : OpSuccess} {us : AccountUpdates}

theorem NoCreate.createsFirst (h : NoCreate us) : CreatesFirst s us where
  head := fun u hu address nonce he => absurd he (h u (List.mem_of_mem_head? hu) address nonce)
  tail := fun u hu => h u (List.mem_of_mem_tail hu)

theorem noCreate_nil : NoCreate [] := fun _ hu => absurd hu List.not_mem_nil

theorem noCreate_cons {u : AccountId × AccountUpdate}
    (h : ∀ address nonce, u.2 ≠ .Create address nonce) (hus : NoCreate us) :
    NoCreate (u :: us) := fun v hv => by
  rcases List.mem_cons.mp hv with rfl | hv
  · exact h
  · exact hus v hv

theorem noCreate_updateBalance {id : AccountId} {n n' : Nonce} {upd : TokenId × Nat × Nat}
    (hus : NoCreate us) : NoCreate ((id, .UpdateBalance n n' upd) :: us) :=
  noCreate_cons (fun _ _ h => by cases h) hus

theorem createsFirst_create {id : AccountId} {address : Address} {nonce : Nonce}
    (h : s.accountIdByAddress.lookup address = none) (hus : NoCreate us) :
    CreatesFirst s ((id, .Create address nonce) :: us) where
  head := fun u hu address' nonce' he => by
    obtain rfl := Option.some.inj hu
    cases he
    exact h
  tail := hus

theorem TxEffect.createsFirst {tx : ZkSyncTx} (h : TxEffect env s tx r s') :
    CreatesFirst s r.updates := by
  cases h with
  | transfer => exact (noCreate_updateBalance (noCreate_updateBalance noCreate_nil)).createsFirst
  | transferToSelf => exact (noCreate_updateBalance noCreate_nil).createsFirst
  | transferToNew _ _ target =>
    exact createsFirst_create target (noCreate_updateBalance (noCreate_updateBalance noCreate_nil))
  | withdraw => exact (noCreate_updateBalance noCreate_nil).createsFirst
  | changePubKey =>
    exact (noCreate_cons (fun _ _ h => by cases h)
      (noCreate_updateBalance noCreate_nil)).createsFirst
  | forcedExit => exact (noCreate_updateBalance (noCreate_updateBalance noCreate_nil)).createsFirst

theorem PriorityEffect.createsFirst {op : ZkSyncPriorityOp} (h : PriorityEffect s op r s') :
    CreatesFirst s r.updates := by
  cases h with
  | deposit => exact (noCreate_updateBalance noCreate_nil).createsFirst
  | depositToNew _ target =>
    exact createsFirst_create target (noCreate_updateBalance noCreate_nil)
  | fullExit => exact (noCreate_updateBalance noCreate_nil).createsFirst
  | fullExitRefused => exact noCreate_nil.createsFirst

/-- The updates of an operation are a run of the ledger. -/
theorem OpStep.run (hz : env.NoZeroSigner) (h : OpStep env s us s') :
    CreatesFirst s us ∧ Run Ledger.Step s.getAccount us s'.getAccount := by
  cases h with
  | tx h =>
    have heff := executeTx_effect h
    exact ⟨heff.createsFirst, heff.run hz⟩
  | priorityOp h =>
    have heff := executePriorityOp_effect h
    exact ⟨heff.createsFirst, heff.run⟩
  | collectFee h =>
    obtain ⟨a, a', -, -, -, hno, hrun⟩ := collectFee_effect h
    exact ⟨hno.createsFirst, hrun⟩

/-- Emitted updates describe the operation. Applied to the state before, by the
state itself or over its account map, they give exactly the accounts after;
reversed and applied to the state after, they give back the accounts before, up
to explicit zero balances and default leaves. No assertion fires. -/
theorem updates_describe (hz : env.NoZeroSigner) (h : OpStep env s us s') :
    (∃ s₁, s.applyAccountUpdates us = .ok s₁ ∧ s₁.getAccount = s'.getAccount) ∧
    (∀ accounts : AccountMap, (∀ id, accounts.lookup id = s.getAccount id) →
      ∀ id, (applyUpdates accounts us).lookup id = s'.getAccount id) ∧
    (∃ s₁, s'.applyAccountUpdates (reverseUpdates us) = .ok s₁ ∧
      Ledger.Restores s₁.getAccount s.getAccount) ∧
    (∀ accounts : AccountMap, (∀ id, accounts.lookup id = s'.getAccount id) →
      Ledger.Restores (fun id => (applyUpdates accounts (reverseUpdates us)).lookup id)
        s.getAccount) := by
  obtain ⟨hfirst, hrun⟩ := h.run hz
  refine ⟨ZkSyncState.applyAccountUpdates_of_run hrun hfirst.head hfirst.tail, ?_, ?_, ?_⟩
  · intro accounts hacc id
    have hmap := congrFun (Ledger.lookup_applyUpdates accounts us) id
    rw [funext hacc, Ledger.apply_of_run hrun] at hmap
    exact hmap
  · obtain ⟨s₁, hundo, hr⟩ := Ledger.run_undo ZkSyncState.interprets_state hrun s'
      (Ledger.restores_refl _)
    exact ⟨s₁, ZkSyncState.applyAccountUpdates_eq_ok.mpr hundo, hr⟩
  · intro accounts hacc
    obtain ⟨m, hundo, hr⟩ := Ledger.run_undo Ledger.interprets_apply hrun s'.getAccount
      (Ledger.restores_refl _)
    rw [Ledger.lookup_applyUpdates, funext hacc, Ledger.apply_of_undo hundo]
    exact hr

end Emitted

/-- The updates of a transfer to a new account. -/
theorem updates_describe_transferToNew :
    (∃ s₁, sampleState.applyAccountUpdates sampleSuccess.updates = .ok s₁ ∧
      s₁.getAccount = sampleStateAfter.getAccount) ∧
    (∀ accounts : AccountMap, (∀ id, accounts.lookup id = sampleState.getAccount id) →
      ∀ id, (applyUpdates accounts sampleSuccess.updates).lookup id =
        sampleStateAfter.getAccount id) ∧
    (∃ s₁, sampleStateAfter.applyAccountUpdates (reverseUpdates sampleSuccess.updates) = .ok s₁ ∧
      Ledger.Restores s₁.getAccount sampleState.getAccount) ∧
    (∀ accounts : AccountMap, (∀ id, accounts.lookup id = sampleStateAfter.getAccount id) →
      Ledger.Restores
        (fun id => (applyUpdates accounts (reverseUpdates sampleSuccess.updates)).lookup id)
        sampleState.getAccount) :=
  updates_describe (noZeroSigner_signedBy (by decide : (1 : PubKeyHash) ≠ 0))
    (.tx sampleState_executeTx)

end ZkSync
