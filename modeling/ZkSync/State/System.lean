import Mathlib.Data.List.Zip
import ZkSync.State.Updates

/-!
# The state machine and its runs

What the server does with a `ZkSyncState`, as a transition system: it executes
transactions and batches, which succeed or fail, executes priority operations,
collects fees and asks for the root hash. A panic takes no step.

A batch is read once here. `BatchOutcome` has two cases: every transaction was
executed, or a first one failed and the updates of those before it were undone.
`Effect` says what each step means for the ledger, and `reachable_indexed` is
the one invariant the index keeps under all of them: it names no account that
lives at another address.
-/

namespace ZkSync

/-- A transaction that succeeded, with what it reported. -/
abbrev Executed := ZkSyncTx × OpSuccess

/-- One successful transaction. -/
def TxStep (env : Env) (s : ZkSyncState) (e : Executed) (s' : ZkSyncState) : Prop :=
  s.executeTx env e.1 = .ok (e.2, s')

/-- All updates of a list of executed transactions, in order. -/
def updatesOf (es : List Executed) : AccountUpdates := es.flatMap (·.2.updates)

/-- The text a failed batch reports for each of its transactions. -/
def batchErrorMsg (id : Nat) (error : String) : String :=
  "Batch execution failed, since tx #" ++ toString (id + 1) ++
    " of batch failed with a reason: " ++ error

/-! ## Batches -/

section Batch

variable {env : Env} {s s' : ZkSyncState}

/-- The two ways a batch ends. -/
inductive BatchOutcome (env : Env) (s : ZkSyncState) (txs : List SignedZkSyncTx) :
    BatchResults → ZkSyncState → Prop
  | done {es : List Executed} {s' : ZkSyncState} (batch : txs.map (·.tx) = es.map (·.1))
      (run : Run (TxStep env) s es s') :
      BatchOutcome env s txs (es.map fun e => .ok e.2) s'
  | undone {es : List Executed} {failing : ZkSyncTx} {rest : List ZkSyncTx} {error : String}
      {s₁ s' : ZkSyncState} (batch : txs.map (·.tx) = es.map (·.1) ++ failing :: rest)
      (run : Run (TxStep env) s es s₁)
      (fails : s₁.executeTx env failing = .error (.error error))
      (undo : s₁.applyAccountUpdates (reverseUpdates (updatesOf es)) = .ok s') :
      BatchOutcome env s txs (List.replicate txs.length (.error (batchErrorMsg es.length error))) s'

/-- Undoing success by success is undoing all their updates. -/
theorem undo_eq (es : List Executed) :
    s.undo (es.map (·.2)).reverse = s.applyAccountUpdates (reverseUpdates (updatesOf es)) := by
  induction es using List.reverseRecOn generalizing s with
  | nil => rfl
  | append_singleton es e ih =>
    have hsplit : reverseUpdates (updatesOf (es ++ [e])) =
        reverseUpdates e.2.updates ++ reverseUpdates (updatesOf es) := by
      unfold updatesOf
      rw [List.flatMap_append, reverseUpdates_append, List.flatMap_singleton]
    rw [hsplit, ZkSyncState.applyAccountUpdates_append, List.map_append, List.reverse_append]
    show (s.applyAccountUpdates (reverseUpdates e.2.updates) >>= fun s =>
      s.undo (es.map (·.2)).reverse) = _
    congr 1
    funext s₁
    exact ih

/-- The loop of a batch, read backwards. -/
theorem executeTxsBatchFrom_eq_ok {count : Nat} {txs : List SignedZkSyncTx} {id : Nat}
    {successes : List OpSuccess} {results : BatchResults}
    (h : ZkSyncState.executeTxsBatchFrom env count id successes s txs = .ok (results, s')) :
    (∃ es : List Executed, txs.map (·.tx) = es.map (·.1) ∧ Run (TxStep env) s es s' ∧
      results = (successes ++ es.map (·.2)).map .ok) ∨
    (∃ (es : List Executed) (failing : ZkSyncTx) (rest : List ZkSyncTx) (error : String)
      (s₁ : ZkSyncState), txs.map (·.tx) = es.map (·.1) ++ failing :: rest ∧
      Run (TxStep env) s es s₁ ∧ s₁.executeTx env failing = .error (.error error) ∧
      s₁.undo (successes ++ es.map (·.2)).reverse = .ok s' ∧
      results = List.replicate count (.error (batchErrorMsg (id + es.length) error))) := by
  -- induction on the transactions, with the successes so far
  induction txs generalizing id successes s with
  | nil =>
    cases h
    exact Or.inl ⟨[], rfl, .nil _, by rw [List.map_nil, List.append_nil]⟩
  | cons tx txs ih =>
    unfold ZkSyncState.executeTxsBatchFrom at h
    cases hexec : s.executeTx env tx.tx with
    | ok p =>
      obtain ⟨r, s₁⟩ := p
      rw [hexec] at h
      rcases ih h with ⟨es, htxs, hrun, hres⟩ |
        ⟨es, failing, rest, error, s₂, htxs, hrun, hfail, hundo, hres⟩
      · refine Or.inl ⟨(tx.tx, r) :: es, ?_, .cons hexec hrun, ?_⟩
        · rw [List.map_cons, List.map_cons, htxs]
        · rw [hres, List.append_assoc]
          rfl
      · refine Or.inr ⟨(tx.tx, r) :: es, failing, rest, error, s₂, ?_, .cons hexec hrun, hfail,
          ?_, ?_⟩
        · rw [List.map_cons, List.map_cons, htxs]
          rfl
        · rw [List.append_assoc] at hundo
          exact hundo
        · rw [hres, List.length_cons, Nat.add_right_comm]
          rfl
    | error e =>
      rw [hexec] at h
      cases e with
      | panic message => cases h
      | error error =>
        dsimp only at h
        rw [Outcome.bind_eq_ok] at h
        obtain ⟨s₁, hundo, h⟩ := h
        cases h
        exact Or.inr ⟨[], tx.tx, txs.map (·.tx), error, s, rfl, .nil s, hexec,
          by rw [List.map_nil, List.append_nil]; exact hundo, rfl⟩

theorem executeTxsBatch_outcome {txs : List SignedZkSyncTx} {results : BatchResults}
    (h : s.executeTxsBatch env txs = .ok (results, s')) : BatchOutcome env s txs results s' := by
  rcases executeTxsBatchFrom_eq_ok h with ⟨es, htxs, hrun, hres⟩ |
    ⟨es, failing, rest, error, s₁, htxs, hrun, hfail, hundo, hres⟩
  · rw [List.nil_append, List.map_map] at hres
    rw [hres]
    exact .done htxs hrun
  · rw [List.nil_append, undo_eq] at hundo
    rw [hres, Nat.zero_add]
    exact .undone htxs hrun hfail hundo

end Batch

/-! ## Steps -/

/-- What the server asked for, and what it got. -/
inductive Event where
  | tx (tx : ZkSyncTx) (result : Except String OpSuccess)
  | batch (txs : List SignedZkSyncTx) (results : BatchResults)
  | priorityOp (op : ZkSyncPriorityOp) (success : OpSuccess)
  | collectFee (fees : List CollectedFee) (feeAccount : AccountId) (updates : AccountUpdates)
  | rootHash (hash : Fr)

/-- One call of the server. -/
inductive Step (env : Env) : ZkSyncState → Event → ZkSyncState → Prop
  | txOk {s s' : ZkSyncState} {tx : ZkSyncTx} {r : OpSuccess}
      (h : s.executeTx env tx = .ok (r, s')) : Step env s (.tx tx (.ok r)) s'
  | txFailed {s : ZkSyncState} {tx : ZkSyncTx} {error : String}
      (h : s.executeTx env tx = .error (.error error)) : Step env s (.tx tx (.error error)) s
  | batch {s s' : ZkSyncState} {txs : List SignedZkSyncTx} {results : BatchResults}
      (h : s.executeTxsBatch env txs = .ok (results, s')) : Step env s (.batch txs results) s'
  | priorityOp {s s' : ZkSyncState} {op : ZkSyncPriorityOp} {r : OpSuccess}
      (h : s.executePriorityOp op = .ok (r, s')) : Step env s (.priorityOp op r) s'
  | collectFee {s s' : ZkSyncState} {fees : List CollectedFee} {feeAccount : AccountId}
      {us : AccountUpdates} (h : s.collectFee fees feeAccount = .ok (us, s')) :
      Step env s (.collectFee fees feeAccount us) s'
  | rootHash {s s' : ZkSyncState} {hash : Fr} (h : s.rootHash env.hasher = .ok (hash, s')) :
      Step env s (.rootHash hash) s'

/-- The transactions of a batch that succeeded, with their results. -/
def succeeded (txs : List SignedZkSyncTx) (results : BatchResults) : List Executed :=
  (txs.zip results).filterMap fun p => p.2.toOption.map fun r => (p.1.tx, r)

/-- The transactions a step executed for good. -/
def Event.committed : Event → List Executed
  | .tx request (.ok r) => [(request, r)]
  | .batch txs results => succeeded txs results
  | _ => []

theorem succeeded_ok {txs : List SignedZkSyncTx} {es : List Executed}
    (h : txs.map (·.tx) = es.map (·.1)) : succeeded txs (es.map fun e => .ok e.2) = es := by
  induction es generalizing txs with
  | nil =>
    rw [List.map_eq_nil_iff.mp h]
    rfl
  | cons e es ih =>
    obtain ⟨tx, txs', rfl, htx, htxs'⟩ := List.map_eq_cons_iff.mp h
    unfold succeeded at ih ⊢
    rw [List.map_cons, List.zip_cons_cons, List.filterMap_cons, ih htxs', htx]
    rfl

theorem succeeded_error (txs : List SignedZkSyncTx) (n : Nat) (error : String) :
    succeeded txs (List.replicate n (.error error)) = [] := by
  unfold succeeded
  rw [List.filterMap_eq_nil_iff]
  intro p hp
  have hmem := List.eq_of_mem_replicate (List.of_mem_zip hp).2
  rw [hmem]
  rfl

/-! ## What a step means for the ledger -/

/-- What a step does to the accounts. -/
inductive Effect (env : Env) (s : ZkSyncState) : Event → ZkSyncState → Prop
  | executed {e : Event} {s' : ZkSyncState} (run : Run (TxStep env) s e.committed s')
      (event : (∃ tx result, e = .tx tx result) ∨ ∃ txs results, e = .batch txs results) :
      Effect env s e s'
  | restored {e : Event} {s' : ZkSyncState} (nothing : e.committed = [])
      (event : (∃ tx result, e = .tx tx result) ∨ (∃ txs results, e = .batch txs results) ∨
        ∃ hash, e = .rootHash hash)
      (ledger : Ledger.Restores s'.getAccount s.getAccount) : Effect env s e s'
  | priorityOp {op : ZkSyncPriorityOp} {r : OpSuccess} {s' : ZkSyncState}
      (effect : PriorityEffect s op r s') : Effect env s (.priorityOp op r) s'
  | collectFee {fees : List CollectedFee} {feeAccount : AccountId} {us : AccountUpdates}
      {a a' : Account} (account : s.getAccount feeAccount = some a) (credited : Credited a fees a') :
      Effect env s (.collectFee fees feeAccount us) (s.insertAccount feeAccount a')

section Effects

variable {env : Env} {s s' : ZkSyncState}

/-- The updates of a run of transactions are one run of the ledger. -/
theorem ledgerRun_of_run (hz : env.NoZeroSigner) {es : List Executed}
    (h : Run (TxStep env) s es s') :
    Run Ledger.Step s.getAccount (updatesOf es) s'.getAccount := by
  induction h with
  | nil s => exact .nil _
  | cons hstep _ ih =>
    unfold updatesOf
    rw [List.flatMap_cons]
    exact ((executeTx_effect hstep).run hz).append ih

/-- Undoing the updates of a run restores the ledger. -/
theorem undo_restores (hz : env.NoZeroSigner) {es : List Executed} {s₁ : ZkSyncState}
    (hrun : Run (TxStep env) s es s₁)
    (hundo : s₁.applyAccountUpdates (reverseUpdates (updatesOf es)) = .ok s') :
    Ledger.Restores s'.getAccount s.getAccount := by
  obtain ⟨s'', hundo', hr⟩ := Ledger.run_undo ZkSyncState.interprets_state
    (ledgerRun_of_run hz hrun) s₁ (Ledger.restores_refl _)
  rw [ZkSyncState.applyAccountUpdates_eq_ok.mpr hundo'] at hundo
  obtain rfl := Except.ok.inj hundo
  exact hr

theorem getAccount_of_rootHash {H : Hasher Fr} {hash : Fr} (h : s.rootHash H = .ok (hash, s')) :
    s'.getAccount = s.getAccount := by
  unfold ZkSyncState.rootHash at h
  rw [Outcome.bind_eq_ok] at h
  obtain ⟨⟨hash', t⟩, ht, h⟩ := h
  cases h
  unfold AccountTree.rootHash at ht
  split at ht
  next hash'' tree hroot =>
    cases ht
    funext id
    show tree.get id.toNat = _
    rw [SparseMerkleTree.rootHash_frame hroot]
    rfl
  next => cases ht

theorem Step.effect (hz : env.NoZeroSigner) {e : Event} (h : Step env s e s') :
    Effect env s e s' := by
  cases h with
  | txOk h => exact .executed (Run.single h) (Or.inl ⟨_, _, rfl⟩)
  | txFailed h => exact .restored rfl (Or.inl ⟨_, _, rfl⟩) (Ledger.restores_refl _)
  | @batch s' txs results h =>
    cases executeTxsBatch_outcome h with
    | done batch run =>
      refine .executed ?_ (Or.inr ⟨_, _, rfl⟩)
      rw [Event.committed, succeeded_ok batch]
      exact run
    | undone _ run _ undo =>
      exact .restored (succeeded_error _ _ _) (Or.inr (Or.inl ⟨_, _, rfl⟩))
        (undo_restores hz run undo)
  | priorityOp h => exact .priorityOp (executePriorityOp_effect h)
  | collectFee h =>
    obtain ⟨a, a', ha, hc, rfl, -, -⟩ := collectFee_effect h
    exact .collectFee ha hc
  | rootHash h =>
    refine .restored rfl (Or.inr (Or.inr ⟨_, rfl⟩)) ?_
    rw [getAccount_of_rootHash h]
    exact Ledger.restores_refl _

end Effects

/-! ## A small state

Two accounts, written out for runs that can be computed. -/

/-- Every transaction is signed by the key of `signer`. Nothing is hashed here. -/
def Env.signedBy (signer : PubKeyHash) : Env where
  hasher := ⟨fun _ => 0, fun _ => 0, fun _ _ _ => 0⟩
  overflowChecks := true
  verifySignature := fun _ => some signer
  verifyEthSignature := fun tx => some tx.account

theorem noZeroSigner_signedBy {signer : PubKeyHash} (h : signer ≠ 0) :
    (Env.signedBy signer).NoZeroSigner := fun _ he => h (Option.some.inj he)

/-- An unlocked account with ten units of the first token. -/
def sampleAccount : Account :=
  { Account.defaultWithAddress 1 with
    pubKeyHash := 1
    balances := Finmap.singleton 0 10 }

/-- The state with that account at id 0. -/
def sampleState : ZkSyncState :=
  ZkSyncState.fromAccMap (Env.signedBy 1).hasher (AList.singleton 0 sampleAccount) 0

/-- A transfer of three units to an address, for a fee of one. -/
def sampleTransfer (toAddress : Address) (nonce : Nonce) : Transfer where
  accountId := 0
  fromAddress := 1
  toAddress := toAddress
  token := 0
  amount := 3
  fee := 1
  nonce := nonce
  signature := ⟨0, 0⟩

/-- What the first transfer to address 2 reports. -/
def sampleSuccess : OpSuccess where
  fee := some ⟨0, 1⟩
  updates := [(1, .Create 2 0), (0, .UpdateBalance 0 1 (0, 10, 6)),
    (1, .UpdateBalance 0 0 (0, 0, 3))]
  executedOp := .TransferToNew ⟨sampleTransfer 2 0, 0, 1⟩

/-- The state after it. -/
def sampleStateAfter : ZkSyncState :=
  (sampleState.insertAccount 0 (sampleAccount.debit 0 4)).insertAccount 1
    ((Account.defaultWithAddress 2).addBalance 0 3)

theorem sampleState_executeTx :
    sampleState.executeTx (Env.signedBy 1) (.Transfer (sampleTransfer 2 0)) =
      .ok (sampleSuccess, sampleStateAfter) := rfl

end ZkSync
