import ZkSync.Core.Hashable

/-!
# The gas of the block under construction

The gas counter is charged before an operation is executed, for the operation
that the request is *converted* to. A single operation is executed as it was
converted. The transactions of a batch are all converted on the state before
the batch, where a transaction may cost more than in the batch, and may not be
convertible at all: then it costs nothing, although it can still be executed,
after an earlier transaction of the batch unlocked its account (`gas_uncounted`).

`KeeperCall.Converts` excludes such batches. Without them the gas limits of
every sealed block cover its operations (`gas_covered`). That they stay within
the limit of a transaction holds in every run.
-/

namespace ZkSync

/-! ## Costs -/

/-- What the operation costs that the transaction would become; nothing if it
would not become one. -/
def ZkSyncState.gasOf (env : Env) (s : ZkSyncState) (opCost : ZkSyncOp → Outcome Nat)
    (tx : ZkSyncTx) : Nat :=
  match s.zksyncTxToZksyncOp env tx with
  | .ok op => (opCost op).toOption.getD 0
  | .error _ => 0

/-- The costs of a list of operations. -/
def totalCost (opCost : ZkSyncOp → Outcome Nat) : List ZkSyncOp → Outcome Nat
  | [] => .ok 0
  | op :: ops => do
    let cost ← opCost op
    let rest ← totalCost opCost ops
    return cost + rest

/-- One operation costs no more than the other, and neither is disabled. -/
structure ZkSyncOp.NoDearer (op op' : ZkSyncOp) : Prop where
  commit : ∃ c c', CommitCost.opCost op = .ok c ∧ CommitCost.opCost op' = .ok c' ∧ c ≤ c'
  verify : ∃ v v', VerifyCost.opCost op = .ok v ∧ VerifyCost.opCost op' = .ok v' ∧ v ≤ v'

section Costs

variable {env : Env} {s s₀ s' : ZkSyncState} {opCost : ZkSyncOp → Outcome Nat}

/-- The margin is larger for more gas. -/
theorem scaleUp_mono {a b : Nat} (h : a ≤ b) : GasCounter.scaleUp a ≤ GasCounter.scaleUp b :=
  Nat.div_le_div_right (Nat.mul_le_mul_right _ h)

/-- Costs that stay within the limits are added. -/
theorem addOp_of_room {g : GasCounter} {op : ZkSyncOp} {commit verify : Nat}
    (hcommit : CommitCost.opCost op = .ok commit) (hverify : VerifyCost.opCost op = .ok verify)
    (hc : GasCounter.scaleUp (g.commitCost + commit) ≤ TX_GAS_LIMIT)
    (hv : GasCounter.scaleUp (g.verifyCost + verify) ≤ TX_GAS_LIMIT) :
    g.addOp op = .ok (some ⟨g.commitCost + commit, g.verifyCost + verify⟩) := by
  unfold GasCounter.addOp
  simp only [hcommit, hverify, Outcome.ok_bind, Outcome.pure_eq, if_neg (Nat.not_lt_of_le hc),
    if_neg (Nat.not_lt_of_le hv)]

/-- An operation whose cost is known has both costs. -/
theorem opCosts_of_addOp {g : GasCounter} {op : ZkSyncOp} {r : Option GasCounter}
    (h : g.addOp op = .ok r) :
    ∃ commit verify, CommitCost.opCost op = .ok commit ∧ VerifyCost.opCost op = .ok verify := by
  cases op with
  | Close => cases h
  | _ => exact ⟨_, _, rfl, rfl⟩

/-- A signed key change is the most expensive operation to commit. -/
theorem commitCost_le {op : ZkSyncOp} {commit : Nat} (h : CommitCost.opCost op = .ok commit) :
    commit ≤ CommitCost.CHANGE_PUBKEY_COST_OFFCHAIN := by
  cases op with
  | ChangePubKeyOffchain op =>
    obtain rfl := Except.ok.inj h
    split <;> decide
  | Close => cases h
  | _ =>
    obtain rfl := Except.ok.inj h
    decide

/-- A withdrawal is the most expensive one to verify. -/
theorem verifyCost_le {op : ZkSyncOp} {verify : Nat} (h : VerifyCost.opCost op = .ok verify) :
    verify ≤ VerifyCost.WITHDRAW_COST := by
  cases op with
  | Close => cases h
  | _ =>
    obtain rfl := Except.ok.inj h
    decide

/-- The gas of a fresh block suffices for every single operation. -/
theorem addOp_new {op : ZkSyncOp} {r : Option GasCounter} (h : GasCounter.new.addOp op = .ok r) :
    r ≠ none := by
  obtain ⟨commit, verify, hc, hv⟩ := opCosts_of_addOp h
  have hcommit : GasCounter.scaleUp (GasCounter.new.commitCost + commit) ≤ TX_GAS_LIMIT :=
    Nat.le_trans (scaleUp_mono (Nat.add_le_add_left (commitCost_le hc) _)) (by decide)
  have hverify : GasCounter.scaleUp (GasCounter.new.verifyCost + verify) ≤ TX_GAS_LIMIT :=
    Nat.le_trans (scaleUp_mono (Nat.add_le_add_left (verifyCost_le hv) _)) (by decide)
  rw [addOp_of_room hc hv hcommit hverify] at h
  rw [← Except.ok.inj h]
  exact Option.some_ne_none _

/-- Costs add up. -/
theorem totalCost_append {ops ops' : List ZkSyncOp} {n n' : Nat}
    (h : totalCost opCost ops = .ok n) (h' : totalCost opCost ops' = .ok n') :
    totalCost opCost (ops ++ ops') = .ok (n + n') := by
  induction ops generalizing n with
  | nil =>
    obtain rfl := Except.ok.inj h
    rw [Nat.zero_add]
    exact h'
  | cons op ops ih =>
    unfold totalCost at h
    simp only [Outcome.bind_eq_ok] at h
    obtain ⟨cost, hcost, rest, hrest, h⟩ := h
    obtain rfl := Except.ok.inj h
    rw [List.cons_append]
    unfold totalCost
    rw [hcost, ih hrest, Nat.add_assoc]
    rfl

/-! ### Converted and executed -/

/-- A transaction is executed as no more than it was converted to before, in a state
whose index has grown since. -/
theorem TxEffect.noDearer {tx : ZkSyncTx} {r : OpSuccess} {op : ZkSyncOp}
    (h : TxEffect env s tx r s') (hgrows : IndexGrows s₀ s)
    (hconv : s₀.zksyncTxToZksyncOp env tx = .ok op) : r.executedOp.NoDearer op := by
  -- whether a transfer creates an account is decided by the index, which has only grown meanwhile
  have htransfer : ∀ {t : Transfer} {op : ZkSyncOp}, s₀.zksyncTxToZksyncOp env (.Transfer t) = .ok op →
      (∃ o, op = .Transfer o) ∧ (s₀.accountIdByAddress.lookup t.toAddress).isSome ∨
        ∃ o, op = .TransferToNew o := by
    intro t op h
    unfold ZkSyncState.zksyncTxToZksyncOp at h
    dsimp only at h
    rw [Outcome.bind_eq_ok] at h
    obtain ⟨o, ho, h⟩ := h
    obtain rfl := Except.ok.inj h
    obtain ⟨-, -, -, ⟨j, b, hj, -, rfl⟩ | ⟨-, rfl⟩⟩ := Transfer.createOp_eq_ok ho
    · exact Or.inl ⟨⟨_, rfl⟩, by rw [hj]; rfl⟩
    · exact Or.inr ⟨_, rfl⟩
  cases h with
  | transfer =>
    rcases htransfer hconv with ⟨⟨o, rfl⟩, -⟩ | ⟨o, rfl⟩
    · exact ⟨⟨_, _, rfl, rfl, Nat.le_refl _⟩, ⟨_, _, rfl, rfl, Nat.le_refl _⟩⟩
    · exact ⟨⟨_, _, rfl, rfl, by decide⟩, ⟨_, _, rfl, rfl, by decide⟩⟩
  | transferToSelf =>
    -- to itself an account costs the same
    rcases htransfer hconv with ⟨⟨o, rfl⟩, -⟩ | ⟨o, rfl⟩
    · exact ⟨⟨_, _, rfl, rfl, Nat.le_refl _⟩, ⟨_, _, rfl, rfl, Nat.le_refl _⟩⟩
    · exact ⟨⟨_, _, rfl, rfl, by decide⟩, ⟨_, _, rfl, rfl, by decide⟩⟩
  | transferToNew _ _ target =>
    rcases htransfer hconv with ⟨-, hsome⟩ | ⟨o, rfl⟩
    · have := hgrows _ hsome
      rw [target] at this
      cases this
    · exact ⟨⟨_, _, rfl, rfl, Nat.le_refl _⟩, ⟨_, _, rfl, rfl, Nat.le_refl _⟩⟩
  | withdraw =>
    unfold ZkSyncState.zksyncTxToZksyncOp at hconv
    dsimp only at hconv
    rw [Outcome.bind_eq_ok] at hconv
    obtain ⟨o, -, hconv⟩ := hconv
    obtain rfl := Except.ok.inj hconv
    exact ⟨⟨_, _, rfl, rfl, Nat.le_refl _⟩, ⟨_, _, rfl, rfl, Nat.le_refl _⟩⟩
  | @changePubKey tx =>
    unfold ZkSyncState.zksyncTxToZksyncOp at hconv
    dsimp only at hconv
    rw [Outcome.bind_eq_ok] at hconv
    obtain ⟨o, ho, hconv⟩ := hconv
    obtain rfl := Except.ok.inj hconv
    have htx : o.tx = tx := by
      unfold ChangePubKey.createOp at ho
      simp only [Outcome.bind_eq_ok] at ho
      obtain ⟨_, -, _, -, _, -, _, -, _, -, _, -, ho⟩ := ho
      rw [← Except.ok.inj ho]
    refine ⟨⟨_, _, rfl, rfl, ?_⟩, ⟨_, _, rfl, rfl, Nat.le_refl _⟩⟩
    rw [htx]
  | forcedExit =>
    unfold ZkSyncState.zksyncTxToZksyncOp at hconv
    dsimp only at hconv
    rw [Outcome.bind_eq_ok] at hconv
    obtain ⟨o, -, hconv⟩ := hconv
    obtain rfl := Except.ok.inj hconv
    exact ⟨⟨_, _, rfl, rfl, Nat.le_refl _⟩, ⟨_, _, rfl, rfl, Nat.le_refl _⟩⟩

/-- What is executed in a state is convertible in that state. -/
theorem converts_of_executed {tx : ZkSyncTx} {r : OpSuccess} (h : s.executeTx env tx = .ok (r, s')) :
    ∃ op, s.zksyncTxToZksyncOp env tx = .ok op := by
  cases tx with
  | Close tx => cases h
  | _ =>
    obtain ⟨op, hop, -⟩ := Outcome.bind_eq_ok.mp h
    exact ⟨_, by unfold ZkSyncState.zksyncTxToZksyncOp; dsimp only; rw [hop]; rfl⟩

/-- A priority operation is executed as it was converted. -/
theorem noDearer_priorityOp {op : ZkSyncPriorityOp} {r : OpSuccess} {converted : ZkSyncOp}
    (h : s.executePriorityOp op = .ok (r, s')) (hconv : s.priorityOpToZksyncOp op = .ok converted) :
    r.executedOp.NoDearer converted := by
  have hkind : ∀ {op : ZkSyncPriorityOp} {converted : ZkSyncOp},
      s.priorityOpToZksyncOp op = .ok converted →
      (∀ d, op = .Deposit d → ∃ o, converted = .Deposit o) ∧
        ∀ e, op = .FullExit e → ∃ o, converted = .FullExit o := by
    intro op converted h
    unfold ZkSyncState.priorityOpToZksyncOp at h
    cases op with
    | Deposit d =>
      dsimp only at h
      cases ho : Deposit.createOp s d with
      | ok o =>
        rw [ho] at h
        exact ⟨fun _ _ => ⟨o, (Except.ok.inj h).symm⟩, fun _ he => by cases he⟩
      | error f =>
        rw [ho] at h
        cases f <;> cases h
    | FullExit e =>
      dsimp only at h
      cases ho : FullExit.createOp s e with
      | ok o =>
        rw [ho] at h
        exact ⟨fun _ he => (by cases he), fun _ _ => ⟨o, (Except.ok.inj h).symm⟩⟩
      | error f =>
        rw [ho] at h
        cases f <;> cases h
  cases executePriorityOp_effect h with
  | deposit =>
    obtain ⟨o, rfl⟩ := (hkind hconv).1 _ rfl
    exact ⟨⟨_, _, rfl, rfl, Nat.le_refl _⟩, ⟨_, _, rfl, rfl, Nat.le_refl _⟩⟩
  | depositToNew =>
    obtain ⟨o, rfl⟩ := (hkind hconv).1 _ rfl
    exact ⟨⟨_, _, rfl, rfl, Nat.le_refl _⟩, ⟨_, _, rfl, rfl, Nat.le_refl _⟩⟩
  | fullExit =>
    obtain ⟨o, rfl⟩ := (hkind hconv).2 _ rfl
    exact ⟨⟨_, _, rfl, rfl, Nat.le_refl _⟩, ⟨_, _, rfl, rfl, Nat.le_refl _⟩⟩
  | fullExitRefused =>
    obtain ⟨o, rfl⟩ := (hkind hconv).2 _ rfl
    exact ⟨⟨_, _, rfl, rfl, Nat.le_refl _⟩, ⟨_, _, rfl, rfl, Nat.le_refl _⟩⟩

end Costs

/-! ## Counting -/

/-- Scaled up, the counters are within the limit of a transaction. -/
structure GasCounter.Within (g : GasCounter) : Prop where
  commit : GasCounter.scaleUp g.commitCost ≤ TX_GAS_LIMIT
  verify : GasCounter.scaleUp g.verifyCost ≤ TX_GAS_LIMIT

/-- The counters have grown by these costs at least, and stayed within the limit. -/
structure GasCounter.Charged (g : GasCounter) (commit verify : Nat) (g' : GasCounter) : Prop where
  commit : g.commitCost + commit ≤ g'.commitCost
  verify : g.verifyCost + verify ≤ g'.verifyCost
  within : g.Within → g'.Within

section Counting

variable {env : Env} {s : ZkSyncState} {g g' g'' : GasCounter} {p p' : PendingBlock}
  {maxWithdrawals : Nat} {tx : ZkSyncTx}

theorem GasCounter.Charged.refl (g : GasCounter) : g.Charged 0 0 g :=
  ⟨Nat.le_refl _, Nat.le_refl _, id⟩

/-- What is charged twice is charged together. -/
theorem GasCounter.Charged.trans {c v c' v' : Nat} (h : g.Charged c v g') (h' : g'.Charged c' v' g'') :
    g.Charged (c + c') (v + v') g'' where
  commit := by
    have := h.commit
    have := h'.commit
    omega
  verify := by
    have := h.verify
    have := h'.verify
    omega
  within := fun hg => h'.within (h.within hg)

/-- What was charged is at least nothing. -/
theorem GasCounter.Charged.least {c v : Nat} (h : g.Charged c v g') : g.Charged 0 0 g' :=
  ⟨Nat.le_trans (Nat.add_le_add_left (Nat.zero_le _) _) h.commit,
    Nat.le_trans (Nat.add_le_add_left (Nat.zero_le _) _) h.verify, h.within⟩

/-- An operation that is accepted is charged in full. -/
theorem addOp_charged {op : ZkSyncOp} (h : g.addOp op = .ok (some g')) :
    ∃ commit verify, CommitCost.opCost op = .ok commit ∧ VerifyCost.opCost op = .ok verify ∧
      g.Charged commit verify g' := by
  obtain ⟨commit, verify, hc, hv⟩ := opCosts_of_addOp h
  refine ⟨commit, verify, hc, hv, ?_⟩
  unfold GasCounter.addOp at h
  simp only [hc, hv, Outcome.ok_bind, Outcome.pure_eq] at h
  split at h
  next => cases h
  next hcommit =>
    split at h
    next => cases h
    next hverify =>
      cases h
      exact ⟨Nat.le_refl _, Nat.le_refl _,
        fun _ => ⟨Nat.le_of_not_lt hcommit, Nat.le_of_not_lt hverify⟩⟩

/-- Counting withdrawals takes no gas. -/
theorem gas_countWithdrawal {overflowChecks marksFast : Bool}
    (h : p.countWithdrawal overflowChecks marksFast tx = .ok p') : p'.gasCounter = p.gasCounter := by
  unfold PendingBlock.countWithdrawal at h
  split at h
  next =>
    rw [Outcome.bind_eq_ok] at h
    obtain ⟨n, -, h⟩ := h
    cases h
    rfl
  next =>
    cases h
    rfl

/-- A transaction is charged what it is converted to; one that is refused may be
charged all the same. -/
theorem admitTx_charged {marksFast admitted : Bool}
    (h : p.admitTx env s maxWithdrawals marksFast tx = .ok (admitted, p')) :
    p.gasCounter.Charged 0 0 p'.gasCounter ∧ (admitted = true → p.gasCounter.Charged
      (s.gasOf env CommitCost.opCost tx) (s.gasOf env VerifyCost.opCost tx) p'.gasCounter) := by
  unfold PendingBlock.admitTx at h
  rw [Outcome.bind_eq_ok] at h
  obtain ⟨op, hop, h⟩ := h
  rw [Outcome.bind_eq_ok] at h
  obtain ⟨gasCounter, hgas, h⟩ := h
  -- the counter has room for the operation, or the block is full
  cases gasCounter with
  | none =>
    cases h
    exact ⟨.refl _, fun h => (by cases h)⟩
  | some gasCounter =>
    dsimp only at h
    rw [Outcome.bind_eq_ok] at h
    obtain ⟨p₁, hp₁, h⟩ := h
    have hsame := gas_countWithdrawal hp₁
    cases h
    have hcharged : p.gasCounter.Charged (s.gasOf env CommitCost.opCost tx)
        (s.gasOf env VerifyCost.opCost tx) gasCounter := by
      unfold ZkSyncState.gasOf
      cases hconv : s.zksyncTxToZksyncOp env tx with
      | ok nonExecutedOp =>
        rw [hconv] at hop
        obtain rfl := Except.ok.inj hop
        have hadd : p.gasCounter.addOp nonExecutedOp = .ok (some gasCounter) :=
          infallible_eq_ok.mp hgas
        obtain ⟨commit, verify, hc, hv, hcharged⟩ := addOp_charged hadd
        dsimp only
        rw [hc, hv]
        exact hcharged
      | error failure =>
        rw [hconv] at hop
        cases failure with
        | error message =>
          obtain rfl := Except.ok.inj hop
          obtain rfl := Option.some.inj (Except.ok.inj hgas)
          exact .refl _
        | panic message => cases hop
    rw [hsame]
    exact ⟨hcharged.least, fun _ => hcharged⟩

/-- A batch that is let in is charged what its transactions are converted to. -/
theorem admitBatch_charged {txs : List ZkSyncTx} {admitted : Bool}
    (h : p.admitBatch env s maxWithdrawals txs = .ok (admitted, p')) :
    p.gasCounter.Charged 0 0 p'.gasCounter ∧ (admitted = true → p.gasCounter.Charged
      (txs.map (s.gasOf env CommitCost.opCost)).sum (txs.map (s.gasOf env VerifyCost.opCost)).sum
      p'.gasCounter) := by
  induction txs generalizing p with
  | nil =>
    cases h
    exact ⟨.refl _, fun _ => .refl _⟩
  | cons tx txs ih =>
    unfold PendingBlock.admitBatch at h
    rw [Outcome.bind_eq_ok] at h
    obtain ⟨⟨b, p₁⟩, hp₁, h⟩ := h
    obtain ⟨hleast, hfull⟩ := admitTx_charged hp₁
    cases b with
    | true =>
      obtain ⟨hleast', hfull'⟩ := ih h
      refine ⟨hleast.trans hleast', fun hadmitted => ?_⟩
      rw [List.map_cons, List.map_cons, List.sum_cons, List.sum_cons]
      exact (hfull rfl).trans (hfull' hadmitted)
    | false =>
      cases h
      exact ⟨hleast, fun h => (by cases h)⟩

end Counting

/-! ## The pending block -/

/-- The operations that were executed. -/
def PendingBlock.executedOps (p : PendingBlock) : List ZkSyncOp :=
  p.successOperations.filterMap ExecutedOperations.getExecutedOp

/-- Pushing executed these operations, and charged nothing. -/
structure PushedOps (ops : List ZkSyncOp) (p p' : PendingBlock) : Prop where
  ops : p'.executedOps = p.executedOps ++ ops
  gas : p'.gasCounter = p.gasCounter
  failed : (∀ tx ∈ p.failedTxs, tx.op = none) → ∀ tx ∈ p'.failedTxs, tx.op = none

/-- The counters cover the executed operations, and are within the limit. -/
structure PendingBlock.GasOk (p : PendingBlock) : Prop where
  within : p.gasCounter.Within
  failed : ∀ tx ∈ p.failedTxs, tx.op = none
  commit : ∃ n, totalCost CommitCost.opCost p.executedOps = .ok n ∧
    CommitCost.BASE_COST + n ≤ p.gasCounter.commitCost
  verify : ∃ n, totalCost VerifyCost.opCost p.executedOps = .ok n ∧
    VerifyCost.BASE_COST + n ≤ p.gasCounter.verifyCost

section Push

variable {p p₁ p' p'' : PendingBlock} {ops ops' : List ZkSyncOp} {overflowChecks : Bool}
  {chunksNeeded : Nat}

theorem PushedOps.refl (p : PendingBlock) : PushedOps [] p p :=
  ⟨(List.append_nil _).symm, rfl, id⟩

/-- Operations are pushed in their order. -/
theorem PushedOps.trans (h : PushedOps ops p p') (h' : PushedOps ops' p' p'') :
    PushedOps (ops ++ ops') p p'' where
  ops := by rw [h'.ops, h.ops, List.append_assoc]
  gas := h'.gas.trans h.gas
  failed := fun hp => h'.failed (h.failed hp)

/-- A success pushes its operation. -/
theorem pushedOps_pushSuccess {success : OpSuccess} {executed : UInt32 → ExecutedOperations}
    {e : ExecutedOperations} (hop : ∀ i, (executed i).getExecutedOp = some success.executedOp)
    (h : p.pushSuccess overflowChecks chunksNeeded success executed = .ok (e, p')) :
    PushedOps [success.executedOp] p p' := by
  obtain ⟨_, _, -, -, rfl, rfl⟩ := PendingBlock.pushSuccess_eq_ok.mp h
  refine ⟨?_, rfl, id⟩
  unfold PendingBlock.executedOps
  rw [List.filterMap_append, List.filterMap_cons, hop]
  rfl

/-- A failure pushes none. -/
theorem pushedOps_pushTxResult {batchId : Option Int} {tx : SignedZkSyncTx}
    {result : Except String OpSuccess} {e : ExecutedOperations}
    (h : p.pushTxResult overflowChecks chunksNeeded batchId tx result = .ok (e, p')) :
    PushedOps (result.toOption.toList.map (·.executedOp)) p p' := by
  cases result with
  | ok success =>
    unfold PendingBlock.pushTxResult at h
    exact pushedOps_pushSuccess (by exact fun _ => rfl) h
  | error error =>
    cases h
    refine ⟨(List.append_nil _).symm, rfl, fun hp tx' htx' => ?_⟩
    rcases List.mem_append.mp htx' with htx' | htx'
    · exact hp tx' htx'
    · rw [List.mem_singleton.mp htx']

/-- A batch pushes the operations of its successes. -/
theorem pushedOps_pushBatchResults {batchId : Int}
    {results : List (SignedZkSyncTx × Except String OpSuccess)} {es : List ExecutedOperations}
    (h : p.pushBatchResults overflowChecks chunksNeeded batchId results = .ok (es, p')) :
    PushedOps (results.flatMap fun r => r.2.toOption.toList.map (·.executedOp)) p p' := by
  induction results generalizing p es with
  | nil =>
    cases h
    exact .refl _
  | cons r results ih =>
    obtain ⟨tx, result⟩ := r
    unfold PendingBlock.pushBatchResults at h
    simp only [Outcome.bind_eq_ok] at h
    obtain ⟨⟨e, p₁⟩, h₁, ⟨es', p₂⟩, h₂, h⟩ := h
    cases h
    exact (pushedOps_pushTxResult h₁).trans (ih h₂)

/-- Operations that cost no more than was charged keep the block covered. -/
theorem PendingBlock.GasOk.push (h : p.GasOk) {c v : Nat} (hcounted : Counted p p₁)
    (hcharged : p.gasCounter.Charged c v p₁.gasCounter) (hpushed : PushedOps ops p₁ p')
    (hcommit : ∃ n, totalCost CommitCost.opCost ops = .ok n ∧ n ≤ c)
    (hverify : ∃ n, totalCost VerifyCost.opCost ops = .ok n ∧ n ≤ v) : p'.GasOk := by
  have hsame : p₁.executedOps = p.executedOps ∧ p₁.failedTxs = p.failedTxs := by
    unfold Counted at hcounted
    rw [hcounted]
    exact ⟨rfl, rfl⟩
  obtain ⟨n, hn, hle⟩ := h.commit
  obtain ⟨m, hm, hle'⟩ := h.verify
  obtain ⟨n', hn', hnc⟩ := hcommit
  obtain ⟨m', hm', hmv⟩ := hverify
  have hc := hcharged.commit
  have hv := hcharged.verify
  refine ⟨?_, hpushed.failed (by rw [hsame.2]; exact h.failed), ⟨n + n', ?_, ?_⟩, ⟨m + m', ?_, ?_⟩⟩
  · rw [hpushed.gas]
    exact hcharged.within h.within
  · rw [hpushed.ops, hsame.1]
    exact totalCost_append hn hn'
  · rw [hpushed.gas]
    omega
  · rw [hpushed.ops, hsame.1]
    exact totalCost_append hm hm'
  · rw [hpushed.gas]
    omega

/-- Without operations. -/
theorem PendingBlock.GasOk.counted (h : p.GasOk) (hcounted : Counted p p')
    (hcharged : p.gasCounter.Charged 0 0 p'.gasCounter) : p'.GasOk :=
  h.push hcounted hcharged (.refl p') ⟨0, rfl, Nat.le_refl _⟩ ⟨0, rfl, Nat.le_refl _⟩

/-- A new block has charged nothing. -/
theorem gasOk_new (before : UInt64) (chunksLeft : Nat) : (PendingBlock.new before chunksLeft).GasOk := by
  refine ⟨⟨?_, ?_⟩, fun tx htx => absurd htx List.not_mem_nil, ⟨0, rfl, Nat.le_refl _⟩,
    ⟨0, rfl, Nat.le_refl _⟩⟩
  · show GasCounter.scaleUp CommitCost.BASE_COST ≤ TX_GAS_LIMIT
    decide
  · show GasCounter.scaleUp VerifyCost.BASE_COST ≤ TX_GAS_LIMIT
    decide

end Push

/-! ## Runs -/

/-- The transactions of a batch that is let in and succeeds can all be converted
on the state before the batch. -/
def KeeperCall.Converts (env : Env) (k : ZkSyncStateKeeper) : KeeperCall → Prop
  | .batch txs _ => ∀ chunksNeeded p, k.state.chunksForBatch txs = .ok chunksNeeded →
    chunksNeeded ≤ k.pendingBlock.chunksLeft →
    k.pendingBlock.admitBatch env k.state k.maxNumberOfWithdrawalsPerBlock (txs.map (·.tx)) =
      .ok (true, p) →
    executedBefore env k.state (txs.map (·.tx)) = txs.map (·.tx) →
    ∀ request ∈ txs, ∃ op, k.state.zksyncTxToZksyncOp env request.tx = .ok op
  | _ => True

/-- The gas limits of a block cover its operations, and are within the limit of a
transaction. -/
structure GasCovered (block : Block) : Prop where
  commit : ∃ n, totalCost CommitCost.opCost
      (block.blockTransactions.filterMap ExecutedOperations.getExecutedOp) = .ok n ∧
    GasCounter.scaleUp (CommitCost.BASE_COST + n) ≤ block.commitGasLimit
  verify : ∃ n, totalCost VerifyCost.opCost
      (block.blockTransactions.filterMap ExecutedOperations.getExecutedOp) = .ok n ∧
    GasCounter.scaleUp (VerifyCost.BASE_COST + n) ≤ block.verifyGasLimit
  commit_le : block.commitGasLimit ≤ TX_GAS_LIMIT
  verify_le : block.verifyGasLimit ≤ TX_GAS_LIMIT

section Runs

variable {env : Env} {k k' : ZkSyncStateKeeper} {p p' : PendingBlock}

/-- The cost of one operation that was converted to no less. -/
theorem ZkSyncOp.NoDearer.costs {op converted : ZkSyncOp} (h : op.NoDearer converted)
    {commit verify : Nat} (hc : CommitCost.opCost converted = .ok commit)
    (hv : VerifyCost.opCost converted = .ok verify) :
    (∃ n, totalCost CommitCost.opCost [op] = .ok n ∧ n ≤ commit) ∧
      ∃ n, totalCost VerifyCost.opCost [op] = .ok n ∧ n ≤ verify := by
  obtain ⟨c, c', hop, hop', hle⟩ := h.commit
  obtain ⟨v, v', hov, hov', hle'⟩ := h.verify
  obtain rfl := Except.ok.inj (hc.symm.trans hop')
  obtain rfl := Except.ok.inj (hv.symm.trans hov')
  refine ⟨⟨c, ?_, hle⟩, ⟨v, ?_, hle'⟩⟩
  · unfold totalCost
    rw [hop]
    rfl
  · unfold totalCost
    rw [hov]
    rfl

/-- A run of transactions costs no more than what they are converted to on a state
before, if they can all be converted there. -/
theorem totalCost_txRun {s s' s₀ : ZkSyncState} {es : List Executed}
    (h : Run (TxStep env) s es s') (hgrows : IndexGrows s₀ s)
    (hconv : ∀ e ∈ es, ∃ op, s₀.zksyncTxToZksyncOp env e.1 = .ok op) :
    (∃ n, totalCost CommitCost.opCost (es.map (·.2.executedOp)) = .ok n ∧
      n ≤ ((es.map (·.1)).map (s₀.gasOf env CommitCost.opCost)).sum) ∧
    ∃ n, totalCost VerifyCost.opCost (es.map (·.2.executedOp)) = .ok n ∧
      n ≤ ((es.map (·.1)).map (s₀.gasOf env VerifyCost.opCost)).sum := by
  induction h with
  | nil => exact ⟨⟨0, rfl, Nat.le_refl _⟩, ⟨0, rfl, Nat.le_refl _⟩⟩
  | @cons s s₁ s' e es hstep _ ih =>
    have heff := executeTx_effect hstep
    obtain ⟨op, hop⟩ := hconv e List.mem_cons_self
    obtain ⟨⟨c, c', hc, hc', hle⟩, ⟨v, v', hv, hv', hle'⟩⟩ := heff.noDearer hgrows hop
    obtain ⟨⟨n, hn, hnle⟩, ⟨m, hm, hmle⟩⟩ := ih
      (fun address h => heff.indexGrows address (hgrows address h))
      fun e he => hconv e (List.mem_cons_of_mem _ he)
    have hgas : ∀ {opCost : ZkSyncOp → Outcome Nat} {cost : Nat}, opCost op = .ok cost →
        s₀.gasOf env opCost e.1 = cost := by
      intro opCost cost hcost
      unfold ZkSyncState.gasOf
      rw [hop]
      dsimp only
      rw [hcost]
      rfl
    refine ⟨⟨c + n, ?_, ?_⟩, ⟨v + m, ?_, ?_⟩⟩
    · rw [List.map_cons]
      unfold totalCost
      rw [hc, hn]
      rfl
    · rw [List.map_cons, List.map_cons, List.sum_cons, hgas hc']
      exact Nat.add_le_add hle hnle
    · rw [List.map_cons]
      unfold totalCost
      rw [hv, hm]
      rfl
    · rw [List.map_cons, List.map_cons, List.sum_cons, hgas hv']
      exact Nat.add_le_add hle' hmle

theorem executedOps_ok {txs : List SignedZkSyncTx} : ∀ {es : List Executed},
    txs.length = es.length →
    (txs.zip (es.map fun e => (.ok e.2 : Except String OpSuccess))).flatMap
      (fun r => r.2.toOption.toList.map (·.executedOp)) = es.map (·.2.executedOp) := by
  induction txs with
  | nil =>
    intro es h
    rw [List.eq_nil_of_length_eq_zero h.symm]
    rfl
  | cons tx txs ih =>
    intro es h
    cases es with
    | nil => cases h
    | cons e es =>
      rw [List.map_cons, List.zip_cons_cons, List.flatMap_cons, ih (Nat.succ.inj h)]
      rfl

/-- A batch that fails has none. -/
theorem executedOps_error (txs : List SignedZkSyncTx) (n : Nat) (error : String) :
    (txs.zip (List.replicate n (.error error : Except String OpSuccess))).flatMap
      (fun r => r.2.toOption.toList.map (·.executedOp)) = [] := by
  refine List.flatMap_eq_nil_iff.mpr fun r hr => ?_
  have hmem := (List.of_mem_zip hr).2
  rw [List.eq_of_mem_replicate hmem]
  rfl

/-- A batch of which all transactions can be converted. -/
theorem gasOk_batch {txs : List SignedZkSyncTx} {batchId : Int} {chunksNeeded : Nat}
    {results : BatchResults} {state : ZkSyncState} {ops : List ExecutedOperations}
    (h : k.pendingBlock.GasOk) (hconv : KeeperCall.Converts env k (.batch txs batchId))
    (estimate : k.state.chunksForBatch txs = .ok chunksNeeded)
    (room : chunksNeeded ≤ k.pendingBlock.chunksLeft)
    (admitted : k.pendingBlock.admitBatch env k.state k.maxNumberOfWithdrawalsPerBlock
      (txs.map (·.tx)) = .ok (true, p))
    (executed : k.state.executeTxsBatch env txs = .ok (results, state))
    (pushed : p.pushBatchResults env.overflowChecks chunksNeeded batchId (txs.zip results) =
      .ok (ops, p')) : p'.GasOk := by
  have hcounted := PendingBlock.counted_admitBatch admitted
  obtain ⟨hleast, hcharged⟩ := admitBatch_charged admitted
  have hpushed := pushedOps_pushBatchResults pushed
  cases executeTxsBatch_outcome executed with
  | @done es _ batch run =>
    have hlength : txs.length = es.length := by
      simpa using congrArg List.length batch
    rw [executedOps_ok hlength] at hpushed
    have hall : executedBefore env k.state (txs.map (·.tx)) = txs.map (·.tx) := by
      rw [batch]
      exact executedBefore_of_done run
    obtain ⟨hcommit, hverify⟩ := totalCost_txRun run (indexGrows_refl k.state) fun e he => by
      have hmem : e.1 ∈ txs.map (·.tx) := by
        rw [batch]
        exact List.mem_map_of_mem he
      obtain ⟨request, hrequest, heq⟩ := List.mem_map.mp hmem
      rw [← heq]
      exact hconv chunksNeeded p estimate room admitted hall request hrequest
    rw [← batch] at hcommit hverify
    exact h.push hcounted (hcharged rfl) hpushed hcommit hverify
  | undone =>
    rw [executedOps_error] at hpushed
    exact h.push hcounted hleast hpushed ⟨0, rfl, Nat.le_refl _⟩ ⟨0, rfl, Nat.le_refl _⟩

/-- The end of a mini block charges nothing. -/
theorem gasOk_countIteration (h : k.pendingBlock.GasOk) : k.countIteration.pendingBlock.GasOk := by
  unfold ZkSyncStateKeeper.countIteration
  split
  · exact ⟨h.1, h.2, h.3, h.4⟩
  · exact h

/-- The block that is sealed of a covered pending block. -/
theorem gasCovered_of_sealed (h : k.pendingBlock.GasOk) {request : BlockCommitRequest}
    {updates : AppliedUpdatesRequest} {feeUpdates : AccountUpdates} {paid hashed : ZkSyncState}
    (hs : Sealed env k request updates feeUpdates paid hashed) : GasCovered request.block := by
  have hops : request.block.blockTransactions.filterMap ExecutedOperations.getExecutedOp =
      k.pendingBlock.executedOps := by
    rw [hs.transactions, List.filterMap_append]
    have hfailed : (k.pendingBlock.failedTxs.map ExecutedOperations.Tx).filterMap
        ExecutedOperations.getExecutedOp = [] := by
      refine List.filterMap_eq_nil_iff.mpr fun op hop => ?_
      obtain ⟨tx, htx, rfl⟩ := List.mem_map.mp hop
      exact h.failed tx htx
    rw [hfailed, List.append_nil]
    rfl
  obtain ⟨n, hn, hle⟩ := h.commit
  obtain ⟨m, hm, hle'⟩ := h.verify
  refine ⟨⟨n, by rw [hops]; exact hn, ?_⟩, ⟨m, by rw [hops]; exact hm, ?_⟩, ?_, ?_⟩
  · rw [hs.commitGas]
    exact scaleUp_mono hle
  · rw [hs.verifyGas]
    exact scaleUp_mono hle'
  · rw [hs.commitGas]
    exact h.within.commit
  · rw [hs.verifyGas]
    exact h.within.verify

/-- A call that finds the block full keeps it covered. -/
theorem gasOk_full (h : k.pendingBlock.GasOk) {call : KeeperCall}
    (hstep : KeeperStep env k (call, .full) k') : k'.pendingBlock.GasOk := by
  unfold KeeperStep ZkSyncStateKeeper.answer at hstep
  cases call with
  | priorityOp op =>
    -- the operation was converted before it was executed, and cost no less
    dsimp only at hstep
    rw [Outcome.bind_eq_ok] at hstep
    obtain ⟨⟨r, k₁⟩, happ, hstep⟩ := hstep
    cases r with
    | ok e => cases hstep
    | error op' =>
      cases hstep
      unfold ZkSyncStateKeeper.applyPriorityOp at happ
      dsimp only at happ
      split at happ
      next =>
        cases happ
        exact h
      next =>
        simp only [Outcome.bind_eq_ok] at happ
        obtain ⟨_, -, gasCounter, -, happ⟩ := happ
        cases gasCounter with
        | none =>
          cases happ
          exact h
        | some gasCounter =>
          simp only [Outcome.bind_eq_ok] at happ
          obtain ⟨_, -, _, -, _, -, happ⟩ := happ
          cases happ
  | tx tx =>
    dsimp only at hstep
    rw [Outcome.bind_eq_ok] at hstep
    obtain ⟨⟨r, k₁⟩, happ, hstep⟩ := hstep
    cases r with
    | ok e => cases hstep
    | error u =>
      cases hstep
      unfold ZkSyncStateKeeper.applyTx at happ
      rw [Outcome.bind_eq_ok] at happ
      obtain ⟨chunksNeeded, -, happ⟩ := happ
      split at happ
      next =>
        cases happ
        exact h
      next =>
        rw [Outcome.bind_eq_ok] at happ
        obtain ⟨⟨admitted, p⟩, hadm, happ⟩ := happ
        cases admitted with
        | false =>
          cases happ
          exact h.counted (PendingBlock.counted_admitTx hadm) (admitTx_charged hadm).1
        | true =>
          simp only [if_true, Outcome.bind_eq_ok] at happ
          obtain ⟨_, -, _, -, happ⟩ := happ
          cases happ
  | batch txs batchId =>
    -- the sum of a batch was charged before, transaction by transaction
    dsimp only at hstep
    rw [Outcome.bind_eq_ok] at hstep
    obtain ⟨⟨r, k₁⟩, happ, hstep⟩ := hstep
    cases r with
    | ok e => cases hstep
    | error u =>
      cases hstep
      unfold ZkSyncStateKeeper.applyBatch at happ
      rw [Outcome.bind_eq_ok] at happ
      obtain ⟨chunksNeeded, -, happ⟩ := happ
      split at happ
      next =>
        cases happ
        exact h
      next =>
        rw [Outcome.bind_eq_ok] at happ
        obtain ⟨⟨admitted, p⟩, hadm, happ⟩ := happ
        cases admitted with
        | false =>
          cases happ
          exact h.counted (PendingBlock.counted_admitBatch hadm) (admitBatch_charged hadm).1
        | true =>
          simp only [if_true, Outcome.bind_eq_ok] at happ
          obtain ⟨_, -, _, -, happ⟩ := happ
          cases happ
  | sealBlock =>
    unfold ZkSyncStateKeeper.sealReply at hstep
    dsimp only at hstep
    rw [Outcome.bind_eq_ok] at hstep
    obtain ⟨_, -, hstep⟩ := hstep
    cases hstep
  | endMiniBlock =>
    dsimp only at hstep
    split at hstep
    next =>
      unfold ZkSyncStateKeeper.sealReply at hstep
      rw [Outcome.bind_eq_ok] at hstep
      obtain ⟨_, -, hstep⟩ := hstep
      cases hstep
    next =>
      rw [Outcome.bind_eq_ok] at hstep
      obtain ⟨_, -, hstep⟩ := hstep
      cases hstep

/-- Calls that meet the condition keep the block covered, and what they seal is covered. -/
theorem gasOk_step (h : k.pendingBlock.GasOk) {e : KeeperCall × KeeperReply}
    (hconv : e.1.Converts env k) (hstep : KeeperStep env k e k') :
    k'.pendingBlock.GasOk ∧
      ∀ request updates, .Block request updates ∈ e.2.sent → GasCovered request.block := by
  obtain ⟨call, reply⟩ := e
  have heff := hstep.effect
  dsimp only at hconv heff ⊢
  have hsilent : ∀ request updates, CommitRequest.Block request updates ∈ ([] : List CommitRequest) →
      GasCovered request.block := fun _ _ h => absurd h List.not_mem_nil
  cases heff with
  | full => exact ⟨gasOk_full h hstep, hsilent⟩
  | @priorityOp op nonExecutedOp gasCounter success state e p next _ converted gas executed pushed =>
    obtain ⟨commit, verify, hc, hv, hcharged⟩ := addOp_charged gas
    obtain ⟨hcommit, hverify⟩ := (noDearer_priorityOp executed converted).costs hc hv
    exact ⟨h.push
      (rfl : Counted k.pendingBlock { k.pendingBlock with gasCounter := gasCounter }) hcharged
      (pushedOps_pushSuccess (by exact fun _ => rfl) pushed) hcommit hverify, hsilent⟩
  | @tx tx chunksNeeded p p' result state e _ _ admitted executed pushed =>
    have hcounted := PendingBlock.counted_admitTx admitted
    obtain ⟨hleast, hcharged⟩ := admitTx_charged admitted
    have hpushed := pushedOps_pushTxResult pushed
    cases result with
    | ok success =>
      have hexec := executeTx_of_result executed
      obtain ⟨hcommit, hverify⟩ := totalCost_txRun (Run.single (e := (tx.tx, success)) hexec)
        (indexGrows_refl k.state) fun e he => by
          rw [List.mem_singleton.mp he]
          exact converts_of_executed hexec
      refine ⟨h.push hcounted (hcharged rfl) hpushed hcommit hverify, hsilent⟩
    | error error =>
      exact ⟨h.push hcounted hleast hpushed ⟨0, rfl, Nat.le_refl _⟩ ⟨0, rfl, Nat.le_refl _⟩, hsilent⟩
  | batch estimate room admitted executed pushed =>
    exact ⟨gasOk_batch h hconv estimate room admitted executed pushed, hsilent⟩
  | @sealed _ request updates k₁ _ before hseal =>
    have hk : k₁.pendingBlock.GasOk := by
      rcases before with ⟨-, rfl⟩ | ⟨-, rfl⟩
      · exact h
      · exact gasOk_countIteration h
    obtain ⟨feeUpdates, paid, hashed, _, _, hs, -, -, rfl⟩ := sealPendingBlock_eq_ok hseal
    refine ⟨gasOk_new _ _, fun request' updates' hmem => ?_⟩
    cases List.mem_singleton.mp hmem
    exact gasCovered_of_sealed hk hs
  | stored hstore =>
    have hc := gasOk_countIteration h
    obtain ⟨-, -, -, rfl⟩ := storePendingBlock_eq_ok hstore
    refine ⟨⟨hc.1, hc.2, hc.3, hc.4⟩, fun request' updates' hmem => ?_⟩
    cases List.mem_singleton.mp hmem

/-- Of every run whose batches can be converted before they are executed: the gas
limits of every sealed block cover its operations, and are within the limit. -/
theorem gas_covered {initialState : ZkSyncStateInitParams} {feeAccountAddress : Address}
    {sizes : List Nat} {maxMini fastMini maxWithdrawals : Nat} {k₀ : ZkSyncStateKeeper}
    (hnew : ZkSyncStateKeeper.new env initialState feeAccountAddress sizes maxMini fastMini
      maxWithdrawals = .ok k₀) {tr : List (KeeperCall × KeeperReply)}
    (hrun : Run (fun k e k' => e.1.Converts env k ∧ KeeperStep env k e k') k₀ tr k) :
    ∀ request updates, .Block request updates ∈ sentBy tr → GasCovered request.block := by
  obtain ⟨_, _, _, -, -, hk⟩ := ZkSyncStateKeeper.new_eq_ok hnew
  have hstart : k₀.pendingBlock.GasOk := by
    rw [hk]
    exact gasOk_new _ _
  clear hnew hk
  induction hrun with
  | nil => exact fun _ _ h => absurd h List.not_mem_nil
  | @cons k k₁ k' e tr hstep _ ih =>
    obtain ⟨hk₁, hsent⟩ := gasOk_step hstart hstep.1 hstep.2
    intro request updates hmem
    have hmem' : CommitRequest.Block request updates ∈ e.2.sent ++ sentBy tr := hmem
    rcases List.mem_append.mp hmem' with hmem' | hmem'
    · exact hsent request updates hmem'
    · exact ih hk₁ request updates hmem'

end Runs

/-! ### A batch that unlocks its account -/

/-- The parameters of a server with one account. -/
def oneAccountParams (a : Account) : ZkSyncStateInitParams :=
  .fromAccMap (Env.signedBy 1).hasher (AList.singleton 0 a) 0 0

/-- Its keeper, before it asks for the root hash. -/
def oneAccountKeeper (a : Account) : ZkSyncStateKeeper :=
  .unhashed (oneAccountParams a) 1 0 30 [6, 30] 10 2 5

/-- A table of one account fits if that one does. -/
theorem fits_singleton {id id' : AccountId} {a a' : Account} (ha : a.Fits)
    (h : (AList.singleton id a : AList fun _ : AccountId => Account).lookup id' = some a') : a'.Fits := by
  have hmem := List.of_mem_dlookup h
  cases List.mem_singleton.mp hmem
  exact ha

/-- A keeper over one account starts, and can be hashed. -/
theorem new_oneAccountKeeper {a : Account} (ha : a.Fits)
    (hfee : (oneAccountKeeper a).state.getAccountByAddress 1 = .ok (some (0, a))) : ∃ k₀,
    ZkSyncStateKeeper.new (Env.built 1 false) (oneAccountParams a) 1 [6, 30] 10 2 5 = .ok k₀ ∧
    KeeperAlike (oneAccountKeeper a) k₀ ∧ Hashable (Env.built 1 false) k₀ :=
  Hashable.exists_new _ _ _ (fun _ _ => fits_singleton ha) ⟨by decide, by decide, rfl, ⟨a, hfee⟩, rfl⟩

/-- What a call leaves, computed: the gas it was charged, and what its operations cost. -/
def PendingBlock.chargedFor (p : PendingBlock) (charged cost : Nat) : Bool :=
  decide (p.failedTxs = []) && decide (p.gasCounter.commitCost = charged) &&
  decide (totalCost CommitCost.opCost p.executedOps = .ok cost)

/-- A call that was computed is answered by a new keeper, and sealed into a block
with the computed gas limit and costs. -/
theorem exists_charged {a : Account} (call : KeeperCall) (charged cost : Nat) (ha : a.Fits)
    (hfee : (oneAccountKeeper a).state.getAccountByAddress 1 = .ok (some (0, a)))
    (hentry : call.IsEntry) (htok : call.FeeTokenOk)
    (hsum : (((oneAccountKeeper a).answers (Env.built 1 false) [call]).toOption.map fun r =>
      r.2.sealable && r.2.pendingBlock.chargedFor charged cost) = some true) :
    ∃ k₀ k k' reply request updates,
      ZkSyncStateKeeper.new (Env.built 1 false) (oneAccountParams a) 1 [6, 30] 10 2 5 = .ok k₀ ∧
      KeeperAlike (oneAccountKeeper a) k₀ ∧ KeeperStep (Env.built 1 false) k₀ (call, reply) k ∧
      KeeperStep (Env.built 1 false) k (.sealBlock, .sealed request updates) k' ∧
      request.block.commitGasLimit = GasCounter.scaleUp charged ∧
      totalCost CommitCost.opCost
        (request.block.blockTransactions.filterMap ExecutedOperations.getExecutedOp) = .ok cost := by
  obtain ⟨k₀, hnew, halike, hhashable⟩ := new_oneAccountKeeper ha hfee
  obtain ⟨tr, k, request, updates, k', hanswers, hcharged, hseal⟩ :=
    exists_sealed_computed (f := fun p => p.chargedFor charged cost) halike hhashable rfl
      (fun c hc => by rw [List.mem_singleton.mp hc]; exact hentry)
      (fun c hc => by rw [List.mem_singleton.mp hc]; exact htok) hsum
  obtain ⟨reply, -, hstep⟩ := answers_single hanswers
  unfold PendingBlock.chargedFor at hcharged
  simp only [Bool.and_eq_true, decide_eq_true_eq] at hcharged
  obtain ⟨⟨hfailed, hgas⟩, hcost⟩ := hcharged
  obtain ⟨_, _, _, _, _, hs, -⟩ := sealPendingBlock_eq_ok hseal
  refine ⟨k₀, k, k', reply, request, updates, hnew, halike, hstep, sealStep hseal, ?_, ?_⟩
  · rw [hs.commitGas, ← hgas]
    rfl
  · rw [hs.transactions, hfailed, List.map_nil, List.append_nil]
    exact hcost

/-- A batch of two transfers, and its block. -/
theorem gas_covered_sampleTransfers : ∃ k₀ k tr request updates,
    ZkSyncStateKeeper.new (Env.built 1 false) (oneAccountParams sampleAccount) 1 [6, 30] 10 2 5 =
      .ok k₀ ∧
    Run (fun k e k' => e.1.Converts (Env.built 1 false) k ∧ KeeperStep (Env.built 1 false) k e k')
      k₀ tr k ∧
    .Block request updates ∈ sentBy tr ∧ GasCovered request.block := by
  obtain ⟨k₀, k, k', reply, request, updates, hnew, halike, hstep, hseal, -⟩ :=
    exists_charged (.batch (sampleTransfers.take 2) 1) 300668 668
      fits_sampleAccount rfl trivial
      (fun request hr => by
        obtain ⟨nonce, -, rfl⟩ := List.mem_map.mp (List.mem_of_mem_take hr)
        exact trivial)
      (by decide +kernel)
  have hconv : KeeperCall.Converts (Env.built 1 false) k₀ (.batch (sampleTransfers.take 2) 1) := by
    intro _ _ _ _ _ _ request hrequest
    rw [← halike.state.zksyncTxToZksyncOp]
    have hall : (sampleTransfers.take 2).all (fun request =>
        ((oneAccountKeeper sampleAccount).state.zksyncTxToZksyncOp (Env.built 1 false)
          request.tx).toOption.isSome) = true := by decide +kernel
    obtain ⟨op, hop⟩ := Option.isSome_iff_exists.mp (List.all_eq_true.mp hall request hrequest)
    exact ⟨op, Outcome.toOption_eq_some.mp hop⟩
  have hrun : Run (fun k e k' => e.1.Converts (Env.built 1 false) k ∧
      KeeperStep (Env.built 1 false) k e k') k₀
      [(.batch (sampleTransfers.take 2) 1, reply), (.sealBlock, .sealed request updates)] k' :=
    .cons ⟨hconv, hstep⟩ (.cons ⟨trivial, hseal⟩ (.nil k'))
  have hmem : CommitRequest.Block request updates ∈
      sentBy [(.batch (sampleTransfers.take 2) 1, reply), (.sealBlock, .sealed request updates)] :=
    List.mem_flatMap.mpr ⟨_, List.mem_cons_of_mem _ List.mem_cons_self, List.mem_cons_self⟩
  exact ⟨k₀, k', _, request, updates, hnew, hrun, hmem, gas_covered hnew hrun request updates hmem⟩

/-- The account of `sampleAccount`, without a key. -/
def lockedAccount : Account := { sampleAccount with pubKeyHash := 0 }

/-- Sets the key 1, authorized on chain. -/
def sampleKeyChange (nonce : Nonce) : ChangePubKey where
  accountId := 0
  account := 1
  newPkHash := 1
  feeToken := 0
  fee := 0
  nonce := nonce
  signature := ⟨0, 0⟩
  ethSignature := none

/-- The account sets its key and makes a transfer to itself. -/
def unlockingBatch : List SignedZkSyncTx :=
  [⟨.ChangePubKey (sampleKeyChange 0), none⟩, ⟨.Transfer (sampleTransfer 1 1), none⟩]

theorem feeTokenOk_unlockingBatch : KeeperCall.FeeTokenOk (.batch unlockingBatch 1) := by
  intro request hr
  simp only [unlockingBatch, List.mem_cons, List.not_mem_nil, or_false] at hr
  rcases hr with rfl | rfl
  · show (0 : TokenId).toNat < 2 ^ balanceTreeDepth
    decide
  · exact trivial

/-- The batch is charged for the key change only; the limit of its block does not
cover the transfer. -/
theorem gas_uncounted : ∃ k₀ k tr request updates,
    ZkSyncStateKeeper.new (Env.built 1 false) (oneAccountParams lockedAccount) 1 [6, 30] 10 2 5 =
      .ok k₀ ∧
    Run (KeeperStep (Env.built 1 false)) k₀ tr k ∧
    tr.map Prod.fst = [.batch unlockingBatch 1, .sealBlock] ∧
    .Block request updates ∈ sentBy tr ∧ ¬ GasCovered request.block := by
  obtain ⟨k₀, k, k', reply, request, updates, hnew, -, hstep, hseal, hlimit, hcost⟩ :=
    exists_charged (a := lockedAccount) (.batch unlockingBatch 1) 303929 4263
      (fun token h => fits_sampleAccount token h) rfl trivial
      feeTokenOk_unlockingBatch (by decide +kernel)
  refine ⟨k₀, k', [(.batch unlockingBatch 1, reply), (.sealBlock, .sealed request updates)], request,
    updates, hnew, .cons hstep (Run.single hseal), rfl, ?_, fun h => ?_⟩
  · exact List.mem_flatMap.mpr ⟨_, List.mem_cons_of_mem _ List.mem_cons_self, List.mem_cons_self⟩
  · obtain ⟨n, hn, hle⟩ := h.commit
    obtain rfl := Except.ok.inj (hcost.symm.trans hn)
    rw [hlimit] at hle
    exact absurd hle (by decide)

end ZkSync
