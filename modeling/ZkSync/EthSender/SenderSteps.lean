import ZkSync.EthSender.Sender

/-!
# What a step of the Ethereum sender can do

`initialize_operation` and `perform_commitment_step`, read backwards: `Initializes` and
`Performs` list the ways in which they end, with what is then changed in memory, in the
database, and on the way to Ethereum. The proofs about runs only look at these cases.
-/

namespace ZkSync

/-- Every call before the commit succeeded. -/
def InitReplies.Stored (r : InitReplies) : Prop :=
  (∃ currentBlock, r.blockNumber = .ok currentBlock) ∧
    (∃ networkPrice, r.gas.networkPrice = .ok networkPrice) ∧ r.connection = .ok () ∧
    r.startTransaction = .ok () ∧ r.save = .ok () ∧ r.sign = .ok () ∧ r.addHash = .ok ()

/-- If every call before the commit succeeds, the commit succeeds. -/
def InitReplies.Commits (r : InitReplies) : Prop := r.Stored → r.commit = .ok ()

/-- The supplement transaction is created. -/
def SupplementReplies.Created (r : SupplementReplies) : Prop :=
  (∃ networkPrice, r.gas.networkPrice = .ok networkPrice) ∧ r.sign = .ok ()

/-- Every call after the supplement transaction was created succeeds. -/
def SupplementReplies.Persisted (r : SupplementReplies) : Prop :=
  r.connection = .ok () ∧ r.startTransaction = .ok () ∧ r.update = .ok () ∧ r.addHash = .ok () ∧
    r.send = .ok () ∧ r.commit = .ok ()

namespace ETHOperation

/-- What is fixed when the operation is started. -/
def key (op : ETHOperation) : EthOpId × Nat := (op.id, op.nonce)

/-- The operation with a supplement transaction. -/
def supplemented (op : ETHOperation) (deadlineBlock : UInt64) (newTx : SignedCallResult) :
    ETHOperation :=
  { op with
    lastDeadlineBlock := deadlineBlock
    lastUsedGasPrice := newTx.gasPrice
    usedTxHashes := op.usedTxHashes ++ [newTx.hash] }

@[simp] theorem supplemented_key (op : ETHOperation) (deadlineBlock : UInt64)
    (newTx : SignedCallResult) : (op.supplemented deadlineBlock newTx).key = op.key := rfl

end ETHOperation

def StorageETHOperation.key (row : StorageETHOperation) : EthOpId × Nat := (row.id, row.nonce)

/-- The database after the supplement transaction of an operation was stored. -/
def EthDb.storeSupplementTx (db : EthDb) (op : ETHOperation) (deadlineBlock : UInt64)
    (newTx : SignedCallResult) : EthDb :=
  (db.updateEthTx op.id deadlineBlock.toInt64 newTx.gasPrice).addHashEntry op.id newTx.hash

/-- Nothing is started between the two databases. -/
structure EthDb.SameStarted (db db' : EthDb) : Prop where
  keys : db'.ethOperations.map StorageETHOperation.key = db.ethOperations.map StorageETHOperation.key
  bindings : db'.ethOpsBinding = db.ethOpsBinding
  operations : db'.operations.map OperationRow.intoOp = db.operations.map OperationRow.intoOp
  seq : db.ethOperationsIdSeq ≤ db'.ethOperationsIdSeq
  parameters : db'.ethParameters = db.ethParameters

/-- The operation that `initialize_operation` starts. -/
def startedOp (db : EthDb) (tx : TxData) (deadlineBlock : UInt64) (gasPrice : Nat)
    (hash : List UInt8) : ETHOperation where
  id := db.ethOperationsIdSeq + 1
  opType := tx.opType
  op := tx.operation
  nonce := db.ethParameters.nonce
  lastDeadlineBlock := deadlineBlock
  lastUsedGasPrice := gasPrice
  usedTxHashes := [hash]
  encodedTxData := tx.raw
  confirmed := false
  finalHash := none

/-- The database after `initialize_operation`. -/
def EthDb.storeStarted (db : EthDb) (tx : TxData) (deadlineBlock : UInt64) (gasPrice : Nat)
    (hash : List UInt8) : EthDb :=
  (db.saveNewEthTx tx.opType (tx.operation.bind Operation.id) deadlineBlock.toInt64 gasPrice
    tx.raw).2.addHashEntry (db.ethOperationsIdSeq + 1) hash

namespace EthDb

variable {db db' : EthDb}

theorem updateRow_keys (db : EthDb) (ethOpId : EthOpId)
    {f : StorageETHOperation → StorageETHOperation} (hf : ∀ row, (f row).key = row.key) :
    (db.updateRow ethOpId f).ethOperations.map StorageETHOperation.key =
      db.ethOperations.map StorageETHOperation.key := by
  show (db.ethOperations.map _).map StorageETHOperation.key = _
  rw [List.map_map]
  refine List.map_congr_left fun row _ => ?_
  show StorageETHOperation.key (if row.id = ethOpId then f row else row) = row.key
  split
  · exact hf row
  · rfl

namespace SameStarted

theorem refl (db : EthDb) : SameStarted db db := ⟨rfl, rfl, rfl, Nat.le_refl _, rfl⟩

theorem skipIds (s : SenderState) (count : Nat) : SameStarted s.db (s.skipIds count).db :=
  ⟨rfl, rfl, rfl, Nat.le_add_right _ _, rfl⟩

theorem storeSupplementTx (db : EthDb) (op : ETHOperation) (deadlineBlock : UInt64)
    (newTx : SignedCallResult) : SameStarted db (db.storeSupplementTx op deadlineBlock newTx) :=
  ⟨db.updateRow_keys op.id fun _ => rfl, rfl, rfl, Nat.le_refl _, rfl⟩

end SameStarted

/-- The database after the row of `ethOpId` was confirmed. -/
def confirmRow (db : EthDb) (ethOpId : EthOpId) (hash : List UInt8) : EthDb :=
  let db := db.updateRow ethOpId fun row => { row with confirmed := true, finalHash := some hash }
  { db with operations := db.operations.map fun row =>
    if db.boundOpId ethOpId = some row.id then { row with confirmed := true } else row }

theorem confirmEthTx_eq_ok {hash : List UInt8} : db.confirmEthTx hash = .ok db' ↔
    ∃ entry, db.ethTxHashes.find? (fun entry => entry.txHash = hash) = some entry ∧
      (∃ row ∈ db.ethOperations, row.id = entry.ethOpId) ∧ db' = db.confirmRow entry.ethOpId hash := by
  unfold confirmEthTx getEthOpId
  simp only [Outcome.bind_eq_ok, Outcome.okOrElse_eq_ok, Outcome.ensure_eq_ok, Outcome.pure_eq]
  constructor
  · rintro ⟨ethOpId, ⟨entry, hentry, hid⟩, _, hrow, h⟩
    cases hid
    cases h
    exact ⟨entry, hentry, hrow, rfl⟩
  · rintro ⟨entry, hentry, hrow, rfl⟩
    exact ⟨entry.ethOpId, ⟨entry, hentry, rfl⟩, (), hrow, rfl⟩

theorem SameStarted.confirmRow (db : EthDb) (ethOpId : EthOpId) (hash : List UInt8) :
    SameStarted db (db.confirmRow ethOpId hash) := by
  refine ⟨db.updateRow_keys ethOpId fun _ => rfl, rfl, ?_, Nat.le_refl _, rfl⟩
  show (db.operations.map _).map OperationRow.intoOp = _
  rw [List.map_map]
  refine List.map_congr_left fun row _ => ?_
  show OperationRow.intoOp (if _ then _ else row) = row.intoOp
  split
  · rfl
  · rfl

end EthDb

namespace SenderEnv

variable {env : SenderEnv} {s s' : SenderState} {tx : TxData} {op op' : ETHOperation}

/-- A hash of a signed transaction with the nonce. -/
def SignedWith (env : SenderEnv) (nonce : Nat) (newTx : SignedCallResult) : Prop :=
  newTx.nonce = nonce ∧ ∃ data options, newTx = env.signPreparedTx data options

/-! ## Starting -/

theorem storeOperation_eq_ok {db transaction : EthDb} {r : InitReplies} {newOp : ETHOperation}
    {signedTx : SignedCallResult}
    (h : env.storeOperation db tx r = .ok (newOp, signedTx, transaction)) :
    r.Stored ∧ (∀ op, tx.operation = some op → op.id ≠ none) ∧
      env.SignedWith db.ethParameters.nonce signedTx ∧ ∃ deadlineBlock gasPrice,
        newOp = startedOp db tx deadlineBlock gasPrice signedTx.hash ∧
        transaction = db.storeStarted tx deadlineBlock gasPrice signedTx.hash := by
  obtain ⟨currentBlock, hblock, h⟩ := Outcome.bind_eq_ok.mp h
  obtain ⟨deadlineBlock, -, h⟩ := Outcome.bind_eq_ok.mp h
  obtain ⟨gasPrice, hgas, h⟩ := Outcome.bind_eq_ok.mp h
  obtain ⟨_, hconnection, h⟩ := Outcome.bind_eq_ok.mp h
  obtain ⟨_, hstart, h⟩ := Outcome.bind_eq_ok.mp h
  obtain ⟨opId, hopId, h⟩ := Outcome.bind_eq_ok.mp h
  obtain ⟨_, hsave, h⟩ := Outcome.bind_eq_ok.mp h
  obtain ⟨signed, hsign, h⟩ := Outcome.bind_eq_ok.mp h
  obtain ⟨_, haddHash, h⟩ := Outcome.bind_eq_ok.mp h
  obtain ⟨gasLimit, -, hsign⟩ := Outcome.bind_eq_ok.mp hsign
  obtain ⟨_, -, hsign⟩ := Outcome.bind_eq_ok.mp hsign
  obtain ⟨_, hsigned, hsign⟩ := Outcome.bind_eq_ok.mp hsign
  obtain ⟨networkPrice, hprice, -⟩ := Outcome.bind_eq_ok.mp hgas
  have hid : opId = tx.operation.bind Operation.id ∧ ∀ op, tx.operation = some op → op.id ≠ none := by
    cases hop : tx.operation with
    | none =>
      rw [hop] at hopId
      cases hopId
      exact ⟨rfl, fun _ h => by cases h⟩
    | some operation =>
      rw [hop] at hopId
      obtain ⟨id, hexpect, hopId⟩ := Outcome.map_eq_ok.mp hopId
      rw [Outcome.expect_eq_ok] at hexpect
      subst hopId
      exact ⟨hexpect.symm, fun _ h => by cases h; rw [hexpect]; exact Option.some_ne_none _⟩
  cases hsign
  cases h
  refine ⟨⟨⟨currentBlock, await_eq_ok.mp hblock⟩, ⟨networkPrice, await_eq_ok.mp hprice⟩,
    await_eq_ok.mp hconnection, await_eq_ok.mp hstart, await_eq_ok.mp hsave, await_eq_ok.mp hsigned,
    await_eq_ok.mp haddHash⟩, hid.2, ⟨rfl, _, _, rfl⟩, deadlineBlock, gasPrice, rfl, ?_⟩
  rw [hid.1]
  rfl

/-- How `initialize_operation` ends. -/
inductive Initializes (env : SenderEnv) (s : SenderState) (tx : TxData) (r : InitReplies) :
    Outcome Unit → SenderState → Prop
  | failed (e : Failure) : Initializes env s tx r (.error e) (s.skipIds r.skippedIds)
  | uncommitted {newOp : ETHOperation} {signedTx : SignedCallResult} (e : Failure)
      (hstored : r.Stored) (hcommit : r.commit ≠ .ok ()) : Initializes env s tx r (.error e)
        (((s.pushOngoing tx newOp).sendTx newOp.id signedTx).skipIds 1)
  | started {signedTx : SignedCallResult} {deadlineBlock : UInt64} {gasPrice : Nat}
      (hid : ∀ op, tx.operation = some op → op.id ≠ none)
      (hsigned : env.SignedWith s.db.ethParameters.nonce signedTx) :
      Initializes env s tx r (.ok ()) {
        (s.pushOngoing tx (startedOp s.db tx deadlineBlock gasPrice signedTx.hash)).sendTx
          (s.db.ethOperationsIdSeq + 1) signedTx with
        db := s.db.storeStarted tx deadlineBlock gasPrice signedTx.hash }

theorem initializes (env : SenderEnv) (s : SenderState) (tx : TxData) (r : InitReplies) :
    Initializes env s tx r (env.initializeOperation s tx r).1 (env.initializeOperation s tx r).2 := by
  unfold initializeOperation
  split
  next e _ => exact .failed e
  next newOp signedTx transaction hstore =>
    obtain ⟨hstored, hid, hsigned, deadlineBlock, gasPrice, rfl, rfl⟩ := storeOperation_eq_ok hstore
    dsimp only
    split
    next => exact .started hid hsigned
    next message hcommit =>
      exact .uncommitted _ hstored (by rw [hcommit]; exact fun h => by cases h)

/-! ## Looking at an ongoing operation -/

theorem checkTransactions_committed {r : SiftReplies} {currentBlock : UInt64} {txHash : List UInt8}
    {idx : Nat} {hashes : List (List UInt8)}
    (h : env.checkTransactions op r currentBlock idx hashes = .ok (.committed txHash)) :
    txHash ∈ hashes := by
  induction hashes generalizing idx with
  | nil => cases h
  | cons hash hashes ih =>
    obtain ⟨outcome, -, h⟩ := Outcome.bind_eq_ok.mp h
    cases outcome with
    | Pending => cases h
    | Committed =>
      cases h
      exact List.mem_cons_self
    | Stuck => exact List.mem_cons_of_mem _ (ih h)
    | Failed => cases h

theorem createSupplementTx_eq_ok {deadlineBlock : UInt64} {r : SupplementReplies}
    {newTx : SignedCallResult}
    (h : env.createSupplementTx deadlineBlock op r = .ok (newTx, op')) :
    r.Created ∧ env.SignedWith op.nonce newTx ∧ op' = op.supplemented deadlineBlock newTx := by
  obtain ⟨txOptions, hoptions, h⟩ := Outcome.bind_eq_ok.mp h
  obtain ⟨_, hsign, h⟩ := Outcome.bind_eq_ok.mp h
  obtain ⟨gasPrice, hgas, hoptions⟩ := Outcome.bind_eq_ok.mp hoptions
  obtain ⟨gasLimit, -, hoptions⟩ := Outcome.bind_eq_ok.mp hoptions
  obtain ⟨_, -, hoptions⟩ := Outcome.bind_eq_ok.mp hoptions
  obtain ⟨networkPrice, hprice, -⟩ := Outcome.bind_eq_ok.mp hgas
  cases hoptions
  cases h
  exact ⟨⟨⟨networkPrice, await_eq_ok.mp hprice⟩, await_eq_ok.mp hsign⟩, ⟨rfl, _, _, rfl⟩, rfl⟩

theorem persistSupplementTx_cases (s : SenderState) (op : ETHOperation) (newTx : SignedCallResult)
    (r : SupplementReplies) :
    (∃ e, persistSupplementTx s op newTx r = (.error e, s) ∧ ¬ r.Persisted) ∨
      (∃ e, persistSupplementTx s op newTx r = (.error e, s.sendTx op.id newTx) ∧ ¬ r.Persisted) ∨
      persistSupplementTx s op newTx r = (.ok (), { s.sendTx op.id newTx with
        db := s.db.storeSupplementTx op op.lastDeadlineBlock newTx }) := by
  unfold persistSupplementTx
  split
  next e hbefore =>
    refine Or.inl ⟨e, rfl, fun hpersisted => ?_⟩
    obtain ⟨hconnection, hstart, hupdate, haddHash, -⟩ := hpersisted
    rw [hconnection, hstart, hupdate, haddHash] at hbefore
    cases hbefore
  next =>
    dsimp only
    split
    next e hafter =>
      refine Or.inr (Or.inl ⟨e, rfl, fun hpersisted => ?_⟩)
      obtain ⟨-, -, -, -, hsend, hcommit⟩ := hpersisted
      rw [hsend, hcommit] at hafter
      cases hafter
    next => exact Or.inr (Or.inr rfl)

/-- How `perform_commitment_step` ends. -/
inductive Performs (env : SenderEnv) (s : SenderState) (op : ETHOperation) (r : SiftReplies) :
    Outcome OperationCommitment → ETHOperation → SenderState → Prop
  /-- Nothing to do yet, or an error before anything was changed. -/
  | left {result : Outcome OperationCommitment} (hresult : result ≠ .ok .Committed) :
      Performs env s op r result op s
  | confirmed {txHash : List UInt8} {db : EthDb} (hmem : txHash ∈ op.usedTxHashes)
      (hconfirm : s.db.confirmEthTx txHash = .ok db) :
      Performs env s op r (.ok .Committed) op { s with db }
  /-- The operation in memory has a transaction that the database does not have. -/
  | unsent {newTx : SignedCallResult} {deadlineBlock : UInt64} (e : Failure)
      (hcreated : r.supplement.Created) (hfailed : ¬ r.supplement.Persisted) :
      Performs env s op r (.error e) (op.supplemented deadlineBlock newTx) s
  /-- That transaction was sent too. -/
  | uncommitted {newTx : SignedCallResult} {deadlineBlock : UInt64} (e : Failure)
      (hcreated : r.supplement.Created) (hfailed : ¬ r.supplement.Persisted)
      (hsigned : env.SignedWith op.nonce newTx) :
      Performs env s op r (.error e) (op.supplemented deadlineBlock newTx) (s.sendTx op.id newTx)
  | supplemented {newTx : SignedCallResult} {deadlineBlock : UInt64}
      (hsigned : env.SignedWith op.nonce newTx) :
      Performs env s op r (.ok .Pending) (op.supplemented deadlineBlock newTx)
        { s.sendTx op.id newTx with db := s.db.storeSupplementTx op deadlineBlock newTx }

theorem performs (env : SenderEnv) (s : SenderState) (op : ETHOperation) (r : SiftReplies) :
    Performs env s op r (env.performCommitmentStep s op r).1
      (env.performCommitmentStep s op r).2.1 (env.performCommitmentStep s op r).2.2 := by
  unfold performCommitmentStep
  split
  next => exact .left (fun h => by cases h)
  next => exact .left (fun h => by cases h)
  next _ currentBlock txHash hcheck =>
    obtain ⟨_, -, hcheck⟩ := Outcome.bind_eq_ok.mp hcheck
    obtain ⟨_, -, hcheck⟩ := Outcome.bind_eq_ok.mp hcheck
    obtain ⟨checked, hchecked, hcheck⟩ := Outcome.bind_eq_ok.mp hcheck
    cases hcheck
    split
    next => exact .left (fun h => by cases h)
    next db hconfirm =>
      obtain ⟨_, -, hconfirm⟩ := Outcome.bind_eq_ok.mp hconfirm
      obtain ⟨db', hdb, hconfirm⟩ := Outcome.bind_eq_ok.mp hconfirm
      obtain ⟨_, -, hconfirm⟩ := Outcome.bind_eq_ok.mp hconfirm
      cases hconfirm
      exact .confirmed (checkTransactions_committed hchecked) hdb
  next _ currentBlock _ =>
    split
    next => exact .left (fun h => by cases h)
    next newTx op' hcreate =>
      obtain ⟨deadlineBlock, -, hcreate⟩ := Outcome.bind_eq_ok.mp hcreate
      obtain ⟨hcreated, hsigned, rfl⟩ := createSupplementTx_eq_ok hcreate
      rcases persistSupplementTx_cases s (op.supplemented deadlineBlock newTx) newTx r.supplement with
        ⟨e, hresult, hfailed⟩ | ⟨e, hresult, hfailed⟩ | hresult
      · rw [hresult]
        exact .unsent e hcreated hfailed
      · rw [hresult]
        exact .uncommitted e hcreated hfailed hsigned
      · rw [hresult]
        exact .supplemented hsigned

/-- What every way to end has in common: the operation keeps its id and nonce, a
transaction that is sent has them, and nothing is started. -/
theorem Performs.frame {r : SiftReplies} {result : Outcome OperationCommitment}
    (h : Performs env s op r result op' s') :
    op'.key = op.key ∧ s'.sender = s.sender ∧ s'.phase = s.phase ∧ s.db.SameStarted s'.db ∧
      ∃ sent, s'.history = { s.history with sent := s.history.sent ++ sent } ∧
        ∀ e ∈ sent, (e.1, e.2.nonce) = op.key := by
  have hnone : s.history = { s.history with sent := s.history.sent ++ [] } := by
    rw [List.append_nil]
  have hone : ∀ newTx : SignedCallResult, env.SignedWith op.nonce newTx →
      ∀ e ∈ [(op.id, newTx)], (e.1, e.2.nonce) = op.key := by
    intro newTx hsigned e he
    rw [List.mem_singleton.mp he, hsigned.1]
    rfl
  cases h with
  | left => exact ⟨rfl, rfl, rfl, .refl _, [], hnone, fun _ h => absurd h List.not_mem_nil⟩
  | confirmed _ hconfirm =>
    obtain ⟨entry, -, -, rfl⟩ := EthDb.confirmEthTx_eq_ok.mp hconfirm
    exact ⟨rfl, rfl, rfl, .confirmRow _ _ _, [], hnone, fun _ h => absurd h List.not_mem_nil⟩
  | unsent => exact ⟨rfl, rfl, rfl, .refl _, [], hnone, fun _ h => absurd h List.not_mem_nil⟩
  | uncommitted _ _ _ hsigned => exact ⟨rfl, rfl, rfl, .refl _, _, rfl, hone _ hsigned⟩
  | supplemented hsigned =>
    exact ⟨rfl, rfl, rfl, .storeSupplementTx _ _ _ _, _, rfl, hone _ hsigned⟩

/-! ## Filling the queue -/

/-- What `add_operation_to_queue` does: nothing, or it adds the operation, which then
has no block in common with an operation that waits. -/
theorem addOperationToQueue_cases {q q' : TxQueue} {operation : Operation} {added : Option TxData}
    (h : env.addOperationToQueue q operation = .ok (added, q')) :
    added = none ∧ q' = q ∨ ∃ tx, added = some tx ∧ tx.operation = some operation ∧
      (operation.action = .Commit ∧ tx.opType = .Commit ∧
          q.commitOperationExists operation.block.blockNumber = .ok false ∧
          q' = q.addCommitOperation tx ∨
        operation.action ≠ .Commit ∧ tx.opType = .Verify ∧
          q.verifyOperations.elements.lookup operation.block.blockNumber.toNat = none ∧
          q.addVerifyOperation operation.block.blockNumber.toNat tx = .ok q') := by
  obtain ⟨rawTx, -, h⟩ := Outcome.bind_eq_ok.mp h
  dsimp only at h
  split at h
  next haction =>
    obtain ⟨found, hfound, h⟩ := Outcome.bind_eq_ok.mp h
    cases found with
    | true =>
      cases h
      exact Or.inl ⟨rfl, rfl⟩
    | false =>
      cases h
      exact Or.inr ⟨_, rfl, rfl, Or.inl ⟨haction, rfl, hfound, rfl⟩⟩
  next proof haction =>
    have hne : operation.action ≠ .Commit := by
      rw [haction]
      exact fun h => by cases h
    split at h
    next =>
      cases h
      exact Or.inl ⟨rfl, rfl⟩
    next hfound =>
      obtain ⟨q₁, hadd, h⟩ := Outcome.bind_eq_ok.mp h
      cases h
      refine Or.inr ⟨_, rfl, rfl, Or.inr ⟨hne, rfl, ?_, hadd⟩⟩
      unfold TxQueue.verifyOperationExists at hfound
      simpa using hfound

end SenderEnv

/-! ## The steps of the loop -/

inductive SenderMoves (env : SenderEnv) (s : SenderState) : SenderEvent → SenderState → Prop
  | store {id : Int} {action : Action} {block : Block} (hnew : ∀ row ∈ s.db.operations, row.id < id) :
      SenderMoves env s (.store id action block)
        { s with db := { s.db with operations := s.db.operations ++ [⟨id, action, block, false⟩] } }
  | loadNewOperations {connection load : Except String Unit} {s₁ : SenderState}
      (hphase : s.phase = .idle) (hload : env.loadNewOperations s connection load = .ok s₁) :
      SenderMoves env s (.loadNewOperations connection load)
        { s₁ with phase := if env.options.isEnabled then .starting else .idle }
  | startNext {r : InitReplies} {tx : TxData} {txQueue : TxQueue} {s' : SenderState}
      (hphase : s.phase = .starting) (hpop : s.sender.txQueue.popFront = (some tx, txQueue))
      (hstart : env.startNext { s with sender := { s.sender with txQueue } } tx r = .ok s') :
      SenderMoves env s (.startNext r) s'
  | startSifting (hphase : s.phase = .starting) (hpop : s.sender.txQueue.popFront.1 = none) :
      SenderMoves env s .startSifting { s with phase := .sifting [] }
  | siftNext {r : SiftReplies} {newOngoingOps ongoingOps : List ETHOperation}
      {currentOp : ETHOperation} {s' : SenderState} (hphase : s.phase = .sifting newOngoingOps)
      (hongoing : s.sender.ongoingOps = currentOp :: ongoingOps)
      (hsift : env.siftNext { s with sender := { s.sender with ongoingOps } } newOngoingOps
        currentOp r = .ok s') : SenderMoves env s (.siftNext r) s'
  | finish {newOngoingOps : List ETHOperation} (hphase : s.phase = .sifting newOngoingOps)
      (hongoing : s.sender.ongoingOps = []) : SenderMoves env s .finish
        { s with sender := { s.sender with ongoingOps := newOngoingOps }, phase := .idle }
  | restart {s' : SenderState} (hrestart : env.restart s = .ok s') : SenderMoves env s .restart s'

theorem SenderStep.moves {env : SenderEnv} {s s' : SenderState} {e : SenderEvent}
    (h : SenderStep env s e s') : SenderMoves env s e s' := by
  unfold SenderStep at h
  cases e with
  | store id action block =>
    dsimp only [SenderEnv.next] at h
    split at h
    next hnew =>
      cases h
      exact .store hnew
    next => cases h
  | loadNewOperations connection load =>
    dsimp only [SenderEnv.next] at h
    split at h
    next hphase =>
      obtain ⟨s₁, hload, rfl⟩ := Option.map_eq_some_iff.mp h
      exact .loadNewOperations hphase (Outcome.toOption_eq_some.mp hload)
    next => cases h
  | startNext r =>
    dsimp only [SenderEnv.next] at h
    split at h
    next tx q hphase hpop => exact .startNext hphase hpop (Outcome.toOption_eq_some.mp h)
    next => cases h
  | startSifting =>
    dsimp only [SenderEnv.next] at h
    split at h
    next q hphase hpop =>
      cases h
      exact .startSifting hphase (congrArg Prod.fst hpop)
    next => cases h
  | siftNext r =>
    dsimp only [SenderEnv.next] at h
    split at h
    next newOngoingOps currentOp ongoingOps hphase hongoing =>
      exact .siftNext hphase hongoing (Outcome.toOption_eq_some.mp h)
    next => cases h
  | finish =>
    dsimp only [SenderEnv.next] at h
    split at h
    next newOngoingOps hphase hongoing =>
      cases h
      exact .finish hphase hongoing
    next => cases h
  | restart => exact .restart (Outcome.toOption_eq_some.mp h)

end ZkSync
