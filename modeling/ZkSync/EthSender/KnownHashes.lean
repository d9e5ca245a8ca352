import ZkSync.EthSender.StartedOnce

/-!
# Every hash is in the database

An ongoing operation in memory is what the database stores for it, so the hashes of all
its transactions can be confirmed, and a restart would find the same operations
(`hashes_known`). Three kinds of steps break this: a commit of `initialize_operation`
that fails, since the operation is ongoing and sent by then; an error after
`create_supplement_tx`, since the transaction is in the operation by then
(`hash_not_known`); and a restart itself, which reads a gas price of two digits or more
as a hexadecimal number (`u256FromStr_eq_self_iff`).
-/

namespace ZkSync

/-- The decimal digits of a number are its hexadecimal ones only if there is one. -/
theorem u256FromStr_eq_self_iff {n : Nat} : u256FromStr n = .ok n ↔ n < 10 := by
  unfold u256FromStr
  rw [Outcome.bind_eq_ok]
  constructor
  · rintro ⟨_, -, h⟩
    by_contra hlt
    have hn : n ≠ 0 := by omega
    have hdigits : Nat.ofDigits 16 (Nat.digits 10 n) = n := Except.ok.inj h
    have hmono : Nat.ofDigits 10 (Nat.digits 10 (n / 10)) ≤ Nat.ofDigits 16 (Nat.digits 10 (n / 10)) :=
      Nat.ofDigits_monotone _ (by decide)
    rw [Nat.ofDigits_digits] at hmono
    rw [Nat.digits_def' (by decide) (Nat.pos_of_ne_zero hn), Nat.ofDigits_cons] at hdigits
    have := Nat.mod_add_div n 10
    omega
  · intro h
    have hdigits : Nat.digits 10 n = if n = 0 then [] else [n] := by
      split
      next h0 => rw [h0, Nat.digits_zero]
      next h0 => exact Nat.digits_of_lt 10 n h0 h
    refine ⟨(), ?_, ?_⟩
    · rw [Outcome.assert_eq_ok, hdigits]
      split
      next => exact Nat.zero_le _
      next => exact Nat.le_of_ble_eq_true rfl
    · rw [hdigits]
      split
      next h0 => rw [h0]; rfl
      next => exact congrArg Except.ok Nat.ofDigits_singleton

/-! ## The statement -/

/-- What the database stores of an Ethereum operation. -/
def EthDb.storedOperation (db : EthDb) (row : StorageETHOperation) : ETHOperation where
  id := row.id
  opType := row.opType
  op := db.boundOperation row.id
  nonce := row.nonce
  lastDeadlineBlock := row.lastDeadlineBlock.toUInt64
  lastUsedGasPrice := row.lastUsedGasPrice
  usedTxHashes := db.hashesOf row.id
  encodedTxData := row.rawTx
  confirmed := row.confirmed
  finalHash := row.finalHash

/-- The stored operations that are not confirmed, in the order of their ids. -/
def EthDb.unconfirmed (db : EthDb) : List StorageETHOperation :=
  db.ethOperations.filter fun row => row.confirmed = false

/-- Every hash that Ethereum was sent is stored with the operation it was sent for. -/
structure HashesKnown (s : SenderState) : Prop where
  /-- The ongoing operations are equal to their stored forms. -/
  stored : s.db.unconfirmed.map s.db.storedOperation = s.inFlight
  /-- What was sent is in the database. -/
  sent : ∀ e ∈ s.history.sent, ⟨e.1, e.2.hash⟩ ∈ s.db.ethTxHashes
  /-- A hash of an ongoing operation can be confirmed, and confirms this operation. -/
  confirmable : ∀ op ∈ s.inFlight, ∀ hash ∈ op.usedTxHashes,
    s.db.confirmEthTx hash = .ok (s.db.confirmRow op.id hash)

/-- Transactions with different nonces have different hashes. -/
def SenderEnv.HashesDistinct (env : SenderEnv) : Prop :=
  ∀ (data data' : List UInt8) (options options' : TxOptions),
    (env.signPreparedTx data options).hash = (env.signPreparedTx data' options').hash →
      options.nonce = options'.nonce

/-- No step of the kinds that lose a hash. -/
def SenderState.KeepsHashes (s : SenderState) : SenderEvent → Prop
  | .startNext r => r.Commits
  | .siftNext r => r.supplement.Created → r.supplement.Persisted
  | .restart => ∀ row ∈ s.db.unconfirmed, row.lastUsedGasPrice < 10
  | _ => True

/-! ## The operation of a row -/

section Rows

variable {db db' : EthDb} {started : List StartedTx}

/-- What was started are stored operations. -/
def StartedStored (db : EthDb) (started : List StartedTx) : Prop :=
  ∀ st ∈ started, ∀ op, st.tx.operation = some op → op ∈ db.operations.map OperationRow.intoOp

/-- A row belongs to an operation that was started. -/
theorem Recorded.started_of_row (h : Recorded db started) {row : StorageETHOperation}
    (hrow : row ∈ db.ethOperations) : ∃ st ∈ started, st.ethOpId = row.id ∧ st.nonce = row.nonce := by
  have hmem : row.key ∈ started.map StartedTx.key := h.rows ▸ List.mem_map_of_mem hrow
  obtain ⟨st, hst, hkey⟩ := List.mem_map.mp hmem
  exact ⟨st, hst, (Prod.mk.inj hkey).1, (Prod.mk.inj hkey).2⟩

theorem Recorded.boundOpId (h : Recorded db started) {st : StartedTx} (hst : st ∈ started) :
    db.boundOpId st.ethOpId = st.tx.opId := by
  unfold EthDb.boundOpId
  cases hfind : db.ethOpsBinding.find? fun binding => binding.ethOpId = st.ethOpId with
  | none =>
    cases hop : st.tx.opId with
    | none => rfl
    | some opId =>
      have hmem : ⟨opId, st.ethOpId⟩ ∈ db.ethOpsBinding := by
        rw [h.bindings]
        refine List.mem_filterMap.mpr ⟨st, hst, ?_⟩
        unfold StartedTx.binding
        rw [hop]
        rfl
      have := List.find?_eq_none.mp hfind _ hmem
      simp at this
  | some binding =>
    have hid : binding.ethOpId = st.ethOpId := by simpa using List.find?_some hfind
    have hmem := List.mem_of_find?_eq_some hfind
    rw [h.bindings] at hmem
    obtain ⟨st', hst', hbinding⟩ := List.mem_filterMap.mp hmem
    obtain ⟨opId, hop, rfl⟩ := Option.map_eq_some_iff.mp hbinding
    obtain rfl := List.inj_on_of_nodup_map h.ids hst' hst hid
    exact hop.symm

/-- The row of what was started leads to its operation. -/
theorem Recorded.boundOperation (h : Recorded db started) (hstored : StartedStored db started)
    (st : StartedTx) (hst : st ∈ started) : db.boundOperation st.ethOpId = st.tx.operation := by
  unfold EthDb.boundOperation
  rw [h.boundOpId hst]
  cases hop : st.tx.operation with
  | none =>
    unfold TxData.opId
    rw [hop]
    rfl
  | some op =>
    obtain ⟨row, hrow, rfl⟩ := List.mem_map.mp (hstored st hst op hop)
    rw [opId_of_operation hop]
    show (db.operations.find? fun row' => row'.id = row.id).bind _ = _
    cases hfind : db.operations.find? fun row' => row'.id = row.id with
    | none =>
      have := List.find?_eq_none.mp hfind row hrow
      simp at this
    | some row' =>
      have hid : row'.id = row.id := by simpa using List.find?_some hfind
      have hmem := List.mem_of_find?_eq_some hfind
      exact congrArg some (List.inj_on_of_nodup_map h.operations (List.mem_map_of_mem hmem)
        (List.mem_map_of_mem hrow) (congrArg some hid))

/-- What is bound to a row does not change. -/
theorem Recorded.boundOperation_eq (h : Recorded db started) (hstored : StartedStored db started)
    {started' : List StartedTx} (h' : Recorded db' started') (hstored' : StartedStored db' started')
    (hsub : started ⊆ started') {row : StorageETHOperation} (hrow : row ∈ db.ethOperations) :
    db'.boundOperation row.id = db.boundOperation row.id := by
  obtain ⟨st, hst, hid, -⟩ := h.started_of_row hrow
  rw [← hid, h.boundOperation hstored _ hst, h'.boundOperation hstored' _ (hsub hst)]

/-- A stored operation depends on its rows only. -/
theorem EthDb.storedOperation_congr {row : StorageETHOperation}
    (hbound : db'.boundOperation row.id = db.boundOperation row.id)
    (hhashes : db'.hashesOf row.id = db.hashesOf row.id) :
    db'.storedOperation row = db.storedOperation row := by
  unfold storedOperation
  rw [hbound, hhashes]

/-- A hash more is a hash of its own operation. -/
theorem EthDb.hashesOf_append {entries : List ETHTxHash} (entry : ETHTxHash)
    (h : db'.ethTxHashes = entries ++ [entry]) (hdb : db.ethTxHashes = entries) (ethOpId : EthOpId) :
    db'.hashesOf ethOpId =
      db.hashesOf ethOpId ++ if entry.ethOpId = ethOpId then [entry.txHash] else [] := by
  unfold hashesOf
  rw [h, hdb, List.filter_append, List.map_append]
  refine congrArg _ ?_
  by_cases hid : entry.ethOpId = ethOpId
  · rw [if_pos hid, List.filter_singleton, decide_eq_true hid]
    rfl
  · rw [if_neg hid, List.filter_singleton, decide_eq_false hid]
    rfl

/-- The row that is confirmed leaves the unconfirmed ones. -/
theorem EthDb.unconfirmed_confirmRow (db : EthDb) (ethOpId : EthOpId) (hash : List UInt8) :
    (db.confirmRow ethOpId hash).unconfirmed = db.unconfirmed.filter fun row => row.id ≠ ethOpId := by
  show ((db.ethOperations.map fun row => if row.id = ethOpId then
    { row with confirmed := true, finalHash := some hash } else row).filter fun row =>
      row.confirmed = false) = (db.ethOperations.filter fun row => row.confirmed = false).filter _
  induction db.ethOperations with
  | nil => rfl
  | cons row rows ih =>
    rw [List.map_cons, List.filter_cons, List.filter_cons, ih]
    by_cases hid : row.id = ethOpId
    · cases row.confirmed <;> simp [hid]
    · cases hconfirmed : row.confirmed <;> simp [hid, hconfirmed]

/-- Updating a row leaves the others. -/
theorem EthDb.unconfirmed_updateRow (db : EthDb) (ethOpId : EthOpId)
    {f : StorageETHOperation → StorageETHOperation} (hf : ∀ row, (f row).confirmed = row.confirmed) :
    (db.updateRow ethOpId f).unconfirmed =
      db.unconfirmed.map fun row => if row.id = ethOpId then f row else row := by
  show (db.ethOperations.map fun row => if row.id = ethOpId then f row else row).filter _ = _
  rw [List.filter_map]
  refine congrArg (List.map _) (List.filter_congr fun row _ => ?_)
  show decide ((if row.id = ethOpId then f row else row).confirmed = false) = _
  split
  · rw [hf]
  · rfl

end Rows

/-- The operations before and after one of them have other ids. -/
theorem ne_id_of_nodup {front back : List ETHOperation} {op : ETHOperation}
    (h : ((front ++ op :: back).map ETHOperation.id).Nodup) :
    ∀ op' ∈ front ++ back, op'.id ≠ op.id := by
  have hperm : ((front ++ op :: back).map ETHOperation.id).Perm
      ((op :: (front ++ back)).map ETHOperation.id) := List.perm_middle.map _
  have hnot := (List.nodup_cons.mp (hperm.nodup_iff.mp h)).1
  exact fun op' hop' heq => hnot (heq ▸ List.mem_map_of_mem hop')

/-! ## The invariant -/

/-- The tables and what was sent agree, and the operations in flight are those of the tables. -/
structure KnownOk (env : SenderEnv) (s : SenderState) : Prop where
  ok : EthSenderOk s
  stored : s.db.unconfirmed.map s.db.storedOperation = s.inFlight
  sent : ∀ e ∈ s.history.sent, ⟨e.1, e.2.hash⟩ ∈ s.db.ethTxHashes
  /-- The hashes are of transactions with the nonce of their operation. -/
  hashes : ∀ entry ∈ s.db.ethTxHashes, ∃ st ∈ s.history.started, st.ethOpId = entry.ethOpId ∧
    ∃ newTx, env.SignedWith st.nonce newTx ∧ newTx.hash = entry.txHash

namespace KnownOk

variable {env : SenderEnv} {s s' : SenderState}

/-- Nothing was sent at the start. -/
theorem first (env : SenderEnv) (nonce : Nat) : KnownOk env (.first env nonce) where
  ok := .first env nonce
  stored := rfl
  sent := fun _ h => absurd h List.not_mem_nil
  hashes := fun _ h => absurd h List.not_mem_nil

theorem startedStored (h : EthSenderOk s) : StartedStored s.db s.history.started :=
  fun st hst => h.queue.known st.tx (h.queue.mem_added.mpr (Or.inr (List.mem_map_of_mem hst)))

/-- An operation in flight has its row. -/
theorem row_of_op (h : KnownOk env s) {op : ETHOperation} (hop : op ∈ s.inFlight) :
    ∃ row ∈ s.db.ethOperations, s.db.storedOperation row = op := by
  rw [← h.stored] at hop
  obtain ⟨row, hrow, hstored⟩ := List.mem_map.mp hop
  exact ⟨row, (List.mem_filter.mp hrow).1, hstored⟩

/-- A hash of an ongoing operation is found, and no other operation has it. -/
theorem confirmable (h : KnownOk env s) (hdistinct : env.HashesDistinct) {op : ETHOperation}
    (hop : op ∈ s.inFlight) {hash : List UInt8} (hhash : hash ∈ op.usedTxHashes) :
    s.db.confirmEthTx hash = .ok (s.db.confirmRow op.id hash) := by
  obtain ⟨row, hrow, rfl⟩ := h.row_of_op hop
  have hentry : ⟨row.id, hash⟩ ∈ s.db.ethTxHashes := by
    obtain ⟨entry, hentry, rfl⟩ := List.mem_map.mp hhash
    obtain ⟨hmem, hid⟩ := List.mem_filter.mp hentry
    rw [← (show entry.ethOpId = row.id from by simpa using hid)]
    exact hmem
  rw [EthDb.confirmEthTx_eq_ok]
  cases hfind : s.db.ethTxHashes.find? fun entry => entry.txHash = hash with
  | none =>
    have := List.find?_eq_none.mp hfind _ hentry
    simp at this
  | some entry =>
    have hsame : entry.txHash = hash := by simpa using List.find?_some hfind
    obtain ⟨st, hst, hid, newTx, ⟨hnonce, data, options, rfl⟩, htx⟩ := h.hashes _ hentry
    obtain ⟨st', hst', hid', newTx', ⟨hnonce', data', options', rfl⟩, htx'⟩ :=
      h.hashes entry (List.mem_of_find?_eq_some hfind)
    have hnonces : st.nonce = st'.nonce := by
      rw [← hnonce, ← hnonce']
      exact hdistinct data data' options options' (by rw [htx, htx', hsame])
    have hst_eq : st = st' := List.inj_on_of_nodup_map h.ok.recorded.nonces hst hst' hnonces
    have hentryId : entry.ethOpId = row.id := by
      rw [← hid', ← hst_eq]
      exact hid
    exact ⟨entry, rfl, ⟨row, hrow, hentryId.symm⟩, by rw [hentryId]; rfl⟩

/-- Under the invariant every hash is known. -/
theorem known (h : KnownOk env s) (hdistinct : env.HashesDistinct) : HashesKnown s :=
  ⟨h.stored, h.sent, fun _ hop _ hhash => h.confirmable hdistinct hop hhash⟩

/-- The ids of the ongoing operations are distinct. -/
theorem ids (h : KnownOk env s) : (s.inFlight.map ETHOperation.id).Nodup := by
  have hrows : (s.db.ethOperations.map StorageETHOperation.id).Nodup := by
    have hkeys := congrArg (List.map Prod.fst) h.ok.recorded.rows
    rw [List.map_map, List.map_map] at hkeys
    have := h.ok.recorded.ids
    rw [show StartedTx.ethOpId = Prod.fst ∘ StartedTx.key from rfl, ← hkeys] at this
    exact this
  rw [← h.stored, List.map_map]
  exact hrows.sublist (List.filter_sublist.map _)

/-- A step that leaves the rows and hashes as they are. -/
theorem same (h : KnownOk env s) (hok : EthSenderOk s')
    (hstarted : s'.history.started = s.history.started)
    (hrows : s'.db.ethOperations = s.db.ethOperations)
    (hhashes : s'.db.ethTxHashes = s.db.ethTxHashes) (hsent : s'.history.sent = s.history.sent)
    (hinFlight : s'.inFlight = s.inFlight) : KnownOk env s' := by
  refine ⟨hok, ?_, ?_, ?_⟩
  · rw [hinFlight, ← h.stored]
    unfold EthDb.unconfirmed
    rw [hrows]
    refine List.map_congr_left fun row hrow => EthDb.storedOperation_congr ?_ ?_
    · refine h.ok.recorded.boundOperation_eq (startedStored h.ok) hok.recorded (startedStored hok)
        ?_ (List.mem_filter.mp hrow).1
      rw [hstarted]
      exact fun _ h => h
    · unfold EthDb.hashesOf
      rw [hhashes]
  · rw [hsent, hhashes]
    exact h.sent
  · rw [hhashes, hstarted]
    exact h.hashes

/-- Starting an operation stores its first hash before it is sent. -/
theorem startNext (h : KnownOk env s) (hphase : s.phase = .starting) {tx : TxData} {q : TxQueue}
    (hyields : Yields s.sender.txQueue tx q) {r : InitReplies} (hcommit : r.Commits)
    (hstart : env.startNext { s with sender := { s.sender with txQueue := q } } tx r = .ok s') :
    KnownOk env s' := by
  have hok := h.ok.startNext hphase hyields hcommit hstart
  -- the operation was not stored and is queued again, or it was stored
  rcases EthSenderOk.startNext_cases h.ok.queue.sorted hyields hcommit hstart with
    rfl | ⟨signedTx, deadlineBlock, gasPrice, hsigned, rfl⟩
  · exact h.same hok rfl rfl rfl rfl rfl
  -- the id of the new row is above all others
  have hbelow : ∀ st ∈ s.history.started, st.ethOpId ≠ s.db.ethOperationsIdSeq + 1 := by
    intro st hst
    have := (h.ok.recorded.below _ (List.mem_map_of_mem hst)).1
    exact Nat.ne_of_lt (Nat.lt_succ_of_le this)
  refine ⟨hok, ?_, ?_, ?_⟩
  · -- the old operations are as they were, and the new one is the new row
    have hinFlight : s.inFlight = s.sender.ongoingOps := by
      unfold SenderState.inFlight
      rw [hphase]
    have hunconfirmed : (s.db.storeStarted tx deadlineBlock gasPrice signedTx.hash).unconfirmed =
        s.db.unconfirmed ++ [⟨s.db.ethOperationsIdSeq + 1, s.db.ethParameters.nonce, false, tx.raw,
          tx.opType, none, deadlineBlock.toInt64, gasPrice⟩] := by
      show (s.db.ethOperations ++ [_]).filter _ = _
      rw [List.filter_append]
      rfl
    have hhashes : ∀ ethOpId, (s.db.storeStarted tx deadlineBlock gasPrice signedTx.hash).hashesOf
        ethOpId = s.db.hashesOf ethOpId ++
          if s.db.ethOperationsIdSeq + 1 = ethOpId then [signedTx.hash] else [] :=
      EthDb.hashesOf_append ⟨s.db.ethOperationsIdSeq + 1, signedTx.hash⟩ rfl rfl
    have hsub : s.history.started ⊆ s.history.started ++
        [⟨tx, s.db.ethOperationsIdSeq + 1, s.db.ethParameters.nonce⟩] :=
      fun _ h => List.mem_append_left _ h
    have hnew : s.db.hashesOf (s.db.ethOperationsIdSeq + 1) = [] := by
      unfold EthDb.hashesOf
      rw [List.map_eq_nil_iff, List.filter_eq_nil_iff]
      intro entry hentry hid
      obtain ⟨st, hst, hst', -⟩ := h.hashes entry hentry
      exact hbelow st hst (hst'.trans (by simpa using hid))
    unfold SenderState.inFlight
    dsimp only [SenderState.sendTx, SenderState.pushOngoing]
    rw [hphase]
    dsimp only
    rw [hunconfirmed, List.map_append, ← hinFlight, ← h.stored]
    refine congrArg₂ (· ++ ·) (List.map_congr_left fun row hrow => ?_) (congrArg (· :: []) ?_)
    · have hmem := (List.mem_filter.mp hrow).1
      obtain ⟨st, hst, hid, -⟩ := h.ok.recorded.started_of_row hmem
      refine EthDb.storedOperation_congr ?_ ?_
      · exact h.ok.recorded.boundOperation_eq (startedStored h.ok) hok.recorded
          (startedStored hok) hsub hmem
      · rw [hhashes, if_neg fun heq => hbelow st hst (hid.trans heq.symm), List.append_nil]
    · have hbound := hok.recorded.boundOperation (startedStored hok)
        ⟨tx, s.db.ethOperationsIdSeq + 1, s.db.ethParameters.nonce⟩
        (List.mem_append_right _ List.mem_cons_self)
      unfold EthDb.storedOperation startedOp
      dsimp only at hbound ⊢
      rw [hbound, hhashes, if_pos rfl, hnew, UInt64.toUInt64_toInt64]
      rfl
  · intro e he
    rcases List.mem_append.mp he with he | he
    · exact List.mem_append_left _ (h.sent e he)
    · rw [List.mem_singleton.mp he]
      exact List.mem_append_right _ List.mem_cons_self
  · intro entry hentry
    rcases List.mem_append.mp hentry with hentry | hentry
    · obtain ⟨st, hst, hrest⟩ := h.hashes entry hentry
      exact ⟨st, List.mem_append_left _ hst, hrest⟩
    · rw [List.mem_singleton.mp hentry]
      exact ⟨_, List.mem_append_right _ List.mem_cons_self, rfl, signedTx, hsigned, rfl⟩

/-- The operation that is confirmed is no longer among the unconfirmed ones. -/
theorem stored_confirmRow (h : KnownOk env s) {front back : List ETHOperation} {op : ETHOperation}
    (hinFlight : s.inFlight = front ++ op :: back) (hash : List UInt8)
    (hok : EthSenderOk s') (hdb : s'.db = s.db.confirmRow op.id hash)
    (hstarted : s'.history.started = s.history.started) :
    s'.db.unconfirmed.map s'.db.storedOperation = front ++ back := by
  have hne := ne_id_of_nodup (hinFlight ▸ h.ids)
  have hstored : ∀ row ∈ s.db.unconfirmed.filter fun row => row.id ≠ op.id,
      s'.db.storedOperation row = s.db.storedOperation row := by
    intro row hrow
    have hmem := (List.mem_filter.mp (List.mem_filter.mp hrow).1).1
    refine EthDb.storedOperation_congr ?_ (by rw [hdb]; rfl)
    refine h.ok.recorded.boundOperation_eq (startedStored h.ok) hok.recorded (startedStored hok)
      ?_ hmem
    rw [hstarted]
    exact fun _ h => h
  have hfilter : (s.db.unconfirmed.filter fun row => row.id ≠ op.id).map s.db.storedOperation =
      s.inFlight.filter fun op' => op'.id ≠ op.id := by
    rw [← h.stored, List.filter_map]
    rfl
  rw [show s'.db.unconfirmed = _ from hdb ▸ EthDb.unconfirmed_confirmRow _ _ _,
    List.map_congr_left hstored, hfilter, hinFlight, List.filter_append, List.filter_cons,
    if_neg (by simp), ← List.filter_append]
  exact List.filter_eq_self.mpr fun op' hop' => decide_eq_true (hne op' hop')

/-- A supplement transaction is in the operation and in its row. -/
theorem stored_supplementTx (h : KnownOk env s) {front back : List ETHOperation} {op : ETHOperation}
    (hinFlight : s.inFlight = front ++ op :: back) (deadlineBlock : UInt64)
    (newTx : SignedCallResult) (hok : EthSenderOk s')
    (hdb : s'.db = s.db.storeSupplementTx op deadlineBlock newTx)
    (hstarted : s'.history.started = s.history.started) :
    s'.db.unconfirmed.map s'.db.storedOperation =
      front ++ op.supplemented deadlineBlock newTx :: back := by
  have hne := ne_id_of_nodup (hinFlight ▸ h.ids)
  have hhashes : ∀ ethOpId, s'.db.hashesOf ethOpId = s.db.hashesOf ethOpId ++
      if op.id = ethOpId then [newTx.hash] else [] := by
    rw [hdb]
    exact EthDb.hashesOf_append ⟨op.id, newTx.hash⟩ rfl rfl
  -- the round touches one row, and adds its hash
  have hunconfirmed : s'.db.unconfirmed = s.db.unconfirmed.map fun row => if row.id = op.id then
      { row with lastUsedGasPrice := newTx.gasPrice, lastDeadlineBlock := deadlineBlock.toInt64 }
      else row := by
    rw [hdb]
    exact s.db.unconfirmed_updateRow op.id fun _ => rfl
  have hstored : ∀ row ∈ s.db.unconfirmed, s'.db.storedOperation (if row.id = op.id then
      { row with lastUsedGasPrice := newTx.gasPrice, lastDeadlineBlock := deadlineBlock.toInt64 }
      else row) = (fun op' : ETHOperation => if op'.id = op.id then
        op'.supplemented deadlineBlock newTx else op') (s.db.storedOperation row) := by
    intro row hrow
    have hbound : s'.db.boundOperation row.id = s.db.boundOperation row.id := by
      refine h.ok.recorded.boundOperation_eq (startedStored h.ok) hok.recorded (startedStored hok)
        ?_ (List.mem_filter.mp hrow).1
      rw [hstarted]
      exact fun _ h => h
    dsimp only [EthDb.storedOperation, ETHOperation.supplemented]
    by_cases hid : row.id = op.id
    · rw [if_pos hid, if_pos hid]
      dsimp only
      rw [hbound, hhashes, if_pos hid.symm, UInt64.toUInt64_toInt64]
    · rw [if_neg hid, if_neg hid, hbound, hhashes, if_neg (Ne.symm hid), List.append_nil]
  rw [hunconfirmed, List.map_map]
  refine (List.map_congr_left hstored).trans ?_
  show List.map ((fun op' : ETHOperation => if op'.id = op.id then
    op'.supplemented deadlineBlock newTx else op') ∘ s.db.storedOperation) s.db.unconfirmed = _
  rw [← List.map_map, h.stored, hinFlight, List.map_append, List.map_cons,
    if_pos rfl]
  -- the other operations in flight are those of other rows
  have hsame : ∀ ops : List ETHOperation, (∀ op' ∈ ops, op'.id ≠ op.id) →
      ops.map (fun op' => if op'.id = op.id then op'.supplemented deadlineBlock newTx else op') = ops := by
    intro ops hops
    refine (List.map_congr_left fun op' hop' => if_neg (hops op' hop')).trans (List.map_id ops)
  rw [hsame front fun op' h => hne op' (List.mem_append_left _ h),
    hsame back fun op' h => hne op' (List.mem_append_right _ h)]

/-- A stuck operation is sent again behind the new hash. -/
theorem siftNext (h : KnownOk env s) (hdistinct : env.HashesDistinct)
    {newOngoingOps ongoingOps : List ETHOperation} {op : ETHOperation}
    (hphase : s.phase = .sifting newOngoingOps)
    (hongoing : s.sender.ongoingOps = op :: ongoingOps) {r : SiftReplies}
    (hkeeps : r.supplement.Created → r.supplement.Persisted)
    (hsift : env.siftNext { s with sender := { s.sender with ongoingOps } } newOngoingOps op r =
      .ok s') : KnownOk env s' := by
  have hok := h.ok.siftNext hphase hongoing hsift
  have hinFlight : s.inFlight = newOngoingOps ++ op :: ongoingOps := by
    unfold SenderState.inFlight
    rw [hphase, hongoing]
  have hends := env.performs { s with sender := { s.sender with ongoingOps } } op r
  unfold SenderEnv.siftNext at hsift
  -- what the round makes of the operation, and how the database took it
  rcases hperform : env.performCommitmentStep
    { s with sender := { s.sender with ongoingOps } } op r with ⟨result, op', s₁⟩
  rw [hperform] at hends hsift
  have hback : newOngoingOps ++ [op] ++ ongoingOps = s.inFlight := by
    rw [hinFlight, List.append_assoc]
    rfl
  cases hends with
  | left hresult =>
    have hs' : s' = { s with
        sender := { s.sender with ongoingOps }, phase := .sifting (newOngoingOps ++ [op']) } := by
      cases result with
      | ok commitment =>
        cases commitment with
        | Pending => exact (Except.ok.inj hsift).symm
        | Committed => exact absurd rfl hresult
      | error e =>
        cases e with
        | panic => cases hsift
        | error => exact (Except.ok.inj hsift).symm
    subst hs'
    exact h.same hok rfl rfl rfl rfl hback
  | confirmed hmem hconfirm =>
    have hop : op' ∈ s.inFlight := by
      rw [hinFlight]
      exact List.mem_append_right _ List.mem_cons_self
    cases Except.ok.inj ((h.confirmable hdistinct hop hmem).symm.trans hconfirm)
    obtain ⟨hdb, hphase', hongoing', hstarted, hsent⟩ := EthSenderOk.reportCommitted_frame hsift
    have hinFlight' : s'.inFlight = newOngoingOps ++ ongoingOps := by
      unfold SenderState.inFlight
      rw [hphase', hphase, hongoing']
    refine ⟨hok, ?_, ?_, ?_⟩
    · rw [hinFlight']
      exact h.stored_confirmRow hinFlight _ hok hdb hstarted
    · rw [hdb, hsent]
      exact h.sent
    · rw [hdb, hstarted]
      exact h.hashes
  | unsent e hcreated hfailed => exact absurd (hkeeps hcreated) hfailed
  | uncommitted e hcreated hfailed => exact absurd (hkeeps hcreated) hfailed
  | @supplemented newTx deadlineBlock hsigned =>
    -- a new hash is stored before the transaction is sent
    cases hsift
    refine ⟨hok, ?_, ?_, ?_⟩
    · refine (h.stored_supplementTx hinFlight deadlineBlock newTx hok rfl rfl).trans ?_
      show _ = newOngoingOps ++ [_] ++ ongoingOps
      rw [List.append_assoc]
      rfl
    · intro e he
      rcases List.mem_append.mp he with he | he
      · exact List.mem_append_left _ (h.sent e he)
      · rw [List.mem_singleton.mp he]
        exact List.mem_append_right _ List.mem_cons_self
    · intro entry hentry
      rcases List.mem_append.mp hentry with hentry | hentry
      · exact h.hashes entry hentry
      · rw [List.mem_singleton.mp hentry]
        have hkey : op.key ∈ s.history.started.map StartedTx.key :=
          h.ok.placed.keys op (hinFlight ▸ List.mem_append_right _ List.mem_cons_self)
        obtain ⟨st, hst, hkey⟩ := List.mem_map.mp hkey
        refine ⟨st, hst, (Prod.mk.inj hkey).1, newTx, ?_, rfl⟩
        rw [show st.nonce = op.nonce from (Prod.mk.inj hkey).2]
        exact hsigned

/-- Gas prices of one digit are read back as they were stored. -/
theorem loaded_eq {db : EthDb} {rows : List StorageETHOperation} {ops : List ETHOperation}
    (hrows : ∀ row ∈ rows, row.lastUsedGasPrice < 10)
    (h : rows.mapM db.loadUnconfirmedOperation = .ok ops) : rows.map db.storedOperation = ops := by
  induction rows generalizing ops with
  | nil =>
    cases h
    rfl
  | cons row rows ih =>
    rw [List.mapM_cons] at h
    obtain ⟨op, hop, h⟩ := Outcome.bind_eq_ok.mp h
    obtain ⟨ops, hops, h⟩ := Outcome.bind_eq_ok.mp h
    obtain ⟨_, -, hop⟩ := Outcome.bind_eq_ok.mp hop
    obtain ⟨price, hprice, hop⟩ := Outcome.bind_eq_ok.mp hop
    rw [u256FromStr_eq_self_iff.mpr (hrows row List.mem_cons_self)] at hprice
    cases hprice
    cases hop
    cases h
    rw [List.map_cons, ih (fun row hrow => hrows row (List.mem_cons_of_mem _ hrow)) hops]
    rfl

/-- What is in flight behind a restart is read from the tables. -/
theorem restart (h : KnownOk env s)
    (hprices : ∀ row ∈ s.db.unconfirmed, row.lastUsedGasPrice < 10)
    (hrestart : env.restart s = .ok s') : KnownOk env s' := by
  have hok := h.ok.restart hrestart
  obtain ⟨⟨added, sender⟩, hnew, hrestart⟩ := Outcome.bind_eq_ok.mp hrestart
  obtain ⟨ongoingOps, hongoing, hnew⟩ := Outcome.bind_eq_ok.mp hnew
  obtain ⟨⟨loaded, q⟩, -, hnew⟩ := Outcome.bind_eq_ok.mp hnew
  cases hnew
  cases hrestart
  exact ⟨hok, loaded_eq hprices hongoing, h.sent, h.hashes⟩

/-- Every step keeps the invariant. -/
theorem step (h : KnownOk env s) (hdistinct : env.HashesDistinct) {e : SenderEvent}
    (hkeeps : s.KeepsHashes e) (hstep : SenderStep env s e s') : KnownOk env s' := by
  have hok : EthSenderOk s' := by
    refine h.ok.step ?_ hstep
    cases e with
    | startNext r => exact hkeeps
    | _ => trivial
  cases hstep.moves with
  | store hnew => exact h.same hok rfl rfl rfl rfl rfl
  | @loadNewOperations _ _ s₁ hphase hload =>
    obtain ⟨hdb, hphase₁, hongoing, hstarted, hsent⟩ := EthSenderOk.loadNewOperations_frame hload
    refine h.same hok hstarted (by rw [hdb]) (by rw [hdb]) hsent ?_
    unfold SenderState.inFlight
    dsimp only
    rw [hongoing, hphase]
    cases env.options.isEnabled <;> rfl
  | startNext hphase hpop hstart =>
    exact h.startNext hphase (EthSenderOk.yields_of_popFront hpop) hkeeps hstart
  | startSifting hphase hpop =>
    refine h.same hok rfl rfl rfl rfl ?_
    unfold SenderState.inFlight
    rw [hphase]
    rfl
  | siftNext hphase hongoing hsift => exact h.siftNext hdistinct hphase hongoing hkeeps hsift
  | finish hphase hongoing =>
    refine h.same hok rfl rfl rfl rfl ?_
    unfold SenderState.inFlight
    rw [hphase, hongoing]
    exact (List.append_nil _).symm
  | restart hrestart => exact h.restart hkeeps hrestart

end KnownOk

/-- In every run without a step that loses a hash, the ongoing operations are what the
database stores, and each of their hashes can be confirmed. -/
theorem hashes_known {env : SenderEnv} (hdistinct : env.HashesDistinct) {nonce : Nat}
    {tr : List SenderEvent} {s : SenderState}
    (hrun : Run (fun s e s' => s.KeepsHashes e ∧ SenderStep env s e s') (.first env nonce) tr s) :
    HashesKnown s :=
  (hrun.invariant (I := KnownOk env) (fun _ _ _ h hstep => h.step hdistinct hstep.1 hstep.2)
    (.first env nonce)).known hdistinct

theorem sampleSenderEnv_hashesDistinct : sampleSenderEnv.HashesDistinct := by
  intro data data' options options' h
  have hlength := congrArg List.length h
  unfold SenderEnv.signPreparedTx sampleSenderEnv at hlength
  simpa using hlength

/-- Run the sender through the events, if they can happen and lose no hash. -/
theorem SenderEnv.keptRun_of_play {env : SenderEnv} {tr : List SenderEvent} {s s' : SenderState}
    (hplay : env.play s tr = some s') (hkeeps : ∀ e ∈ tr, ∀ s : SenderState, s.KeepsHashes e) :
    Run (fun s e s' => s.KeepsHashes e ∧ SenderStep env s e s') s tr s' :=
  (SenderEnv.run_of_play hplay).guard hkeeps

/-- A play of two parts. -/
theorem SenderEnv.play_append {env : SenderEnv} {tr tr' : List SenderEvent} {s s' : SenderState}
    (h : env.play s (tr ++ tr') = some s') : ∃ s₁, env.play s tr = some s₁ ∧ env.play s₁ tr' = some s' := by
  induction tr generalizing s with
  | nil => exact ⟨s, rfl, h⟩
  | cons e tr ih =>
    obtain ⟨s₂, hnext, h⟩ := Option.bind_eq_some_iff.mp h
    obtain ⟨s₁, hplay, hrest⟩ := ih h
    exact ⟨s₁, by rw [SenderEnv.play, hnext]; exact hplay, hrest⟩

/-- A round with a supplement transaction. -/
def sampleStuckRound : List SenderEvent :=
  sampleLoaded ++ [.startNext sampleInit, .startSifting,
    .siftNext { blockNumber := .ok 15, getTxStatus := fun _ => .ok none, supplement := { gas := ⟨.ok 4, 7⟩ } },
    .finish]

/-- A round in which the first look fails and the second one confirms the operation. -/
def sampleConfirmedRound : List SenderEvent :=
  [.loadNewOperations (.ok ()) (.ok ()), .startSifting,
    .siftNext { blockNumber := .error "", getTxStatus := fun _ => .ok none,
                supplement := { gas := ⟨.ok 4, 7⟩ } },
    .finish, .loadNewOperations (.ok ()) (.ok ()), .startSifting,
    .siftNext { blockNumber := .ok 16, getTxStatus := fun _ => .ok (some ⟨1, true, false⟩),
                supplement := { gas := ⟨.ok 4, 7⟩ } }]

theorem keepsHashes_sampleStuckRound : ∀ e ∈ sampleStuckRound, ∀ s : SenderState, s.KeepsHashes e := by
  intro e he s
  simp only [sampleStuckRound, sampleLoaded, List.cons_append, List.nil_append, List.mem_cons,
    List.not_mem_nil, or_false] at he
  rcases he with rfl | rfl | rfl | rfl | rfl | rfl
  all_goals first | trivial | exact fun _ => rfl | exact fun _ => ⟨rfl, rfl, rfl, rfl, rfl, rfl⟩

theorem keepsHashes_sampleConfirmedRound :
    ∀ e ∈ sampleConfirmedRound, ∀ s : SenderState, s.KeepsHashes e := by
  intro e he s
  simp only [sampleConfirmedRound, List.mem_cons, List.not_mem_nil, or_false] at he
  rcases he with rfl | rfl | rfl | rfl | rfl | rfl | rfl
  all_goals first | trivial | exact fun _ => ⟨rfl, rfl, rfl, rfl, rfl, rfl⟩

/-- A supplement transaction, a restart, and the confirmation. -/
theorem hashes_known_sample : ∃ s,
    Run (fun s e s' => s.KeepsHashes e ∧ SenderStep sampleSenderEnv s e s')
      (.first sampleSenderEnv 4) (sampleStuckRound ++ .restart :: sampleConfirmedRound) s ∧
    s.history.completed = [1] ∧ s.history.sent.length = 2 ∧ HashesKnown s := by
  obtain ⟨s, hplay, hs⟩ := Option.map_eq_some_iff.mp (show (sampleSenderEnv.play
    (.first sampleSenderEnv 4) (sampleStuckRound ++ .restart :: sampleConfirmedRound)).map
      (fun s => (s.history.completed, s.history.sent.length)) = some ([1], 2) from rfl)
  obtain ⟨s₁, hplay₁, hrest⟩ := SenderEnv.play_append hplay
  obtain ⟨s₂, hrestart, hplay₂⟩ := Option.bind_eq_some_iff.mp hrest
  obtain ⟨s₁', hplay₁', hprices⟩ := Option.map_eq_some_iff.mp (show (sampleSenderEnv.play
    (.first sampleSenderEnv 4) sampleStuckRound).map
      (fun s => s.db.unconfirmed.map StorageETHOperation.lastUsedGasPrice) = some [4] from rfl)
  cases Option.some.inj (hplay₁.symm.trans hplay₁')
  have hkeeps : s₁.KeepsHashes .restart := by
    intro row hrow
    have hmem := List.mem_map_of_mem (f := StorageETHOperation.lastUsedGasPrice) hrow
    rw [hprices] at hmem
    rw [List.mem_singleton.mp hmem]
    decide
  have hrun := (SenderEnv.keptRun_of_play hplay₁ keepsHashes_sampleStuckRound).append
    (.cons ⟨hkeeps, hrestart⟩ (SenderEnv.keptRun_of_play hplay₂ keepsHashes_sampleConfirmedRound))
  exact ⟨s, hrun, congrArg Prod.fst hs, congrArg Prod.snd hs,
    hashes_known sampleSenderEnv_hashesDistinct hrun⟩

/-- The supplement transaction could not be sent: the operation has a hash that cannot
be confirmed. -/
theorem hash_not_known : ∃ s, Run (SenderStep sampleSenderEnv) (.first sampleSenderEnv 4)
    (sampleLoaded ++ [.startNext sampleInit, .startSifting,
      .siftNext { blockNumber := .ok 15, getTxStatus := fun _ => .ok none,
                  supplement := { gas := ⟨.ok 4, 7⟩, send := .error "" } }]) s ∧
    (∃ op ∈ s.inFlight, ∃ hash ∈ op.usedTxHashes, ∃ e, s.db.confirmEthTx hash = .error e) ∧
      ¬ HashesKnown s := by
  obtain ⟨s, hplay, hs⟩ := Option.map_eq_some_iff.mp (show (sampleSenderEnv.play
    (.first sampleSenderEnv 4) (sampleLoaded ++ [.startNext sampleInit, .startSifting,
      .siftNext { blockNumber := .ok 15, getTxStatus := fun _ => .ok none,
                  supplement := { gas := ⟨.ok 4, 7⟩, send := .error "" } }])).map (fun s =>
        (s.inFlight, s.db.ethTxHashes)) = some _ from rfl)
  have hop := congrArg Prod.fst hs
  have hhashes := congrArg Prod.snd hs
  dsimp only at hop hhashes
  have hlost : ∃ op ∈ s.inFlight, ∃ hash ∈ op.usedTxHashes, ∃ e, s.db.confirmEthTx hash = .error e := by
    rw [hop]
    refine ⟨_, List.mem_cons_self, [4, 0, 0, 0, 0], by decide, .error
      "no rows returned by a query that expected to return at least one row", ?_⟩
    unfold EthDb.confirmEthTx EthDb.getEthOpId
    rw [hhashes]
    rfl
  refine ⟨s, SenderEnv.run_of_play hplay, hlost, fun h => ?_⟩
  obtain ⟨op, hop, hash, hhash, e, he⟩ := hlost
  rw [h.confirmable op hop hash hhash] at he
  cases he

end ZkSync
