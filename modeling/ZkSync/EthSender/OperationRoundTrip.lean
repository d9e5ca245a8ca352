import ZkSync.EthSender.KnownHashes

/-!
# Ethereum operations in the database

What `save_new_eth_tx`, `update_eth_tx` and `add_hash_entry` write, and what
`load_unconfirmed_operations` reads back. The type of an operation is stored as its
printed name, the deadline block as an `i64`, and the gas price as a decimal number:
the first two come back as they were (`OperationType.fromStr_display`). The gas price
does not. `load_unconfirmed_operations` prints the number in decimal and reads it with
`U256::from_str`, which takes hexadecimal digits, so 10 comes back as 16, and a price
of more than 64 digits does not come back at all.

`Written` says what was written, without a database. `operations_survive_iff`: it is
what is loaded if and only if every gas price has one digit and every operation a
hash, which the loading asserts.
-/

namespace ZkSync

/-! ## The type of an operation -/

namespace OperationType

/-- `Display`, which is what `op_type.to_string()` stores. -/
def display : OperationType → String
  | .Commit => "commit"
  | .Verify => "verify"
  | .Withdraw => "withdraw"

def fromStr (s : String) : Outcome OperationType :=
  if s = "commit" then .ok .Commit
  else if s = "verify" then .ok .Verify
  else if s = "withdraw" then .ok .Withdraw
  else Outcome.bail ("Unknown type of operation: " ++ s)

/-- The printed name is read back; so the rows may hold the type itself. -/
theorem fromStr_display (opType : OperationType) : fromStr opType.display = .ok opType := by
  cases opType <;> rfl

end OperationType

/-! ## Writing -/

inductive EthWrite where
  | saveNewEthTx (opType : OperationType) (opId : Option Int) (lastDeadlineBlock : UInt64)
      (lastUsedGasPrice : Nat) (rawTx : List UInt8)
  | updateEthTx (ethOpId : EthOpId) (newDeadlineBlock : UInt64) (newGasValue : Nat)
  | addHashEntry (ethOpId : EthOpId) (hash : List UInt8)
  deriving DecidableEq

namespace EthDb

/-- A database without Ethereum operations. -/
def fresh (ethParameters : ETHParams) (ethOperationsIdSeq : Nat)
    (operations : List OperationRow) : EthDb where
  ethParameters := ethParameters
  ethOperationsIdSeq := ethOperationsIdSeq
  operations := operations

def write (db : EthDb) : EthWrite → EthDb
  | .saveNewEthTx opType opId lastDeadlineBlock lastUsedGasPrice rawTx =>
    (db.saveNewEthTx opType opId lastDeadlineBlock.toInt64 lastUsedGasPrice rawTx).2
  | .updateEthTx ethOpId newDeadlineBlock newGasValue =>
    db.updateEthTx ethOpId newDeadlineBlock.toInt64 newGasValue
  | .addHashEntry ethOpId hash => db.addHashEntry ethOpId hash

end EthDb

/-- A write that succeeds. The columns `op_id` and `eth_op_id` refer to rows, and the
database refuses ids without one. -/
def EthWriteStep (db : EthDb) (write : EthWrite) (db' : EthDb) : Prop :=
  db' = db.write write ∧ match write with
    | .saveNewEthTx _ opId _ _ _ => ∀ id, opId = some id → ∃ row ∈ db.operations, row.id = id
    | .updateEthTx .. => True
    | .addHashEntry ethOpId _ => ∃ row ∈ db.ethOperations, row.id = ethOpId

/-! ## What was written -/

/-- An Ethereum operation as it was written. -/
structure WrittenOperation where
  id : EthOpId
  opType : OperationType
  nonce : Nat
  lastDeadlineBlock : UInt64
  lastUsedGasPrice : Nat
  usedTxHashes : List (List UInt8)
  encodedTxData : List UInt8
  deriving DecidableEq

def ETHOperation.written (op : ETHOperation) : WrittenOperation where
  id := op.id
  opType := op.opType
  nonce := op.nonce
  lastDeadlineBlock := op.lastDeadlineBlock
  lastUsedGasPrice := op.lastUsedGasPrice
  usedTxHashes := op.usedTxHashes
  encodedTxData := op.encodedTxData

structure Written where
  lastId : Nat
  nextNonce : Nat
  ops : List WrittenOperation

namespace Written

/-- The operation with the id is replaced. -/
def update (w : Written) (id : EthOpId) (f : WrittenOperation → WrittenOperation) : Written :=
  { w with ops := w.ops.map fun op => if op.id = id then f op else op }

def write (w : Written) : EthWrite → Written
  | .saveNewEthTx opType _ lastDeadlineBlock lastUsedGasPrice rawTx =>
    { lastId := w.lastId + 1
      nextNonce := w.nextNonce + 1
      ops := w.ops ++ [⟨w.lastId + 1, opType, w.nextNonce, lastDeadlineBlock, lastUsedGasPrice, [],
        rawTx⟩] }
  | .updateEthTx ethOpId newDeadlineBlock newGasValue => w.update ethOpId fun op =>
    { op with lastDeadlineBlock := newDeadlineBlock, lastUsedGasPrice := newGasValue }
  | .addHashEntry ethOpId hash => w.update ethOpId fun op =>
    { op with usedTxHashes := op.usedTxHashes ++ [hash] }

end Written

/-- The operations that the writes made. -/
def writtenBy (ethParameters : ETHParams) (ethOperationsIdSeq : Nat) (writes : List EthWrite) :
    List WrittenOperation :=
  (writes.foldl Written.write ⟨ethOperationsIdSeq, ethParameters.nonce, []⟩).ops

/-! ## The rows hold what was written -/

/-- The row, with its hashes, as the operation it was written from. -/
def EthDb.writtenRow (db : EthDb) (row : StorageETHOperation) : WrittenOperation :=
  (db.storedOperation row).written

structure WrittenIn (db : EthDb) (w : Written) : Prop where
  rows : db.ethOperations.map db.writtenRow = w.ops
  lastId : db.ethOperationsIdSeq = w.lastId
  nonce : db.ethParameters.nonce = w.nextNonce
  unconfirmed : ∀ row ∈ db.ethOperations, row.confirmed = false
  ids : ∀ row ∈ db.ethOperations, row.id ≤ db.ethOperationsIdSeq
  hashes : ∀ entry ∈ db.ethTxHashes, entry.ethOpId ≤ db.ethOperationsIdSeq

section Rows

variable {db db' : EthDb} {w : Written}

theorem writtenIn_fresh (ethParameters : ETHParams) (ethOperationsIdSeq : Nat)
    (operations : List OperationRow) : WrittenIn
      (EthDb.fresh ethParameters ethOperationsIdSeq operations)
      ⟨ethOperationsIdSeq, ethParameters.nonce, []⟩ :=
  ⟨rfl, rfl, rfl, fun _ h => absurd h List.not_mem_nil, fun _ h => absurd h List.not_mem_nil,
    fun _ h => absurd h List.not_mem_nil⟩

/-- The id that is given out next has no hashes. -/
theorem WrittenIn.hashesOf_next (h : WrittenIn db w) : db.hashesOf (db.ethOperationsIdSeq + 1) = [] := by
  unfold EthDb.hashesOf
  rw [List.map_eq_nil_iff, List.filter_eq_nil_iff]
  intro entry hentry hid
  have hle := h.hashes entry hentry
  rw [of_decide_eq_true hid] at hle
  exact Nat.not_succ_le_self _ hle

/-- A new operation. -/
theorem WrittenIn.saveNewEthTx (h : WrittenIn db w) (opType : OperationType) (opId : Option Int)
    (lastDeadlineBlock : UInt64) (lastUsedGasPrice : Nat) (rawTx : List UInt8) :
    WrittenIn (db.write (.saveNewEthTx opType opId lastDeadlineBlock lastUsedGasPrice rawTx))
      (w.write (.saveNewEthTx opType opId lastDeadlineBlock lastUsedGasPrice rawTx)) := by
  have hnew := h.hashesOf_next
  cases opType <;> exact {
    rows := by
      show (db.ethOperations ++ [_]).map _ = w.ops ++ [_]
      rw [List.map_append]
      refine congrArg₂ (· ++ ·) h.rows (congrArg (· :: []) ?_)
      unfold EthDb.writtenRow ETHOperation.written EthDb.storedOperation
      refine WrittenOperation.mk.injEq .. |>.mpr ⟨?_, rfl, h.nonce, ?_, rfl, hnew, rfl⟩
      · exact congrArg (· + 1) h.lastId
      · exact UInt64.toUInt64_toInt64 _
    lastId := congrArg (· + 1) h.lastId
    nonce := congrArg (· + 1) h.nonce
    unconfirmed := fun row hrow => by
      rcases List.mem_append.mp hrow with hrow | hrow
      · exact h.unconfirmed row hrow
      · rw [List.mem_singleton.mp hrow]
    ids := fun row hrow => by
      rcases List.mem_append.mp hrow with hrow | hrow
      · exact Nat.le_succ_of_le (h.ids row hrow)
      · rw [List.mem_singleton.mp hrow]
        exact Nat.le_refl _
    hashes := fun entry hentry => Nat.le_succ_of_le (h.hashes entry hentry) }

/-- A row that is rewritten; its id stays. -/
theorem WrittenIn.updateEthTx (h : WrittenIn db w) (ethOpId : EthOpId) (newDeadlineBlock : UInt64)
    (newGasValue : Nat) : WrittenIn (db.write (.updateEthTx ethOpId newDeadlineBlock newGasValue))
      (w.write (.updateEthTx ethOpId newDeadlineBlock newGasValue)) where
  rows := by
    show (db.ethOperations.map _).map _ = w.ops.map _
    rw [← h.rows, List.map_map, List.map_map]
    refine List.map_congr_left fun row _ => ?_
    show EthDb.writtenRow _ (if row.id = ethOpId then _ else row) =
      if row.id = ethOpId then _ else db.writtenRow row
    by_cases hid : row.id = ethOpId
    · rw [if_pos hid, if_pos hid]
      refine WrittenOperation.mk.injEq .. |>.mpr ⟨rfl, rfl, rfl, ?_, rfl, rfl, rfl⟩
      exact UInt64.toUInt64_toInt64 _
    · rw [if_neg hid, if_neg hid]
      rfl
  lastId := h.lastId
  nonce := h.nonce
  unconfirmed := fun row hrow => by
    obtain ⟨row', hrow', rfl⟩ := List.mem_map.mp hrow
    dsimp only
    split <;> exact h.unconfirmed row' hrow'
  ids := fun row hrow => by
    obtain ⟨row', hrow', rfl⟩ := List.mem_map.mp hrow
    dsimp only
    split <;> exact h.ids row' hrow'
  hashes := h.hashes

/-- One more hash of an operation; the list keeps its order. -/
theorem WrittenIn.addHashEntry (h : WrittenIn db w) {ethOpId : EthOpId} (hash : List UInt8)
    (hexists : ∃ row ∈ db.ethOperations, row.id = ethOpId) :
    WrittenIn (db.write (.addHashEntry ethOpId hash)) (w.write (.addHashEntry ethOpId hash)) where
  rows := by
    show db.ethOperations.map _ = w.ops.map _
    rw [← h.rows, List.map_map]
    refine List.map_congr_left fun row _ => ?_
    have hhashes : (db.addHashEntry ethOpId hash).hashesOf row.id = db.hashesOf row.id ++
        if ethOpId = row.id then [hash] else [] :=
      EthDb.hashesOf_append ⟨ethOpId, hash⟩ rfl rfl row.id
    show EthDb.writtenRow _ row = if row.id = ethOpId then _ else db.writtenRow row
    by_cases hid : row.id = ethOpId
    · rw [if_pos hid]
      rw [if_pos hid.symm] at hhashes
      exact WrittenOperation.mk.injEq .. |>.mpr ⟨rfl, rfl, rfl, rfl, rfl, hhashes, rfl⟩
    · rw [if_neg hid]
      rw [if_neg (Ne.symm hid), List.append_nil] at hhashes
      exact WrittenOperation.mk.injEq .. |>.mpr ⟨rfl, rfl, rfl, rfl, rfl, hhashes, rfl⟩
  lastId := h.lastId
  nonce := h.nonce
  unconfirmed := h.unconfirmed
  ids := h.ids
  hashes := fun entry hentry => by
    rcases List.mem_append.mp hentry with hentry | hentry
    · exact h.hashes entry hentry
    · -- the id refers to a row
      obtain ⟨row, hrow, hid⟩ := hexists
      rw [List.mem_singleton.mp hentry, ← hid]
      exact h.ids row hrow

theorem WrittenIn.step (h : WrittenIn db w) {write : EthWrite} (hstep : EthWriteStep db write db') :
    WrittenIn db' (w.write write) := by
  obtain ⟨rfl, hrefers⟩ := hstep
  cases write with
  | saveNewEthTx opType opId lastDeadlineBlock lastUsedGasPrice rawTx =>
    exact h.saveNewEthTx opType opId lastDeadlineBlock lastUsedGasPrice rawTx
  | updateEthTx ethOpId newDeadlineBlock newGasValue =>
    exact h.updateEthTx ethOpId newDeadlineBlock newGasValue
  | addHashEntry ethOpId hash => exact h.addHashEntry hash hrefers

theorem WrittenIn.run {writes : List EthWrite} (hrun : Run EthWriteStep db writes db')
    (h : WrittenIn db w) : WrittenIn db' (writes.foldl Written.write w) := by
  induction hrun generalizing w with
  | nil => exact h
  | cons hstep _ ih => exact ih (h.step hstep)

end Rows

/-! ## Loading -/

section Loading

variable {db : EthDb}

/-- A row is read back with other data only if its gas price is. -/
theorem loadUnconfirmedOperation_iff {row : StorageETHOperation} :
    (∃ op, db.loadUnconfirmedOperation row = .ok op ∧ op.written = db.writtenRow row) ↔
      row.lastUsedGasPrice < 10 ∧ db.hashesOf row.id ≠ [] := by
  unfold EthDb.loadUnconfirmedOperation
  constructor
  · rintro ⟨op, hop, hwritten⟩
    simp only [Outcome.bind_eq_ok, Outcome.assert_eq_ok, Outcome.pure_eq] at hop
    obtain ⟨_, hhashes, price, hprice, hop⟩ := hop
    cases hop
    have hsame : price = row.lastUsedGasPrice := congrArg WrittenOperation.lastUsedGasPrice hwritten
    rw [hsame] at hprice
    exact ⟨u256FromStr_eq_self_iff.mp hprice, hhashes⟩
  · rintro ⟨hprice, hhashes⟩
    rw [Outcome.assert_ok _ hhashes, Outcome.ok_bind, u256FromStr_eq_self_iff.mpr hprice]
    exact ⟨_, rfl, rfl⟩

theorem loadUnconfirmedOperations_iff (h : ∀ row ∈ db.ethOperations, row.confirmed = false) :
    (∃ ops, db.loadUnconfirmedOperations = .ok ops ∧
      ops.map ETHOperation.written = db.ethOperations.map db.writtenRow) ↔
    ∀ row ∈ db.ethOperations, row.lastUsedGasPrice < 10 ∧ db.hashesOf row.id ≠ [] := by
  have hall : (db.ethOperations.filter fun row => row.confirmed = false) = db.ethOperations :=
    List.filter_eq_self.mpr fun row hrow => decide_eq_true (h row hrow)
  unfold EthDb.loadUnconfirmedOperations
  rw [hall]
  clear hall h
  induction db.ethOperations with
  | nil => exact ⟨fun _ row h => absurd h List.not_mem_nil, fun _ => ⟨[], rfl, rfl⟩⟩
  | cons row rows ih =>
    have hfirst := @loadUnconfirmedOperation_iff db row
    rw [List.mapM_cons]
    simp only [Outcome.bind_eq_ok, Outcome.pure_eq, Except.ok.injEq]
    constructor
    · rintro ⟨_, ⟨op, hop, ops, hops, rfl⟩, hwritten⟩
      rw [List.map_cons, List.map_cons, List.cons.injEq] at hwritten
      exact List.forall_mem_cons.mpr
        ⟨hfirst.mp ⟨op, hop, hwritten.1⟩, ih.mp ⟨ops, hops, hwritten.2⟩⟩
    · intro hall
      obtain ⟨op, hop, hwritten⟩ := hfirst.mpr (hall row List.mem_cons_self)
      obtain ⟨ops, hops, hwrittens⟩ := ih.mpr fun r hr => hall r (List.mem_cons_of_mem _ hr)
      exact ⟨op :: ops, ⟨op, hop, ops, hops, rfl⟩,
        by rw [List.map_cons, List.map_cons, hwritten, hwrittens]⟩

/-- The operations that were written are loaded as they were written if and only if
each gas price has one digit and each operation a hash. -/
theorem operations_survive_iff {ethParameters : ETHParams} {ethOperationsIdSeq : Nat}
    {operations : List OperationRow} {writes : List EthWrite}
    (hrun : Run EthWriteStep (EthDb.fresh ethParameters ethOperationsIdSeq operations) writes db) :
    (∃ ops, db.loadUnconfirmedOperations = .ok ops ∧
      ops.map ETHOperation.written = writtenBy ethParameters ethOperationsIdSeq writes) ↔
    ∀ op ∈ writtenBy ethParameters ethOperationsIdSeq writes,
      op.lastUsedGasPrice < 10 ∧ op.usedTxHashes ≠ [] := by
  have hend := (writtenIn_fresh ethParameters ethOperationsIdSeq operations).run hrun
  unfold writtenBy
  rw [← hend.rows, loadUnconfirmedOperations_iff hend.unconfirmed, List.forall_mem_map]
  rfl

/-! ### One digit, and two -/

/-- A commit operation with the gas price, and a hash for it. -/
def sampleWrites (gasPrice : Nat) : List EthWrite :=
  [.saveNewEthTx .Commit none 7 gasPrice [1, 2], .addHashEntry 1 [3]]

theorem run_sampleWrites (gasPrice : Nat) : Run EthWriteStep (EthDb.fresh ⟨5, 0, 0, 0⟩ 0 [])
    (sampleWrites gasPrice)
    ((sampleWrites gasPrice).foldl EthDb.write (EthDb.fresh ⟨5, 0, 0, 0⟩ 0 [])) :=
  .cons ⟨rfl, fun _ h => (by cases h)⟩ (.cons ⟨rfl, _, List.mem_cons_self, rfl⟩ (.nil _))

/-- A gas price of 9 comes back. -/
theorem operations_survive_iff_nine :
    ∃ ops, ((sampleWrites 9).foldl EthDb.write
      (EthDb.fresh ⟨5, 0, 0, 0⟩ 0 [])).loadUnconfirmedOperations = .ok ops ∧
      ops.map ETHOperation.written = writtenBy ⟨5, 0, 0, 0⟩ 0 (sampleWrites 9) :=
  (operations_survive_iff (run_sampleWrites 9)).mpr (by decide)

/-- A gas price of 10 comes back as 16. -/
theorem ten_read_as_sixteen : ∃ db writes op op',
    Run EthWriteStep (EthDb.fresh ⟨5, 0, 0, 0⟩ 0 []) writes db ∧
    writtenBy ⟨5, 0, 0, 0⟩ 0 writes = [op] ∧ op.lastUsedGasPrice = 10 ∧
    db.loadUnconfirmedOperations = .ok [op'] ∧ op'.lastUsedGasPrice = 16 ∧
    ¬ ∃ ops, db.loadUnconfirmedOperations = .ok ops ∧
      ops.map ETHOperation.written = writtenBy ⟨5, 0, 0, 0⟩ 0 writes := by
  refine ⟨_, sampleWrites 10, _, ⟨1, .Commit, none, 5, 7, 16, [[3]], [1, 2], false, none⟩,
    run_sampleWrites 10, rfl, rfl, by decide, rfl, ?_⟩
  rintro ⟨ops, hops, hwritten⟩
  have hload : ((sampleWrites 10).foldl EthDb.write
      (EthDb.fresh ⟨5, 0, 0, 0⟩ 0 [])).loadUnconfirmedOperations =
      .ok [⟨1, .Commit, none, 5, 7, 16, [[3]], [1, 2], false, none⟩] := by decide
  obtain rfl := Except.ok.inj (hload.symm.trans hops)
  exact absurd hwritten (by decide)

end Loading

end ZkSync
