import ZkSync.Core.Mempool
import ZkSync.Lib.Bytes
import Mathlib.Data.List.SplitBy

/-!
# The stored transactions of the mempool

`zksync_storage::chain::mempool` keeps the transactions that wait, so that a
restart does not lose them, and `zksync_core::mempool` writes to it before it
admits: `Mempool::add_tx` inserts a row and commits it, and only then compares
the nonce. The limits of a batch are checked before the rows are written, the
nonces of its transactions after.

So a request that is turned down for its nonce has left its rows behind
(`leavesNoTrace_iff`), and since a restart loads exactly the rows
(`loadTxs_perm`), the transaction is back in the queue
(`mem_restoreFromDb_of_refused`).

A row holds its transaction itself: that it is read back as it was written is
left to `serde_json`. The hash of a transaction is a parameter. Rows with the
same time keep the order in which they were inserted.
-/

namespace ZkSync

/-- A row of `mempool_txs`. -/
structure MempoolTx where
  txHash : Bytes
  tx : SignedZkSyncTx
  createdAt : Nat
  batchId : Int
  deriving DecidableEq

/-- What the database answers during one request. -/
structure MempoolReplies where
  /-- A connection is available. -/
  access : Bool
  startTransaction : Bool
  /-- Every query of the transaction is answered. -/
  queries : Bool
  commit : Bool
  /-- The next number of the sequence behind `batch_id`. -/
  serial : { n : Int // 0 < n }
  /-- The time of the `n`-th insertion. -/
  now : Nat → Nat

/-- Every query is answered and the transaction is committed. -/
def MempoolReplies.Answers (db : MempoolReplies) : Prop :=
  db.access ∧ db.startTransaction ∧ db.queries ∧ db.commit

/-! ## The schema -/

namespace MempoolSchema

variable (hash : ZkSyncTx → Bytes)

/-- `batch_id_optional`: zero marks a transaction outside of any batch. -/
def batchIdOptional (batchId : Int) : Option Int :=
  if batchId = 0 then none else some batchId

/-- The entries of one group of rows with the same batch id. -/
def variantsOf (group : List MempoolTx) : List SignedTxVariant :=
  match group.head?.bind fun row => batchIdOptional row.batchId with
  | some batchId => [.Batch ⟨group.map (·.tx), batchId⟩]
  | none => group.map fun row => .Tx row.tx

/-- The key of the sort: in a batch, the transaction that pays the fee is the
last one. -/
def sortKey : SignedTxVariant → Nonce
  | .Tx tx => tx.tx.nonce
  | .Batch batch => (batch.txs.getLast?.map (·.tx.nonce)).getD 0

/-- `load_txs`. -/
def loadTxs (table : List MempoolTx) : List SignedTxVariant :=
  let txs := table.mergeSort fun row row' => decide (row.createdAt ≤ row'.createdAt)
  let groupedTxs := txs.splitBy fun row row' =>
    batchIdOptional row.batchId == batchIdOptional row'.batchId
  (groupedTxs.flatMap variantsOf).mergeSort fun tx tx' => decide (sortKey tx ≤ sortKey tx')

/-- `insert_tx`. -/
def insertTx (db : MempoolReplies) (table : List MempoolTx) (tx : SignedZkSyncTx) :
    Outcome (List MempoolTx) := do
  Outcome.ensure (db.queries = true) "the query failed"
  return table ++ [⟨hash tx.tx, tx, db.now 0, 0⟩]

/-- The largest batch id of the table: `ORDER BY batch_id DESC LIMIT 1`. -/
def maxBatchId (table : List MempoolTx) : Option Int :=
  (table.map (·.batchId)).max?

/-- `insert_batch`, with the id of the batch. The first row takes its id from the
sequence; the others get the largest id that is then in the table. -/
def insertBatch (db : MempoolReplies) (table : List MempoolTx) :
    List SignedZkSyncTx → Outcome (Int × List MempoolTx)
  | [] => Outcome.bail "Cannot insert an empty batch"
  | first :: rest => do
    Outcome.ensure (db.queries = true) "the query failed"
    let table := table ++ [⟨hash first.tx, first, db.now 0, db.serial⟩]
    let batchId ← Outcome.okOrElse (maxBatchId table) "Can't get maximal batch_id from mempool_txs"
    return (batchId, table ++ rest.mapIdx fun i tx => ⟨hash tx.tx, tx, db.now (i + 1), batchId⟩)

/-- `SignedTxVariant::hashes`. -/
def hashes : SignedTxVariant → List Bytes
  | .Tx tx => [hash tx.tx]
  | .Batch batch => batch.txs.map fun tx => hash tx.tx

/-- An executed transaction; of a batch only the first one is looked up. -/
def shouldRemove (executed : Bytes → Bool) : SignedTxVariant → Bool
  | .Tx tx => executed (hash tx.tx)
  | .Batch batch => (batch.txs.head?.map fun tx => executed (hash tx.tx)).getD false

/-- The hashes that `collect_garbage` removes. -/
def txHashesToRemove (executed : Bytes → Bool) (table : List MempoolTx) : List Bytes :=
  ((loadTxs table).filter (shouldRemove hash executed)).flatMap (hashes hash)

/-- `collect_garbage`; `executed` are the hashes of the executed transactions. -/
def collectGarbage (executed : Bytes → Bool) (table : List MempoolTx) : List MempoolTx :=
  table.filter fun row => row.txHash ∉ txHashesToRemove hash executed table

end MempoolSchema

/-! ## The mempool over its table -/

namespace MempoolState

/-- `MempoolState::nonce`. -/
def nonce (m : MempoolState) (address : Address) : Nonce :=
  (m.accountNonces.lookup address).getD 0

/-- `MempoolState::add_tx`. -/
def addTx (m : MempoolState) (tx : SignedZkSyncTx) : Outcome MempoolState := do
  Outcome.ensure (m.nonce tx.tx.account ≤ tx.tx.nonce) "Tx nonce is too low."
  return { m with readyTxs := m.readyTxs ++ [.Tx tx] }

/-- `MempoolState::restore_from_db`. -/
def restoreFromDb (hash : ZkSyncTx → Bytes) (executed : Bytes → Bool)
    (accounts : AList fun _ : AccountId => Account) (table : List MempoolTx) : MempoolState :=
  { restore accounts with
    readyTxs := MempoolSchema.loadTxs (MempoolSchema.collectGarbage hash executed table) }

end MempoolState

/-- The requests that bring transactions. -/
inductive MempoolRequest where
  | NewTx (tx : SignedZkSyncTx)
  | NewTxsBatch (txs : List SignedZkSyncTx)
  deriving DecidableEq

/-- The mempool and its committed table. -/
structure StoredMempool where
  mempool : Mempool
  table : List MempoolTx

namespace StoredMempool

variable (hash : ZkSyncTx → Bytes) (db : MempoolReplies)

/-- Whatever the database reports, the caller sees one error. -/
def orDbError {α : Type} : Outcome α → Outcome α
  | .error (.error _) => Outcome.bail "Database unavailable"
  | x => x

/-- The part of `Mempool::add_tx` that talks to the database. An error rolls the
transaction back. -/
def storeTx (table : List MempoolTx) (tx : SignedZkSyncTx) : Outcome (List MempoolTx) :=
  orDbError do
    Outcome.ensure (db.access = true) "no connection"
    Outcome.ensure (db.startTransaction = true) "no transaction"
    let table ← MempoolSchema.insertTx hash db table tx
    Outcome.ensure (db.commit = true) "not committed"
    return table

/-- `Mempool::add_tx`. -/
def addTx (m : StoredMempool) (tx : SignedZkSyncTx) : Outcome Unit × StoredMempool :=
  match storeTx hash db m.table tx with
  | .error e => (.error e, m)
  | .ok table =>
    -- The row is committed, whatever the answer is.
    match m.mempool.mempoolState.addTx tx with
    | .error e => (.error e, { m with table := table })
    | .ok mempoolState => (.ok (), ⟨{ m.mempool with mempoolState := mempoolState }, table⟩)

/-- `Mempool::add_batch` until the rows are committed, with the id of the batch. -/
def storeBatch (m : StoredMempool) (txs : List SignedZkSyncTx) :
    Outcome (Int × List MempoolTx) := do
  orDbError (Outcome.ensure (db.access = true) "no connection")
  Outcome.ensure (m.mempool.mempoolState.chunksForBatch txs ≤ m.mempool.maxBlockSizeChunks)
    "Batch will not fit in any of supported block sizes"
  Outcome.ensure (txs.countP (·.tx.isWithdraw) ≤ m.mempool.maxNumberOfWithdrawalsPerBlock)
    "The number of withdrawals in the batch is too big"
  orDbError do
    Outcome.ensure (db.startTransaction = true) "no transaction"
    let stored ← MempoolSchema.insertBatch hash db m.table txs
    Outcome.ensure (db.commit = true) "not committed"
    return stored

/-- `Mempool::add_batch`. -/
def addBatch (m : StoredMempool) (txs : List SignedZkSyncTx) : Outcome Unit × StoredMempool :=
  match m.storeBatch hash db txs with
  | .error e => (.error e, m)
  | .ok (batchId, table) =>
    match m.mempool.mempoolState.addBatch ⟨txs, batchId⟩ with
    | .error e => (.error e, { m with table := table })
    | .ok mempoolState => (.ok (), ⟨{ m.mempool with mempoolState := mempoolState }, table⟩)

/-- The arms of `Mempool::run` that admit. -/
def handle (m : StoredMempool) : MempoolRequest → Outcome Unit × StoredMempool
  | .NewTx tx => m.addTx hash db tx
  | .NewTxsBatch txs => m.addBatch hash db txs

end StoredMempool

/-! ## What a restart loads -/

/-- The transactions of an entry of the queue. -/
def SignedTxVariant.transactions : SignedTxVariant → List SignedZkSyncTx
  | .Tx tx => [tx]
  | .Batch batch => batch.txs

namespace MempoolSchema

variable {hash : ZkSyncTx → Bytes} {table : List MempoolTx}

/-- The entries of a group hold its transactions, in order. -/
theorem transactions_variantsOf (group : List MempoolTx) :
    (variantsOf group).flatMap SignedTxVariant.transactions = group.map (·.tx) := by
  unfold variantsOf
  split
  next => exact List.append_nil _
  next =>
    rw [List.flatMap_map]
    exact List.flatMap_pure_eq_map _ group

/-- Loading neither loses nor doubles a row. -/
theorem loadTxs_perm (table : List MempoolTx) :
    ((loadTxs table).flatMap SignedTxVariant.transactions).Perm (table.map (·.tx)) := by
  refine ((List.mergeSort_perm _ _).flatMap_right _).trans ?_
  rw [List.flatMap_assoc]
  simp only [transactions_variantsOf]
  rw [← List.map_flatMap, List.flatMap_id', List.flatten_splitBy]
  exact (List.mergeSort_perm _ _).map _

/-- What was executed is taken from the table. -/
theorem mem_collectGarbage {executed : Bytes → Bool} {row : MempoolTx} (hrow : row ∈ table)
    (hkept : row.txHash ∉ txHashesToRemove hash executed table) :
    row ∈ collectGarbage hash executed table :=
  List.mem_filter.mpr ⟨hrow, decide_eq_true hkept⟩

/-! ## What an insertion writes -/

/-- The rows hold the transactions, under their hashes. -/
def RowsOf (hash : ZkSyncTx → Bytes) (rows : List MempoolTx) (txs : List SignedZkSyncTx) : Prop :=
  rows.map (fun row => (row.txHash, row.tx)) = txs.map fun tx => (hash tx.tx, tx)

/-- Each transaction has its row. -/
theorem RowsOf.mem {rows : List MempoolTx} {txs : List SignedZkSyncTx} (h : RowsOf hash rows txs)
    {tx : SignedZkSyncTx} (htx : tx ∈ txs) : ∃ row ∈ rows, row.txHash = hash tx.tx ∧ row.tx = tx := by
  have hmem : (hash tx.tx, tx) ∈ txs.map fun tx => (hash tx.tx, tx) :=
    List.mem_map.mpr ⟨tx, htx, rfl⟩
  rw [← h] at hmem
  obtain ⟨row, hrow, he⟩ := List.mem_map.mp hmem
  exact ⟨row, hrow, congrArg Prod.fst he, congrArg Prod.snd he⟩

theorem RowsOf.ne_nil {rows : List MempoolTx} {txs : List SignedZkSyncTx} (h : RowsOf hash rows txs)
    (hne : txs ≠ []) : rows ≠ [] := by
  rintro rfl
  exact hne (List.map_eq_nil_iff.mp h.symm)

variable {db : MempoolReplies}

/-- A transaction is one row more. -/
theorem insertTx_eq_ok {table' : List MempoolTx} {tx : SignedZkSyncTx} :
    insertTx hash db table tx = .ok table' ↔
      db.queries ∧ table ++ [⟨hash tx.tx, tx, db.now 0, 0⟩] = table' := by
  simp only [insertTx, Outcome.bind_eq_ok, Outcome.ensure_eq_ok, Outcome.pure_eq, Except.ok.injEq,
    exists_const]

/-- The largest id is at least that of the first row, which is positive. -/
theorem maxBatchId_append (table : List MempoolTx) (row : MempoolTx) (h : 0 < row.batchId) :
    ∃ batchId, maxBatchId (table ++ [row]) = some batchId ∧ 0 < batchId := by
  have hmem : row.batchId ∈ (table ++ [row]).map (·.batchId) :=
    List.mem_map.mpr ⟨row, List.mem_append_right _ (List.mem_singleton.mpr rfl), rfl⟩
  obtain ⟨batchId, hmax⟩ := Option.isSome_iff_exists.mp (List.isSome_max?_of_mem hmem)
  exact ⟨batchId, hmax, Int.lt_of_lt_of_le h ((List.max?_eq_some_iff.mp hmax).2 _ hmem)⟩

/-- A batch with a transaction is inserted if the queries are answered, under a
positive id. -/
theorem insertBatch_spec (hash : ZkSyncTx → Bytes) (table : List MempoolTx)
    {txs : List SignedZkSyncTx} (hne : txs ≠ []) (hq : db.queries) :
    ∃ batchId rows, insertBatch hash db table txs = .ok (batchId, table ++ rows) ∧ 0 < batchId ∧
      RowsOf hash rows txs := by
  obtain ⟨first, rest, rfl⟩ := List.exists_cons_of_ne_nil hne
  obtain ⟨batchId, hmax, hpos⟩ :=
    maxBatchId_append table ⟨hash first.tx, first, db.now 0, db.serial⟩ db.serial.2
  refine ⟨batchId, ⟨hash first.tx, first, db.now 0, db.serial⟩ ::
    rest.mapIdx fun i tx => ⟨hash tx.tx, tx, db.now (i + 1), batchId⟩, ?_, hpos, ?_⟩
  · simp only [insertBatch, Outcome.ensure, if_pos hq, Outcome.ok_bind, hmax, Outcome.okOrElse,
      Outcome.pure_eq, List.append_assoc, List.cons_append, List.nil_append]
  · unfold RowsOf
    rw [List.map_cons, List.map_cons]
    refine congrArg _ (List.ext_getElem? fun i => ?_)
    rw [List.getElem?_map, List.getElem?_mapIdx, List.getElem?_map, Option.map_map]
    rfl

/-- An empty batch is refused. -/
theorem insertBatch_eq_ok {txs : List SignedZkSyncTx} {stored : Int × List MempoolTx}
    (h : insertBatch hash db table txs = .ok stored) : txs ≠ [] ∧ db.queries := by
  cases txs with
  | nil => exact absurd h Outcome.bail_ne_ok
  | cons first rest =>
    simp only [insertBatch, Outcome.bind_eq_ok, Outcome.ensure_eq_ok] at h
    obtain ⟨_, hq, -⟩ := h
    exact ⟨List.cons_ne_nil _ _, hq⟩

end MempoolSchema

/-! ## What a refusal leaves behind -/

section Refusals

variable {hash : ZkSyncTx → Bytes} {db : MempoolReplies} {m : StoredMempool}

/-- The nonce of the transaction is below the one the mempool has for it. -/
def MempoolState.Stale (m : MempoolState) (tx : SignedZkSyncTx) : Prop :=
  tx.tx.nonce < m.nonce tx.tx.account

/-- A transaction is stale if its nonce is below the known one. -/
theorem MempoolState.stale_iff {m : MempoolState} {tx : SignedZkSyncTx} :
    m.Stale tx ↔ ¬ m.nonce tx.tx.account ≤ tx.tx.nonce :=
  UInt32.not_le.symm

/-- Then it is refused. -/
theorem MempoolState.addTx_of_stale {m : MempoolState} {tx : SignedZkSyncTx} (h : m.Stale tx) :
    m.addTx tx = Outcome.bail "Tx nonce is too low." := by
  unfold MempoolState.addTx Outcome.ensure
  rw [if_neg (stale_iff.mp h)]
  rfl

/-- Otherwise it is admitted. -/
theorem MempoolState.addTx_of_not_stale {m : MempoolState} {tx : SignedZkSyncTx}
    (h : ¬ m.Stale tx) : ∃ m', m.addTx tx = .ok m' := by
  unfold MempoolState.addTx Outcome.ensure
  rw [if_pos (not_not.mp fun hn => h (stale_iff.mpr hn))]
  exact ⟨_, rfl⟩

/-- One stale transaction refuses its batch. -/
theorem MempoolState.addBatch_of_stale {m : MempoolState} {batch : SignedTxsBatch}
    (hid : batch.batchId ≠ 0) {tx : SignedZkSyncTx} (htx : tx ∈ batch.txs) (h : m.Stale tx) :
    m.addBatch batch = Outcome.bail "Tx nonce is too low." := by
  have hnot : ¬ ∀ tx ∈ batch.txs, m.nonce tx.tx.account ≤ tx.tx.nonce :=
    fun hall => stale_iff.mp h (hall tx htx)
  unfold MempoolState.addBatch Outcome.assert Outcome.ensure
  rw [if_pos hid, Outcome.ok_bind]
  unfold MempoolState.nonce at hnot
  rw [if_neg hnot]
  rfl

/-- Without one the batch is admitted. -/
theorem MempoolState.addBatch_of_not_stale {m : MempoolState} {batch : SignedTxsBatch}
    (hid : batch.batchId ≠ 0) (h : ∀ tx ∈ batch.txs, ¬ m.Stale tx) :
    ∃ m', m.addBatch batch = .ok m' := by
  have hall : ∀ tx ∈ batch.txs, m.nonce tx.tx.account ≤ tx.tx.nonce :=
    fun tx htx => not_not.mp fun hn => h tx htx (stale_iff.mpr hn)
  unfold MempoolState.addBatch Outcome.assert Outcome.ensure
  rw [if_pos hid, Outcome.ok_bind]
  unfold MempoolState.nonce at hall
  rw [if_pos hall]
  exact ⟨_, rfl⟩

namespace StoredMempool

/-- An error of the database becomes one of the mempool. -/
theorem orDbError_eq_ok {α : Type} {x : Outcome α} {a : α} : orDbError x = .ok a ↔ x = .ok a := by
  unfold orDbError
  split
  next => exact ⟨fun h => absurd h Outcome.bail_ne_ok, fun h => (by cases h)⟩
  next => exact Iff.rfl

/-- The transactions a request brings. -/
def submitted : MempoolRequest → List SignedZkSyncTx
  | .NewTx tx => [tx]
  | .NewTxsBatch txs => txs

/-- A batch within the limits of a block. A single transaction is not measured. -/
def Fits (m : StoredMempool) : MempoolRequest → Prop
  | .NewTx _ => True
  | .NewTxsBatch txs =>
    m.mempool.mempoolState.chunksForBatch txs ≤ m.mempool.maxBlockSizeChunks ∧
      txs.countP (·.tx.isWithdraw) ≤ m.mempool.maxNumberOfWithdrawalsPerBlock

/-- The rows of the request are committed before its nonces are compared, and one
of them is too low. -/
def RefusedAfterCommit (db : MempoolReplies) (m : StoredMempool) (request : MempoolRequest) :
    Prop :=
  db.Answers ∧ m.Fits request ∧ ∃ tx ∈ submitted request, m.mempool.mempoolState.Stale tx

/-- If the request ends in an error, the mempool and its table are what they
were, and a restart loads what it would have loaded. -/
def LeavesNoTrace (hash : ZkSyncTx → Bytes) (db : MempoolReplies) (m : StoredMempool)
    (request : MempoolRequest) : Prop :=
  ∀ e, (m.handle hash db request).1 = .error e →
    (m.handle hash db request).2.mempool = m.mempool ∧
      (m.handle hash db request).2.table = m.table ∧
      ∀ executed accounts,
        MempoolState.restoreFromDb hash executed accounts (m.handle hash db request).2.table =
          MempoolState.restoreFromDb hash executed accounts m.table

theorem leavesNoTrace_of_eq {request : MempoolRequest}
    (h : ∀ e, (m.handle hash db request).1 = .error e → (m.handle hash db request).2 = m) :
    LeavesNoTrace hash db m request := by
  intro e he
  rw [h e he]
  exact ⟨rfl, rfl, fun _ _ => rfl⟩

/-- A transaction is stored by one row, if the database answers. -/
theorem storeTx_eq_ok {table' : List MempoolTx} {tx : SignedZkSyncTx} :
    storeTx hash db m.table tx = .ok table' ↔
      db.Answers ∧ m.table ++ [⟨hash tx.tx, tx, db.now 0, 0⟩] = table' := by
  unfold storeTx MempoolReplies.Answers
  simp only [orDbError_eq_ok, Outcome.bind_eq_ok, Outcome.ensure_eq_ok,
    MempoolSchema.insertTx_eq_ok, Outcome.pure_eq, Except.ok.injEq, exists_const]
  constructor
  · rintro ⟨ha, hs, _, ⟨hq, rfl⟩, hc, rfl⟩
    exact ⟨⟨ha, hs, hq, hc⟩, rfl⟩
  · rintro ⟨⟨ha, hs, hq, hc⟩, rfl⟩
    exact ⟨ha, hs, _, ⟨hq, rfl⟩, hc, rfl⟩

/-- A batch is stored by a row for each transaction, under a new id. -/
theorem storeBatch_spec (hash : ZkSyncTx → Bytes) {txs : List SignedZkSyncTx} (hne : txs ≠ [])
    (hdb : db.Answers)
    (hfits : m.Fits (.NewTxsBatch txs)) :
    ∃ batchId rows, m.storeBatch hash db txs = .ok (batchId, m.table ++ rows) ∧ 0 < batchId ∧
      MempoolSchema.RowsOf hash rows txs := by
  obtain ⟨ha, hs, hq, hc⟩ := hdb
  obtain ⟨batchId, rows, hinsert, hpos, hrows⟩ :=
    MempoolSchema.insertBatch_spec hash m.table hne hq
  refine ⟨batchId, rows, ?_, hpos, hrows⟩
  unfold storeBatch
  rw [Outcome.bind_eq_ok]
  refine ⟨(), orDbError_eq_ok.mpr (Outcome.ensure_eq_ok.mpr ha), ?_⟩
  simp only [Outcome.ensure, if_pos hfits.1, if_pos hfits.2, Outcome.ok_bind, orDbError_eq_ok,
    if_pos hs, if_pos hc, hinsert, Outcome.pure_eq]

/-- What must have gone well before the rows of a batch are committed. -/
theorem storeBatch_eq_ok {txs : List SignedZkSyncTx} {stored : Int × List MempoolTx}
    (h : m.storeBatch hash db txs = .ok stored) :
    txs ≠ [] ∧ db.Answers ∧ m.Fits (.NewTxsBatch txs) := by
  unfold storeBatch at h
  simp only [Outcome.bind_eq_ok, orDbError_eq_ok, Outcome.ensure_eq_ok, exists_const] at h
  obtain ⟨ha, hchunks, hwithdrawals, hs, _, hinsert, hc, -⟩ := h
  obtain ⟨hne, hq⟩ := MempoolSchema.insertBatch_eq_ok hinsert
  exact ⟨hne, ⟨ha, hs, hq, hc⟩, hchunks, hwithdrawals⟩

/-- A request refused after the commit has its rows at the end of the table. -/
theorem handle_of_refusedAfterCommit (hash : ZkSyncTx → Bytes) {request : MempoolRequest}
    (h : m.RefusedAfterCommit db request) :
    ∃ rows, m.handle hash db request =
        (Outcome.bail "Tx nonce is too low.", { m with table := m.table ++ rows }) ∧
      MempoolSchema.RowsOf hash rows (submitted request) := by
  obtain ⟨hdb, hfits, tx, htx, hstale⟩ := h
  cases request with
  | NewTx tx' =>
    obtain rfl := List.mem_singleton.mp htx
    refine ⟨[⟨hash tx.tx, tx, db.now 0, 0⟩], ?_, rfl⟩
    show m.addTx hash db tx = _
    unfold addTx
    rw [storeTx_eq_ok.mpr ⟨hdb, rfl⟩]
    dsimp only
    rw [MempoolState.addTx_of_stale hstale]
    rfl
  | NewTxsBatch txs =>
    change tx ∈ txs at htx
    obtain ⟨batchId, rows, hstore, hpos, hrows⟩ :=
      storeBatch_spec hash (List.ne_nil_of_mem htx) hdb hfits
    refine ⟨rows, ?_, hrows⟩
    show m.addBatch hash db txs = _
    unfold addBatch
    rw [hstore]
    dsimp only
    rw [MempoolState.addBatch_of_stale (Int.ne_of_gt hpos) htx hstale]
    rfl

/-- Every other request that ends in an error changes nothing. -/
theorem handle_of_not_refusedAfterCommit {request : MempoolRequest}
    (h : ¬ m.RefusedAfterCommit db request) {e : Failure}
    (he : (m.handle hash db request).1 = .error e) : (m.handle hash db request).2 = m := by
  cases request with
  | NewTx tx =>
    change (m.addTx hash db tx).1 = _ at he
    show (m.addTx hash db tx).2 = m
    unfold addTx at he ⊢
    cases hstore : storeTx hash db m.table tx with
    | error e' => rfl
    | ok table =>
      have hfresh : ¬ m.mempool.mempoolState.Stale tx := fun hstale =>
        h ⟨(storeTx_eq_ok.mp hstore).1, trivial, tx, List.mem_singleton.mpr rfl, hstale⟩
      obtain ⟨m', hadd⟩ := MempoolState.addTx_of_not_stale hfresh
      rw [hstore] at he
      dsimp only at he
      rw [hadd] at he
      cases he
  | NewTxsBatch txs =>
    change (m.addBatch hash db txs).1 = _ at he
    show (m.addBatch hash db txs).2 = m
    unfold addBatch at he ⊢
    cases hstore : m.storeBatch hash db txs with
    | error e' => rfl
    | ok stored =>
      obtain ⟨hne, hdb, hfits⟩ := storeBatch_eq_ok hstore
      obtain ⟨batchId, rows, hstore', hpos, -⟩ := storeBatch_spec hash hne hdb hfits
      obtain rfl : stored = (batchId, m.table ++ rows) :=
        Except.ok.inj (hstore.symm.trans hstore')
      have hfresh : ∀ tx ∈ txs, ¬ m.mempool.mempoolState.Stale tx := fun tx htx hstale =>
        h ⟨hdb, hfits, tx, htx, hstale⟩
      obtain ⟨m', hadd⟩ : ∃ m', m.mempool.mempoolState.addBatch ⟨txs, batchId⟩ = .ok m' :=
        MempoolState.addBatch_of_not_stale (Int.ne_of_gt hpos) hfresh
      rw [hstore] at he
      dsimp only at he
      rw [hadd] at he
      cases he

/-- A refused request leaves no trace unless its rows were committed before its
nonces were compared. -/
theorem leavesNoTrace_iff (hash : ZkSyncTx → Bytes) (db : MempoolReplies) (m : StoredMempool)
    (request : MempoolRequest) :
    LeavesNoTrace hash db m request ↔ ¬ m.RefusedAfterCommit db request := by
  constructor
  · intro hclean hrefused
    obtain ⟨rows, hhandle, hrows⟩ := handle_of_refusedAfterCommit hash hrefused
    obtain ⟨-, -, tx, htx, -⟩ := hrefused
    obtain ⟨-, htable, -⟩ := hclean _ (congrArg Prod.fst hhandle)
    rw [hhandle] at htable
    exact hrows.ne_nil (List.ne_nil_of_mem htx) (List.append_right_eq_self.mp htable)
  · exact fun h => leavesNoTrace_of_eq fun e he => handle_of_not_refusedAfterCommit h he

/-- After the refusal a restart puts the transaction into the queue, unless its
hash counts as executed. -/
theorem mem_restoreFromDb_of_refused {request : MempoolRequest}
    (h : m.RefusedAfterCommit db request) {tx : SignedZkSyncTx} (htx : tx ∈ submitted request)
    {executed : Bytes → Bool} {accounts : AList fun _ : AccountId => Account}
    (hkept : hash tx.tx ∉ MempoolSchema.txHashesToRemove hash executed
      (m.handle hash db request).2.table) :
    tx ∈ (MempoolState.restoreFromDb hash executed accounts
      (m.handle hash db request).2.table).readyTxs.flatMap SignedTxVariant.transactions := by
  obtain ⟨rows, hhandle, hrows⟩ := handle_of_refusedAfterCommit hash h
  obtain ⟨row, hrow, hrowHash, rfl⟩ := hrows.mem htx
  rw [hhandle] at hkept ⊢
  rw [← hrowHash] at hkept
  refine (MempoolSchema.loadTxs_perm _).mem_iff.mpr (List.mem_map.mpr ⟨row, ?_, rfl⟩)
  exact MempoolSchema.mem_collectGarbage (List.mem_append_right _ hrow) hkept

end StoredMempool

end Refusals

/-! ## A stale transaction that comes back -/

namespace StaleSample

def sender : Address := 0xa

/-- A transfer with the nonce the account has used already. -/
def staleTx : SignedZkSyncTx :=
  ⟨.Transfer ⟨1, sender, 0xb, 0, 5, 1, 0, ⟨0, 0⟩⟩, none⟩

/-- The mempool after a restart; the sender has the nonce 1. -/
def mempool : StoredMempool :=
  ⟨⟨{ accountNonces := Finmap.singleton sender 1
      accountIds := Finmap.singleton 1 sender
      readyTxs := [] }, 10, 10⟩, []⟩

/-- A database that answers everything. -/
def replies : MempoolReplies := ⟨true, true, true, true, ⟨1, by decide⟩, fun n => n⟩

def hash (tx : ZkSyncTx) : Bytes := [tx.nonce.toUInt8]

/-- The transfer is refused, its row stays, and after a restart it waits. -/
theorem staleTx_comes_back :
    (mempool.handle hash replies (.NewTx staleTx)).1 =
        .error (.error "Tx nonce is too low.") ∧
      (mempool.handle hash replies (.NewTx staleTx)).2.table = [⟨[0], staleTx, 0, 0⟩] ∧
      (MempoolState.restoreFromDb hash (fun _ => false) ∅
        (mempool.handle hash replies (.NewTx staleTx)).2.table).readyTxs = [.Tx staleTx] ∧
      ¬ StoredMempool.LeavesNoTrace hash replies mempool (.NewTx staleTx) := by
  refine ⟨rfl, rfl, by decide +kernel, fun h => ?_⟩
  obtain ⟨-, htable, -⟩ := h (.error "Tx nonce is too low.") rfl
  cases htable

end StaleSample

end ZkSync
