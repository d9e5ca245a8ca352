import Mathlib.Data.List.MinMax
import ZkSync.Core.BlockOps
import ZkSync.Core.Mempool
import ZkSync.Lib.Table

/-!
# The tables of withdrawals

`storage::chain::operations`, as far as it tells in which Ethereum transaction a
withdrawal was completed. The server numbers the withdrawals of the blocks it
commits, each with the next number behind the largest there is; the contract
reports which positions of its queue it has completed. `eth_tx_for_withdrawal`
joins the two: the numbers are meant to be the positions.

`commitBlock_rows` says what the committer's loop over the operations of a block
adds: one row for each of its withdrawals, in their order and without a gap.

The numbers are `i64` in the source; they are integers here.
-/

namespace ZkSync.PendingWithdrawals

/-! ## Rows -/

section Records

variable (H E : Type)

structure StoredPendingWithdrawal where
  id : Int
  withdrawalHash : H
  deriving DecidableEq

/-- An event of the contract, with the hash of its transaction. -/
structure CompleteWithdrawalsTx where
  txHash : E
  pendingWithdrawalsQueueStartIndex : UInt32
  pendingWithdrawalsQueueEndIndex : UInt32
  deriving DecidableEq

structure StoredCompleteWithdrawalsTransaction where
  txHash : E
  pendingWithdrawalsQueueStartIndex : Int
  pendingWithdrawalsQueueEndIndex : Int
  deriving DecidableEq

structure Tables where
  pendingWithdrawals : Table (StoredPendingWithdrawal H) (·.id)
  completeWithdrawalsTransactions :
    Table (StoredCompleteWithdrawalsTransaction E) (·.txHash)

end Records

section Queries

variable {H E : Type}

instance : EmptyCollection (Tables H E) := ⟨⟨∅, ∅⟩⟩

/-- `SELECT max(id)`. -/
def Tables.maxId (db : Tables H E) : Option Int := (db.pendingWithdrawals.rows.map (·.id)).max?

/-- The number of a withdrawal that is given none. -/
def Tables.nextId (db : Tables H E) : Option Int → Outcome Int
  | some id => .ok id
  | none => do
    let max ← Outcome.okOrElse db.maxId "there is no pending withdrawals in the db"
    return max + 1

def addPendingWithdrawal (db : Tables H E) (hash : H) (id : Option Int) :
    Outcome (Tables H E) := do
  let pendingWithdrawalId ← db.nextId id
  return { db with
    pendingWithdrawals := db.pendingWithdrawals.upsert ⟨pendingWithdrawalId, hash⟩ }

/-- One row for each transaction: the last event of a transaction is the one that stays. -/
def addCompleteWithdrawalsTransaction [DecidableEq E] (db : Tables H E)
    (tx : CompleteWithdrawalsTx E) : Tables H E :=
  { db with
    completeWithdrawalsTransactions := db.completeWithdrawalsTransactions.upsert
      ⟨tx.txHash, tx.pendingWithdrawalsQueueStartIndex.toNat,
        tx.pendingWithdrawalsQueueEndIndex.toNat⟩ }

def Tables.noStoredPendingWithdrawals (db : Tables H E) : Bool :=
  db.pendingWithdrawals.rows.length == 0

/-- The transaction that completed the withdrawal with this hash. Neither query has an
order, so with several rows to answer with, any of them is the answer. -/
def Tables.EthTxForWithdrawal (db : Tables H E) (withdrawalHash : H) (r : Option E) : Prop :=
  ∃ pendingWithdrawal,
    db.pendingWithdrawals.SelectsOne (·.withdrawalHash = withdrawalHash) pendingWithdrawal ∧
    match pendingWithdrawal with
    | none => r = none
    | some pendingWithdrawal => ∃ tx,
      db.completeWithdrawalsTransactions.SelectsOne (fun tx =>
        tx.pendingWithdrawalsQueueStartIndex ≤ pendingWithdrawal.id ∧
          pendingWithdrawal.id < tx.pendingWithdrawalsQueueEndIndex) tx ∧
      r = tx.map (·.txHash)

/-- `insert_pending_withdrawals`: an empty table gets a row that is no withdrawal, so
that the next number is the next position of the contract's queue. -/
def insertPendingWithdrawals [Inhabited H] (db : Tables H E)
    (pendingWithdrawalsQueueIndex : UInt32) : Outcome (Tables H E) :=
  if db.noStoredPendingWithdrawals then
    addPendingWithdrawal db default (some ((pendingWithdrawalsQueueIndex.toNat : Int) - 1))
  else .ok db

/-- One round of the loop of `commit_block`. The text of the panic has the
transaction in it, which is left out. -/
def savePendingWithdrawal (hash : ZkSyncTx → H) (db : Tables H E) :
    ExecutedOperations → Outcome (Tables H E)
  | .Tx execTx =>
    if execTx.success && execTx.signedTx.tx.isWithdraw then
      (addPendingWithdrawal db (hash execTx.signedTx.tx) none).mapError fun e =>
        .panic ("failed to save pending withdrawals into db: " ++ e.message)
    else .ok db
  | .PriorityOp _ => .ok db

/-- `commit_block`, as far as it saves withdrawals. -/
def commitBlock (hash : ZkSyncTx → H) (db : Tables H E) (block : Block) : Outcome (Tables H E) :=
  block.blockTransactions.foldlM (savePendingWithdrawal hash) db

end Queries

/-! ## What the loop adds -/

section Commit

variable {H E : Type} (hash : ZkSyncTx → H) {db db' : Tables H E} {m : Int}

/-- The hash of a withdrawal that was executed. -/
def withdrawalHash : ExecutedOperations → Option H
  | .Tx execTx =>
    if execTx.success && execTx.signedTx.tx.isWithdraw then some (hash execTx.signedTx.tx)
    else none
  | .PriorityOp _ => none

theorem maxId_eq_some : db.maxId = some m ↔
    (∃ row ∈ db.pendingWithdrawals.rows, row.id = m) ∧
      ∀ row ∈ db.pendingWithdrawals.rows, row.id ≤ m := by
  unfold Tables.maxId
  rw [List.max?_eq_some_iff, List.mem_map, List.forall_mem_map]

/-- The rows from `m + 1` on were added, one for each hash. -/
structure Extended (db : Tables H E) (m : Int) (hashes : List H) (db' : Tables H E) : Prop where
  max : db'.maxId = some (m + hashes.length)
  rows : ∀ row, row ∈ db'.pendingWithdrawals.rows ↔ row ∈ db.pendingWithdrawals.rows ∨
    ∃ (k : Nat) (h : H), hashes[k]? = some h ∧ row = ⟨m + 1 + k, h⟩
  complete : db'.completeWithdrawalsTransactions = db.completeWithdrawalsTransactions

theorem Extended.nil (hmax : db.maxId = some m) : Extended db m [] db where
  max := by
    rw [hmax, List.length_nil, Nat.cast_zero, Int.add_zero]
  rows row := by
    refine ⟨Or.inl, fun h => h.elim id ?_⟩
    rintro ⟨k, h, hk, -⟩
    cases hk
  complete := rfl

theorem Extended.cons {db₁ : Tables H E} {h : H} {hashes : List H}
    (h₁ : Extended db m [h] db₁) (h₂ : Extended db₁ (m + 1) hashes db') :
    Extended db m (h :: hashes) db' where
  max := by
    rw [h₂.max, List.length_cons, Nat.cast_succ]
    congr 1
    omega
  rows row := by
    rw [h₂.rows, h₁.rows, or_assoc]
    refine or_congr_right ⟨?_, ?_⟩
    · rintro (⟨k, h', hk, rfl⟩ | ⟨k, h', hk, rfl⟩)
      · cases k with
        | zero => exact ⟨0, h', hk, rfl⟩
        | succ k => cases hk
      · refine ⟨k + 1, h', hk, ?_⟩
        rw [Nat.cast_succ, Int.add_comm (k : Int) 1, Int.add_assoc (m + 1)]
    · rintro ⟨k, h', hk, rfl⟩
      cases k with
      | zero => exact Or.inl ⟨0, h', hk, rfl⟩
      | succ k =>
        refine Or.inr ⟨k, h', hk, ?_⟩
        rw [Nat.cast_succ, Int.add_comm (k : Int) 1, Int.add_assoc (m + 1)]
  complete := h₂.complete.trans h₁.complete

theorem addPendingWithdrawal_next (hmax : db.maxId = some m) (h : H) :
    ∃ db', addPendingWithdrawal db h none = .ok db' ∧ Extended db m [h] db' := by
  have hle := (maxId_eq_some.mp hmax).2
  let db' : Tables H E :=
    { db with pendingWithdrawals := db.pendingWithdrawals.upsert ⟨m + 1, h⟩ }
  have hadd : addPendingWithdrawal db h none = .ok db' := by
    unfold addPendingWithdrawal Tables.nextId
    rw [hmax]
    rfl
  -- No row has the next number yet.
  have hrows : ∀ row, row ∈ db'.pendingWithdrawals.rows ↔
      row ∈ db.pendingWithdrawals.rows ∨ row = ⟨m + 1, h⟩ := by
    intro row
    refine Table.mem_upsert.trans (Or.comm.trans (or_congr_left ?_))
    refine and_iff_left_of_imp fun hrow heq => ?_
    have := hle row hrow
    have heq : row.id = m + 1 := heq
    omega
  refine ⟨db', hadd, ?_, fun row => (hrows row).trans (or_congr_right ?_), rfl⟩
  · refine maxId_eq_some.mpr ⟨⟨_, (hrows _).mpr (Or.inr rfl), rfl⟩, fun row hrow => ?_⟩
    rcases (hrows row).mp hrow with hrow | rfl
    · exact (hle row hrow).trans (by rw [List.length_singleton]; omega)
    · exact Int.le_refl _
  · refine ⟨fun heq => ⟨0, h, rfl, heq.trans (by rw [Nat.cast_zero, Int.add_zero])⟩, ?_⟩
    rintro ⟨k, h', hk, rfl⟩
    cases k with
    | zero =>
      cases hk
      rw [Nat.cast_zero, Int.add_zero]
    | succ k => cases hk

theorem savePendingWithdrawal_spec (hmax : db.maxId = some m) (op : ExecutedOperations) :
    ∃ db', savePendingWithdrawal hash db op = .ok db' ∧
      Extended db m (withdrawalHash hash op).toList db' := by
  cases op with
  | PriorityOp op => exact ⟨db, rfl, .nil hmax⟩
  | Tx execTx =>
    unfold savePendingWithdrawal withdrawalHash
    dsimp only
    split
    next =>
      obtain ⟨db', hadd, hext⟩ := addPendingWithdrawal_next hmax (hash execTx.signedTx.tx)
      refine ⟨db', ?_, hext⟩
      rw [hadd]
      rfl
    next => exact ⟨db, rfl, .nil hmax⟩

/-- Over a table with a largest number, the loop succeeds, and numbers the withdrawals
one after the other. -/
theorem savePendingWithdrawals_spec (ops : List ExecutedOperations) :
    ∀ {db : Tables H E} {m : Int}, db.maxId = some m →
      ∃ db', ops.foldlM (savePendingWithdrawal hash) db = .ok db' ∧
        Extended db m (ops.filterMap (withdrawalHash hash)) db' := by
  induction ops with
  | nil => exact fun hmax => ⟨_, rfl, .nil hmax⟩
  | cons op ops ih =>
    intro db m hmax
    obtain ⟨db₁, hsave, h₁⟩ := savePendingWithdrawal_spec hash hmax op
    rw [List.foldlM_cons, hsave, List.filterMap_cons]
    cases hop : withdrawalHash hash op with
    | none =>
      rw [hop] at h₁
      have hmax₁ : db₁.maxId = some m := by
        rw [h₁.max]
        exact congrArg some (Int.add_zero m)
      obtain ⟨db', hrest, h₂⟩ := ih hmax₁
      refine ⟨db', hrest, h₂.max, fun row => ?_, h₂.complete.trans h₁.complete⟩
      rw [h₂.rows, h₁.rows]
      refine or_congr_left (or_iff_left ?_)
      rintro ⟨k, h', hk, -⟩
      cases hk
    | some h =>
      rw [hop] at h₁
      obtain ⟨db', hrest, h₂⟩ := ih h₁.max
      exact ⟨db', hrest, h₁.cons h₂⟩

theorem commitBlock_rows {block : Block} (hmax : db.maxId = some m)
    (h : commitBlock hash db block = .ok db') :
    Extended db m (block.blockTransactions.filterMap (withdrawalHash hash)) db' := by
  obtain ⟨db₁, hsave, hext⟩ := savePendingWithdrawals_spec hash block.blockTransactions hmax
  cases h.symm.trans hsave
  exact hext

end Commit

end ZkSync.PendingWithdrawals
