import ZkSync.Contract.Agreement
import ZkSync.Contract.Withdrawals
import ZkSync.Core.Retry
import ZkSync.DataRestore.RollupOps
import ZkSync.Storage.PendingWithdrawals

/-!
# The server's numbers and the contract's positions

The committer numbers the withdrawals it finds among the executed operations of a
block; the contract queues the withdrawals it finds in the records of the block,
when the block is verified. Both select the same operations in the same order
(`hashes_placed`, `queuedIn_withdrawalsIn`), so the numbers are the positions.

`Bridge` is the server's tables beside the contract, with what was queued since the
server started: every entry keeps the hash of its transaction, and of a completed one
also the transaction that completed it. `Aligned` is the invariant.

The tables have room for one interval of a transaction, and the contract can be called
more than once in one: then the first interval is lost (`completed_twice`). So steps
have to fit (`StepFits`).
-/

namespace ZkSync.PendingWithdrawals

open Contract (Storage Externals Call CallStep Queued Withdrawal withdrawalsIn queuedIn
  withdrawalsOf onchainWithdrawal minU32)

/-! ## What a block puts into the queue -/

/-- An entry of the contract's queue, with the hash of the transaction it comes from; none
if it was there before the server started. -/
structure QueueEntry (H : Type) where
  hash : Option H
  record : Contract.PendingWithdrawal
  deriving DecidableEq

/-- The record a withdrawing operation puts into the queue. A full exit is paid out, but
never queued. -/
def queuedRecord : ZkSyncOp → Option Contract.PendingWithdrawal
  | .Withdraw op => some ⟨op.tx.toAddress, op.tx.token⟩
  | .ForcedExit op => some ⟨op.tx.target, op.tx.token⟩
  | _ => none

section Placed

variable {H : Type} (hash : ZkSyncTx → H)

/-- The hash of a transaction; a priority operation has none. -/
def txHash : ExecutedOperations → Option H
  | .Tx execTx => some (hash execTx.signedTx.tx)
  | .PriorityOp _ => none

/-- The entry that an operation places in the queue. -/
def placedEntry (op : ExecutedOperations) : Option (QueueEntry H) :=
  (op.getExecutedOp.bind queuedRecord).map fun record => ⟨txHash hash op, record⟩

/-- The entries of the withdrawing operations of a block. -/
def placed (block : Block) : List (QueueEntry H) :=
  block.blockTransactions.filterMap (placedEntry hash)

/-- The committer picks the operations that are queued. -/
theorem hash_placedEntry {op : ExecutedOperations} (hop : op.Faithful) :
    (placedEntry hash op).map (·.hash) = (withdrawalHash hash op).map some := by
  cases op with
  | PriorityOp op =>
    have hfaithful : op.op.tryGetPriorityOp = some op.priorityOp.data := hop
    show ((queuedRecord op.op).map _).map _ = none
    cases hop : op.op with
    | Deposit _ | FullExit _ => rfl
    | _ =>
      rw [hop] at hfaithful
      cases hfaithful
  | Tx tx =>
    unfold placedEntry withdrawalHash ExecutedOperations.getExecutedOp txHash
    dsimp only
    rcases hop with ⟨hsuccess, o, ho, htx⟩ | ⟨hfailed, hnone, -⟩
    · rw [hsuccess, ho]
      cases o with
      | Deposit _ | FullExit _ | Noop => cases htx
      | _ =>
        rw [← Option.some.inj htx]
        rfl
    · rw [hfailed, hnone]
      rfl

theorem hashes_placed {block : Block} (hops : ∀ op ∈ block.blockTransactions, op.Faithful) :
    (placed hash block).map (·.hash) =
      (block.blockTransactions.filterMap (withdrawalHash hash)).map some := by
  unfold placed
  rw [List.map_filterMap, List.map_filterMap]
  exact List.filterMap_congr fun op hop => hash_placedEntry hash (hops op hop)

/-- The placed entries have the records of the block. -/
theorem records_placed (block : Block) :
    (placed hash block).map (·.record) = block.executedOps.filterMap queuedRecord := by
  unfold placed Block.executedOps
  rw [List.map_filterMap, List.filterMap_filterMap]
  refine List.filterMap_congr fun op _ => ?_
  show ((op.getExecutedOp.bind queuedRecord).map _).map _ = _
  rw [Option.map_map]
  exact Option.map_id'

end Placed

/-- The contract queues the records of the same operations. -/
theorem queuedIn_withdrawalsOf (ops : List ZkSyncOp) :
    queuedIn (withdrawalsOf ops) = ops.filterMap queuedRecord := by
  induction ops with
  | nil => rfl
  | cons op ops ih =>
    unfold withdrawalsOf at ih ⊢
    cases op with
    | Withdraw op => exact congrArg (_ :: ·) ih
    | ForcedExit op => exact congrArg (_ :: ·) ih
    | _ => exact ih

/-- What is read from the records of a block are the withdrawals of its operations. -/
theorem withdrawalsIn_eq {ops : List ZkSyncOp} {data : Bytes}
    (h : Block.withdrawalsDataOf ops = .ok data) : withdrawalsIn data = withdrawalsOf ops := by
  unfold withdrawalsIn
  rw [Contract.length_withdrawalsDataOf h, Nat.mul_div_cancel _ (by decide), List.range_eq_range']
  exact Contract.records_withdrawalsDataOf h [] rfl

/-- They are what the contract will queue. -/
theorem queuedIn_withdrawalsIn {H : Type} (hash : ZkSyncTx → H) {block : Block} {data : Bytes}
    (h : block.getWithdrawalsData = .ok data) :
    queuedIn (withdrawalsIn data) = (placed hash block).map (·.record) := by
  rw [withdrawalsIn_eq h, queuedIn_withdrawalsOf, records_placed]

/-! ## The server beside the contract -/

/-- The event of a call in the Ethereum transaction with this hash. -/
def completeEvent {E : Type} (s : Storage) (txHash : E) : Call → Option (CompleteWithdrawalsTx E)
  | .completeWithdrawals n _ =>
    let toProcess := minU32 n s.numberOfPendingWithdrawals
    if toProcess > 0 then
      some ⟨txHash, s.firstPendingWithdrawalIndex, s.firstPendingWithdrawalIndex + toProcess⟩
    else none
  | _ => none

/-- A completion begins at the front of the queue. -/
theorem completeEvent_start {E : Type} {s : Storage} {txHash : E} {call : Call}
    {event : CompleteWithdrawalsTx E} (h : completeEvent s txHash call = some event) :
    event.txHash = txHash ∧
      event.pendingWithdrawalsQueueStartIndex = s.firstPendingWithdrawalIndex := by
  unfold completeEvent at h
  split at h
  next =>
    dsimp only at h
    split at h
    · cases h
      exact ⟨rfl, rfl⟩
    · cases h
  next => cases h

/-- The contract, the tables of the server, and the queue that both are about. -/
structure Bridge (H E : Type) where
  db : Tables H E
  /-- The blocks that are saved and not verified yet. -/
  committed : List Block
  contract : Storage
  /-- The entries that were completed since the server started, and in which transaction. -/
  completed : List (QueueEntry H × E)
  /-- The entries that wait in the contract's queue. -/
  queue : List (QueueEntry H)

/-- The keeper has sent this block to be committed. -/
def SentByKeeper (env : Env) (block : Block) : Prop :=
  ∃ initialState feeAccountAddress sizes maxMini fastMini maxWithdrawals k₀ k calls,
    ∃ (request : BlockCommitRequest) (updates : AppliedUpdatesRequest),
      ZkSyncStateKeeper.new env initialState feeAccountAddress sizes maxMini fastMini
        maxWithdrawals = .ok k₀ ∧
      Run (KeeperStep env) k₀ calls k ∧ .Block request updates ∈ sentBy calls ∧
      request.block = block

/-- The contract is called, or the server stores something. -/
inductive BridgeEvent (E : Type) where
  | commit (block : Block)
  /-- The next committed block is verified. -/
  | verify (e : Contract.Event)
  | complete (e : Contract.Event) (txHash : E)
  /-- Any other call of the contract. -/
  | call (e : Contract.Event)

section Bridge

variable {H E : Type} [DecidableEq E]

/-- `store_complete_withdrawals`. -/
def storeCompleteWithdrawals (db : Tables H E) (txs : List (CompleteWithdrawalsTx E)) :
    Tables H E :=
  txs.foldl addCompleteWithdrawalsTransaction db

/-- A step of the contract, or of the server. -/
inductive BridgeStep (env : Env) (ext : Externals) (hash : ZkSyncTx → H) (σ : Bridge H E) :
    BridgeEvent E → Bridge H E → Prop
  | commit {block : Block} {db : Tables H E} (sent : SentByKeeper env block)
      (saved : commitBlock hash σ.db block = .ok db) :
      BridgeStep env ext hash σ (.commit block)
        { σ with db := db, committed := σ.committed ++ [block] }
  | verify {e : Contract.Event} {block : Block} {rest : List Block} {number : UInt32} {proof : List Nat}
      {withdrawalsData : Bytes} {s : Storage} (next : σ.committed = block :: rest)
      (data : block.getWithdrawalsData = .ok withdrawalsData)
      (call : e.call = .verifyBlock number proof withdrawalsData)
      (accepted : CallStep ext σ.contract e s) :
      BridgeStep env ext hash σ (.verify e)
        { σ with committed := rest, contract := s, queue := σ.queue ++ placed hash block }
  | complete {e : Contract.Event} {txHash : E} {n : UInt32} {sends : UInt32 → Contract.TransferOut} {s : Storage}
      (call : e.call = .completeWithdrawals n sends) (accepted : CallStep ext σ.contract e s) :
      BridgeStep env ext hash σ (.complete e txHash)
        { σ with
          db := storeCompleteWithdrawals σ.db (completeEvent σ.contract txHash e.call).toList
          contract := s
          completed := σ.completed ++ (σ.queue.take n.toNat).map fun entry => (entry, txHash)
          queue := σ.queue.drop n.toNat }
  | call {e : Contract.Event} {s : Storage}
      (notVerify : ∀ number proof data, e.call ≠ .verifyBlock number proof data)
      (notComplete : ∀ n sends, e.call ≠ .completeWithdrawals n sends)
      (accepted : CallStep ext σ.contract e s) :
      BridgeStep env ext hash σ (.call e) { σ with contract := s }

/-- The bridge when the server starts, with what waits in the queue. -/
def Bridge.start (s : Storage) (queue : List Contract.PendingWithdrawal) (db : Tables H E) :
    Bridge H E where
  db := db
  committed := []
  contract := s
  completed := []
  queue := queue.map fun record => ⟨none, record⟩

/-! ## What is claimed -/

/-- The numbers are positions, and of every withdrawal the transaction that completed it
is found. -/
structure IdsMatch (σ : Bridge H E) : Prop where
  queued : Queued σ.contract.pendingWithdrawals σ.contract.firstPendingWithdrawalIndex
    σ.contract.numberOfPendingWithdrawals (σ.queue.map (·.record))
  id : ∀ (k : Nat) entry h, σ.queue[k]? = some entry → entry.hash = some h →
    ∀ row, (row ∈ σ.db.pendingWithdrawals.rows ∧ row.withdrawalHash = h) ↔
      row = ⟨(σ.contract.firstPendingWithdrawalIndex + UInt32.ofNat k).toNat, h⟩
  completed : ∀ entry tx h, (entry, tx) ∈ σ.completed → entry.hash = some h →
    ∀ r, σ.db.EthTxForWithdrawal h r ↔ r = some tx
  waiting : ∀ entry h, entry ∈ σ.queue → entry.hash = some h →
    ∀ r, σ.db.EthTxForWithdrawal h r ↔ r = none

/-- A new withdrawal has a new hash, positions do not run over, and no transaction
completes withdrawals twice. -/
def StepFits (hash : ZkSyncTx → H) (σ : Bridge H E) : BridgeEvent E → Prop
  | .commit block =>
    (block.blockTransactions.filterMap (withdrawalHash hash)).Nodup ∧
      ∀ row ∈ σ.db.pendingWithdrawals.rows,
        row.withdrawalHash ∉ block.blockTransactions.filterMap (withdrawalHash hash)
  | .verify e => ∀ number proof withdrawalsData, e.call = .verifyBlock number proof withdrawalsData →
      σ.contract.firstPendingWithdrawalIndex.toNat +
        σ.contract.numberOfPendingWithdrawals.toNat +
          (queuedIn (withdrawalsIn withdrawalsData)).length < 2 ^ 32
  | .complete e txHash => completeEvent σ.contract txHash e.call ≠ none →
      ∀ row ∈ σ.db.completeWithdrawalsTransactions.rows, row.txHash ≠ txHash
  | .call _ => True

end Bridge

/-! ## The invariant -/

section Invariant

variable {H E : Type} {hash : ZkSyncTx → H} {base : Nat} {σ : Bridge H E}

/-- Everything that was queued since the server started, and what will be when the
committed blocks are verified. -/
def Bridge.entries (hash : ZkSyncTx → H) (σ : Bridge H E) : List (QueueEntry H) :=
  σ.completed.map (·.1) ++ σ.queue ++ σ.committed.flatMap (placed hash)

/-- The entries have the numbers from `base` on, the front of the queue when the server
started. -/
structure Aligned (hash : ZkSyncTx → H) (base : Nat) (σ : Bridge H E) : Prop where
  queued : Queued σ.contract.pendingWithdrawals σ.contract.firstPendingWithdrawalIndex
    σ.contract.numberOfPendingWithdrawals (σ.queue.map (·.record))
  front : σ.contract.firstPendingWithdrawalIndex.toNat = base + σ.completed.length
  room : base + σ.completed.length + σ.queue.length < 2 ^ 32
  faithful : ∀ block ∈ σ.committed, ∀ op ∈ block.blockTransactions, op.Faithful
  max : σ.db.maxId = some ((base : Int) + (σ.entries hash).length - 1)
  rows : ∀ (k : Nat) entry h, (σ.entries hash)[k]? = some entry → entry.hash = some h →
    ⟨base + k, h⟩ ∈ σ.db.pendingWithdrawals.rows
  unique : ∀ row ∈ σ.db.pendingWithdrawals.rows, ∀ row' ∈ σ.db.pendingWithdrawals.rows,
    row.withdrawalHash = row'.withdrawalHash → row = row'
  intervals : ∀ row ∈ σ.db.completeWithdrawalsTransactions.rows, ∀ id : Int,
    row.pendingWithdrawalsQueueStartIndex ≤ id → id < row.pendingWithdrawalsQueueEndIndex →
      ∃ (k : Nat) (entry : QueueEntry H), σ.completed[k]? = some (entry, row.txHash) ∧ id = base + k
  covered : ∀ k < σ.completed.length, ∃ row ∈ σ.db.completeWithdrawalsTransactions.rows,
    row.pendingWithdrawalsQueueStartIndex ≤ base + k ∧
      (base : Int) + k < row.pendingWithdrawalsQueueEndIndex

/-- What was completed were the first entries. -/
theorem Bridge.entries_completed {k : Nat} {entry : QueueEntry H} {tx : E}
    (h : σ.completed[k]? = some (entry, tx)) : (σ.entries hash)[k]? = some entry := by
  have hk : k < (σ.completed.map (·.1)).length := by
    rw [List.length_map]
    exact (List.getElem?_eq_some_iff.mp h).1
  unfold Bridge.entries
  rw [List.append_assoc, List.getElem?_append_left hk, List.getElem?_map, h]
  rfl

/-- What waits comes behind them. -/
theorem Bridge.entries_queue {k : Nat} {entry : QueueEntry H} (h : σ.queue[k]? = some entry) :
    (σ.entries hash)[σ.completed.length + k]? = some entry := by
  have hk := (List.getElem?_eq_some_iff.mp h).1
  unfold Bridge.entries
  rw [List.append_assoc, List.getElem?_append_right (by rw [List.length_map]; omega),
    List.length_map, Nat.add_sub_cancel_left, List.getElem?_append_left hk, h]

/-- The row of a withdrawal is the only one of its hash. -/
theorem Aligned.row_iff (h : Aligned hash base σ) {k : Nat} {entry : QueueEntry H} {hash' : H}
    (hentry : (σ.entries hash)[k]? = some entry) (hhash : entry.hash = some hash')
    (row : StoredPendingWithdrawal H) :
    (row ∈ σ.db.pendingWithdrawals.rows ∧ row.withdrawalHash = hash') ↔
      row = ⟨base + k, hash'⟩ := by
  have hrow := h.rows k entry hash' hentry hhash
  constructor
  · rintro ⟨hmem, hh⟩
    exact h.unique row hmem _ hrow hh
  · rintro rfl
    exact ⟨hrow, rfl⟩

/-- The tables name the transaction that has completed the withdrawal. -/
theorem Aligned.ethTxForWithdrawal (h : Aligned hash base σ) {k : Nat} {entry : QueueEntry H}
    {hash' : H} (hentry : (σ.entries hash)[k]? = some entry) (hhash : entry.hash = some hash')
    (r : Option E) : σ.db.EthTxForWithdrawal hash' r ↔
      ∃ tx, σ.db.completeWithdrawalsTransactions.SelectsOne (fun tx =>
        tx.pendingWithdrawalsQueueStartIndex ≤ (base : Int) + k ∧
          (base : Int) + k < tx.pendingWithdrawalsQueueEndIndex) tx ∧ r = tx.map (·.txHash) := by
  have hrow := h.row_iff hentry hhash
  constructor
  · rintro ⟨selected, hselected, hr⟩
    cases selected with
    | none => exact absurd ((hrow _).mpr rfl).2 (hselected _ ((hrow _).mpr rfl).1)
    | some row =>
      rw [(hrow row).mp hselected] at hr
      exact hr
  · intro hr
    exact ⟨some ⟨base + k, hash'⟩, (hrow _).mpr rfl, hr⟩

/-- Both sides number the withdrawals alike. -/
theorem Aligned.idsMatch (h : Aligned hash base σ) : IdsMatch σ where
  queued := h.queued
  id k entry hash' hentry hhash row := by
    have hk := (List.getElem?_eq_some_iff.mp hentry).1
    have hroom := h.room
    have hposition : (σ.contract.firstPendingWithdrawalIndex + UInt32.ofNat k).toNat =
        base + (σ.completed.length + k) := by
      rw [UInt32.toNat_add, h.front, UInt32.toNat_ofNat_of_lt' (show k < 2 ^ 32 by omega)]
      omega
    rw [h.row_iff (Bridge.entries_queue hentry) hhash, hposition]
    rfl
  completed entry tx hash' hmem hhash r := by
    obtain ⟨k, hk⟩ := List.getElem?_of_mem hmem
    rw [h.ethTxForWithdrawal (Bridge.entries_completed hk) hhash]
    -- Whatever row has the number in its interval, it is of that transaction.
    have hselected : ∀ row ∈ σ.db.completeWithdrawalsTransactions.rows,
        row.pendingWithdrawalsQueueStartIndex ≤ (base : Int) + k ∧
          (base : Int) + k < row.pendingWithdrawalsQueueEndIndex → row.txHash = tx := by
      rintro row hrow ⟨hstart, hend⟩
      obtain ⟨k', entry', hk', hid⟩ := h.intervals row hrow _ hstart hend
      obtain rfl : k = k' := by omega
      cases hk.symm.trans hk'
      rfl
    obtain ⟨row, hrow, hcovers⟩ := h.covered k (List.getElem?_eq_some_iff.mp hk).1
    constructor
    · rintro ⟨selected, hselects, rfl⟩
      cases selected with
      | none => exact absurd hcovers (hselects row hrow)
      | some row' => exact congrArg some (hselected row' hselects.1 hselects.2)
    · rintro rfl
      exact ⟨some row, ⟨hrow, hcovers⟩, congrArg some (hselected row hrow hcovers).symm⟩
  waiting entry hash' hmem hhash r := by
    obtain ⟨k, hk⟩ := List.getElem?_of_mem hmem
    rw [h.ethTxForWithdrawal (Bridge.entries_queue hk) hhash]
    have hnone : ∀ row ∈ σ.db.completeWithdrawalsTransactions.rows,
        ¬ (row.pendingWithdrawalsQueueStartIndex ≤ (base : Int) + (σ.completed.length + k : Nat) ∧
          (base : Int) + (σ.completed.length + k : Nat) < row.pendingWithdrawalsQueueEndIndex) := by
      rintro row hrow ⟨hstart, hend⟩
      obtain ⟨k', entry', hk', hid⟩ := h.intervals row hrow _ hstart hend
      have hlt := (List.getElem?_eq_some_iff.mp hk').1
      omega
    constructor
    · rintro ⟨selected, hselects, rfl⟩
      cases selected with
      | none => rfl
      | some row => exact absurd hselects.2 (hnone row hselects.1)
    · rintro rfl
      exact ⟨none, hnone, rfl⟩

end Invariant

/-! ## Steps -/

section Steps

variable {H E : Type} {env : Env} {ext : Externals} {hash : ZkSyncTx → H} {base : Nat}
  {σ : Bridge H E}

/-- The withdrawals of a block that is committed come last, and their hashes are new. -/
theorem Aligned.commit (h : Aligned hash base σ) {block : Block} {db : Tables H E}
    (hops : ∀ op ∈ block.blockTransactions, op.Faithful)
    (hsaved : commitBlock hash σ.db block = .ok db)
    (hnodup : (block.blockTransactions.filterMap (withdrawalHash hash)).Nodup)
    (hnew : ∀ row ∈ σ.db.pendingWithdrawals.rows,
      row.withdrawalHash ∉ block.blockTransactions.filterMap (withdrawalHash hash)) :
    Aligned hash base { σ with db := db, committed := σ.committed ++ [block] } := by
  -- the new rows stand behind all others, in the order of the operations
  have hext := commitBlock_rows hash h.max hsaved
  have hhashes := hashes_placed hash hops
  generalize block.blockTransactions.filterMap (withdrawalHash hash) = hashes at *
  have hlength : (placed hash block).length = hashes.length := by
    have hlength := congrArg List.length hhashes
    rwa [List.length_map, List.length_map] at hlength
  have hentries : Bridge.entries hash { σ with
      db := db
      committed := σ.committed ++ [block] } = σ.entries hash ++ placed hash block := by
    unfold Bridge.entries
    rw [List.flatMap_append, List.flatMap_singleton, List.append_assoc _ _ (placed hash block)]
  refine ⟨h.queued, h.front, h.room, fun b hb => ?_, ?_, fun k entry hash' hk hhash => ?_, ?_, ?_, ?_⟩
  -- for a committed block: the new one, or one of those before
  · rcases List.mem_append.mp hb with hb | hb
    · exact h.faithful b hb
    · rw [List.mem_singleton.mp hb]
      exact hops
  · rw [hentries, hext.max, List.length_append, hlength]
    congr 1
    omega
  · rw [hentries] at hk
    rcases Nat.lt_or_ge k (σ.entries hash).length with hlt | hge
    · rw [List.getElem?_append_left hlt] at hk
      exact (hext.rows _).mpr (Or.inl (h.rows k entry hash' hk hhash))
    · rw [List.getElem?_append_right hge] at hk
      have hat : (hashes.map some)[k - (σ.entries hash).length]? = some (some hash') := by
        rw [← hhashes, List.getElem?_map, hk, ← hhash]
        rfl
      obtain ⟨hash'', hat, heq⟩ := Option.map_eq_some_iff.mp (List.getElem?_map.symm.trans hat)
      cases heq
      refine (hext.rows _).mpr (Or.inr ⟨_, _, hat, ?_⟩)
      congr 1
      omega
  · intro row hrow row' hrow' heq
    rcases (hext.rows row).mp hrow with hrow | ⟨k, hash₁, hk, rfl⟩
    · rcases (hext.rows row').mp hrow' with hrow' | ⟨k', hash₂, hk', rfl⟩
      · exact h.unique row hrow row' hrow' heq
      · have heq : row.withdrawalHash = hash₂ := heq
        exact absurd (List.mem_of_getElem? hk') (heq ▸ hnew row hrow)
    · rcases (hext.rows row').mp hrow' with hrow' | ⟨k', hash₂, hk', rfl⟩
      · have heq : hash₁ = row'.withdrawalHash := heq
        exact absurd (List.mem_of_getElem? hk) (heq ▸ hnew row' hrow')
      · obtain rfl : hash₁ = hash₂ := heq
        have hlt := (List.getElem?_eq_some_iff.mp hk).1
        rw [(List.getElem?_inj hlt hnodup).mp (hk.trans hk'.symm)]
  · show ∀ row ∈ db.completeWithdrawalsTransactions.rows, _
    rw [hext.complete]
    exact h.intervals
  · show ∀ k < σ.completed.length, ∃ row ∈ db.completeWithdrawalsTransactions.rows, _
    rw [hext.complete]
    exact h.covered

/-- The withdrawals of the next block go to the end of the queue. -/
theorem Aligned.verify (h : Aligned hash base σ) {e : Contract.Event} {block : Block}
    {rest : List Block} {number : UInt32} {proof : List Nat} {withdrawalsData : Bytes} {s : Storage}
    (hnext : σ.committed = block :: rest) (hdata : block.getWithdrawalsData = .ok withdrawalsData)
    (hcall : e.call = .verifyBlock number proof withdrawalsData)
    (haccepted : CallStep ext σ.contract e s)
    (hfit : σ.contract.firstPendingWithdrawalIndex.toNat +
      σ.contract.numberOfPendingWithdrawals.toNat +
        (queuedIn (withdrawalsIn withdrawalsData)).length < 2 ^ 32) :
    Aligned hash base
      { σ with committed := rest, contract := s, queue := σ.queue ++ placed hash block } := by
  have hrecords := queuedIn_withdrawalsIn hash hdata
  obtain ⟨hqueued, hfirst⟩ := Queued.step (a := { queue := σ.queue.map (·.record) }) h.queued
    haccepted (by
      rw [hcall]
      show _ + _ < _
      omega)
  rw [hcall] at hqueued hfirst
  have hcount := h.queued.count
  rw [List.length_map] at hcount
  rw [hrecords, List.length_map, h.front, hcount] at hfit
  have hentries : Bridge.entries hash { σ with
      committed := rest
      contract := s
      queue := σ.queue ++ placed hash block } = σ.entries hash := by
    unfold Bridge.entries
    rw [hnext, List.flatMap_cons, List.append_assoc, List.append_assoc, List.append_assoc]
  refine ⟨?_, (congrArg UInt32.toNat hfirst).trans h.front, ?_, fun b hb => ?_, ?_, ?_, h.unique,
    h.intervals, h.covered⟩
  · show Queued _ _ _ ((σ.queue ++ placed hash block).map (·.record))
    rw [List.map_append, ← hrecords]
    exact hqueued
  · show _ + _ + (σ.queue ++ placed hash block).length < _
    rw [List.length_append, ← Nat.add_assoc]
    exact hfit
  · exact h.faithful b (hnext ▸ List.mem_cons_of_mem _ hb)
  · rw [hentries]
    exact h.max
  · rw [hentries]
    exact h.rows

section Complete

variable [DecidableEq E] {txHash : E}

theorem storeCompleteWithdrawals_pending (db : Tables H E) (tx : Option (CompleteWithdrawalsTx E)) :
    (storeCompleteWithdrawals db tx.toList).pendingWithdrawals = db.pendingWithdrawals := by
  cases tx <;> rfl

/-- The event of a new transaction adds its interval. -/
theorem mem_storeCompleteWithdrawals (db : Tables H E) (tx : Option (CompleteWithdrawalsTx E))
    (hnew : ∀ event, tx = some event →
      ∀ row ∈ db.completeWithdrawalsTransactions.rows, row.txHash ≠ event.txHash)
    (row : StoredCompleteWithdrawalsTransaction E) :
    row ∈ (storeCompleteWithdrawals db tx.toList).completeWithdrawalsTransactions.rows ↔
      row ∈ db.completeWithdrawalsTransactions.rows ∨ ∃ event, tx = some event ∧
        row = ⟨event.txHash, event.pendingWithdrawalsQueueStartIndex.toNat,
          event.pendingWithdrawalsQueueEndIndex.toNat⟩ := by
  cases tx with
  | none =>
    refine ⟨Or.inl, fun h => h.elim id ?_⟩
    rintro ⟨event, heq, -⟩
    cases heq
  | some event =>
    refine Table.mem_upsert.trans (Or.comm.trans (or_congr ?_ ?_))
    · exact and_iff_left_of_imp fun hrow => hnew event rfl row hrow
    · refine ⟨fun h => ⟨event, rfl, h⟩, ?_⟩
      rintro ⟨_, heq, h⟩
      cases heq
      exact h

/-- The oldest entries are completed, and their positions recorded. -/
theorem Aligned.complete (h : Aligned hash base σ) {e : Contract.Event} {n : UInt32}
    {sends : UInt32 → Contract.TransferOut} {s : Storage} (hcall : e.call = .completeWithdrawals n sends)
    (haccepted : CallStep ext σ.contract e s)
    (hnew : completeEvent σ.contract txHash e.call ≠ none →
      ∀ row ∈ σ.db.completeWithdrawalsTransactions.rows, row.txHash ≠ txHash) :
    Aligned hash base { σ with
      db := storeCompleteWithdrawals σ.db (completeEvent σ.contract txHash e.call).toList
      contract := s
      completed := σ.completed ++ (σ.queue.take n.toNat).map fun entry => (entry, txHash)
      queue := σ.queue.drop n.toNat } := by
  have hroom := h.room
  have hfront := h.front
  have hcount := h.queued.count
  rw [List.length_map] at hcount
  have hmin : (minU32 n σ.contract.numberOfPendingWithdrawals).toNat =
      min n.toNat σ.queue.length := by rw [Contract.toNat_minU32, hcount]
  have hstop : (σ.contract.firstPendingWithdrawalIndex +
      minU32 n σ.contract.numberOfPendingWithdrawals).toNat =
        base + σ.completed.length + min n.toNat σ.queue.length := by
    rw [UInt32.toNat_add, hfront, hmin]
    omega
  obtain ⟨hqueued, hfirst⟩ := Queued.step (a := { queue := σ.queue.map (·.record) }) h.queued
    haccepted (by
      rw [hcall]
      show _ + _ < _
      omega)
  rw [hcall] at hqueued hfirst
  have hentries : Bridge.entries hash { σ with
      db := storeCompleteWithdrawals σ.db (completeEvent σ.contract txHash e.call).toList
      contract := s
      completed := σ.completed ++ (σ.queue.take n.toNat).map fun entry => (entry, txHash)
      queue := σ.queue.drop n.toNat } = σ.entries hash := by
    have htake : ((σ.queue.take n.toNat).map fun entry => (entry, txHash)).map (·.1) =
        σ.queue.take n.toNat := by
      rw [List.map_map]
      exact List.map_id _
    unfold Bridge.entries
    rw [List.map_append, htake, List.append_assoc (σ.completed.map (·.1)), List.take_append_drop]
  have htaken : ((σ.queue.take n.toNat).map fun entry => (entry, txHash)).length =
      min n.toNat σ.queue.length := by rw [List.length_map, List.length_take]
  have hrows := mem_storeCompleteWithdrawals σ.db (completeEvent σ.contract txHash e.call)
    fun event hevent row hrow => by
      rw [(completeEvent_start hevent).1]
      exact hnew (by rw [hevent]; exact Option.some_ne_none _) row hrow
  -- The event has the positions from the front of the queue on.
  have hevents : ∀ event, completeEvent σ.contract txHash e.call = some event ↔
      0 < min n.toNat σ.queue.length ∧ event = ⟨txHash, σ.contract.firstPendingWithdrawalIndex,
        σ.contract.firstPendingWithdrawalIndex +
          minU32 n σ.contract.numberOfPendingWithdrawals⟩ := by
    intro event
    rw [hcall, ← hmin]
    unfold completeEvent
    dsimp only
    have hpos : minU32 n σ.contract.numberOfPendingWithdrawals > 0 ↔
        0 < (minU32 n σ.contract.numberOfPendingWithdrawals).toNat := UInt32.lt_iff_toNat_lt
    split
    next hlt =>
      rw [Option.some.injEq, and_iff_right (hpos.mp hlt), eq_comm]
    next hnot =>
      exact ⟨fun heq => (by cases heq), fun heq => absurd (hpos.mpr heq.1) hnot⟩
  refine ⟨?_, ?_, ?_, h.faithful, ?_, ?_, ?_, ?_, ?_⟩
  · show Queued _ _ _ ((σ.queue.drop n.toNat).map (·.record))
    rw [List.map_drop]
    exact hqueued
  · show s.firstPendingWithdrawalIndex.toNat = base + (σ.completed ++ _).length
    rw [hfirst, List.length_append, htaken, ← Nat.add_assoc]
    exact hstop
  · show base + (σ.completed ++ _).length + (σ.queue.drop n.toNat).length < _
    rw [List.length_append, htaken, List.length_drop]
    omega
  · rw [hentries]
    unfold Tables.maxId
    rw [storeCompleteWithdrawals_pending]
    exact h.max
  · rw [hentries, storeCompleteWithdrawals_pending]
    exact h.rows
  · rw [storeCompleteWithdrawals_pending]
    exact h.unique
  · intro row hrow id hstart hend
    rcases (hrows row).mp hrow with hrow | ⟨event, hevent, rfl⟩
    · obtain ⟨k, entry, hk, hid⟩ := h.intervals row hrow id hstart hend
      have hlt := (List.getElem?_eq_some_iff.mp hk).1
      refine ⟨k, entry, ?_, hid⟩
      show (σ.completed ++ _)[k]? = _
      rw [List.getElem?_append_left hlt]
      exact hk
    · obtain ⟨-, rfl⟩ := (hevents event).mp hevent
      dsimp only at hstart hend
      rw [hfront] at hstart
      rw [hstop] at hend
      obtain ⟨j, hj⟩ := Int.eq_ofNat_of_zero_le
        (show 0 ≤ id - (base + σ.completed.length : Nat) by omega)
      have hlt : j < min n.toNat σ.queue.length := by omega
      have hqueue : j < σ.queue.length := by omega
      refine ⟨σ.completed.length + j, σ.queue[j], ?_, by omega⟩
      show (σ.completed ++ _)[σ.completed.length + j]? = _
      rw [List.getElem?_append_right (Nat.le_add_right _ _), Nat.add_sub_cancel_left,
        List.getElem?_map, List.getElem?_take_of_lt (by omega), List.getElem?_eq_getElem hqueue]
      rfl
  · intro k hk
    have hk : k < (σ.completed ++ _).length := hk
    rw [List.length_append, htaken] at hk
    rcases Nat.lt_or_ge k σ.completed.length with hlt | hge
    · obtain ⟨row, hrow, hcovers⟩ := h.covered k hlt
      exact ⟨row, (hrows row).mpr (Or.inl hrow), hcovers⟩
    · refine ⟨_, (hrows _).mpr (Or.inr ⟨_, (hevents _).mpr ⟨by omega, rfl⟩, rfl⟩), ?_⟩
      dsimp only
      rw [hfront, hstop]
      omega

end Complete

/-- The other calls leave the queue alone. -/
theorem Aligned.call (h : Aligned hash base σ) {e : Contract.Event} {s : Storage}
    (hverify : ∀ number proof data, e.call ≠ .verifyBlock number proof data)
    (hcomplete : ∀ n sends, e.call ≠ .completeWithdrawals n sends)
    (haccepted : CallStep ext σ.contract e s) : Aligned hash base { σ with contract := s } := by
  obtain ⟨hqueued, hfirst⟩ := Queued.step (a := { queue := σ.queue.map (·.record) }) h.queued
    haccepted (by
      unfold Contract.QueueFits
      split
      next hcall => exact absurd hcall (hverify _ _ _)
      next hcall => exact absurd hcall (hcomplete _ _)
      next => trivial)
  have hsame : Contract.Accounting.queueAfter { queue := σ.queue.map (·.record) } e.call =
      σ.queue.map (·.record) := by
    unfold Contract.Accounting.queueAfter
    split
    next hcall => exact absurd hcall (hverify _ _ _)
    next hcall => exact absurd hcall (hcomplete _ _)
    next => rfl
  have hfront : Contract.firstAfter σ.contract e.call = σ.contract.firstPendingWithdrawalIndex := by
    unfold Contract.firstAfter
    split
    next hcall => exact absurd hcall (hcomplete _ _)
    next => rfl
  rw [hsame] at hqueued
  rw [hfront] at hfirst
  exact ⟨hqueued, (congrArg UInt32.toNat hfirst).trans h.front, h.room, h.faithful, h.max, h.rows,
    h.unique, h.intervals, h.covered⟩

/-- Each step keeps the two sides aligned. -/
theorem Aligned.step [DecidableEq E] {σ' : Bridge H E} (h : Aligned hash base σ) {e : BridgeEvent E}
    (hfits : StepFits hash σ e) (hstep : BridgeStep env ext hash σ e σ') : Aligned hash base σ' := by
  cases hstep with
  | commit sent saved =>
    obtain ⟨_, _, _, _, _, _, _, _, _, request, updates, hnew, hrun, hsent, rfl⟩ := sent
    exact h.commit (sealed_faithful hnew hrun request updates hsent) saved hfits.1 hfits.2
  | verify next data call accepted => exact h.verify next data call accepted (hfits _ _ _ call)
  | complete call accepted => exact h.complete call accepted hfits
  | call notVerify notComplete accepted => exact h.call notVerify notComplete accepted

end Steps

/-! ## Runs -/

section Runs

variable {H E : Type} [DecidableEq E] [Inhabited H] {env : Env} {ext : Externals}
  {hash : ZkSyncTx → H} {s₀ : Storage} {queue₀ : List Contract.PendingWithdrawal} {db₀ : Tables H E}

omit [DecidableEq E] in
/-- The row the server starts with has the number of the last position. -/
theorem aligned_start (hash : ZkSyncTx → H)
    (hqueue : Queued s₀.pendingWithdrawals s₀.firstPendingWithdrawalIndex
      s₀.numberOfPendingWithdrawals queue₀)
    (hroom : s₀.firstPendingWithdrawalIndex.toNat + queue₀.length < 2 ^ 32)
    (hdb : insertPendingWithdrawals (∅ : Tables H E)
      (s₀.firstPendingWithdrawalIndex + s₀.numberOfPendingWithdrawals) = .ok db₀) :
    Aligned hash s₀.firstPendingWithdrawalIndex.toNat (.start s₀ queue₀ db₀) := by
  have hindex : (s₀.firstPendingWithdrawalIndex + s₀.numberOfPendingWithdrawals).toNat =
      s₀.firstPendingWithdrawalIndex.toNat + queue₀.length := by
    rw [UInt32.toNat_add, hqueue.count]
    exact Nat.mod_eq_of_lt hroom
  have hentries : Bridge.entries hash (.start s₀ queue₀ db₀) =
      queue₀.map fun record => ⟨none, record⟩ := List.append_nil _
  cases hdb
  refine ⟨?_, rfl, ?_, fun b hb => absurd hb List.not_mem_nil, ?_, ?_, ?_, ?_, ?_⟩
  · show Queued _ _ _ ((queue₀.map _).map _)
    rw [List.map_map]
    exact (List.map_id queue₀).symm ▸ hqueue
  · show _ + 0 + (queue₀.map _).length < _
    rw [List.length_map]
    exact hroom
  · have hmax : ((s₀.firstPendingWithdrawalIndex + s₀.numberOfPendingWithdrawals).toNat : Int) - 1 =
        (s₀.firstPendingWithdrawalIndex.toNat : Int) + queue₀.length - 1 := by
      rw [hindex, Nat.cast_add]
    rw [hentries, List.length_map, ← hmax]
    refine maxId_eq_some.mpr ⟨⟨_, List.mem_singleton_self _, rfl⟩, fun row hrow => ?_⟩
    rw [List.mem_singleton.mp hrow]
  · intro k entry h hk hhash
    have hk : (queue₀.map fun record => (⟨none, record⟩ : QueueEntry H))[k]? = some entry :=
      hentries ▸ hk
    obtain ⟨record, -, rfl⟩ := List.mem_map.mp (List.mem_of_getElem? hk)
    cases hhash
  · intro row hrow row' hrow' _
    rw [List.mem_singleton.mp hrow, List.mem_singleton.mp hrow']
  · exact fun row hrow => absurd hrow List.not_mem_nil
  · exact fun k hk => absurd hk (Nat.not_lt_zero k)

/-- Of every run from the server's start in which hashes are new, positions do not run
over and no Ethereum transaction completes withdrawals twice: in every state, each
withdrawal that waits in the contract's queue has its position for a number, and of each
withdrawal that was completed since, the transaction is found. -/
theorem withdrawal_ids_match
    (hqueue : Queued s₀.pendingWithdrawals s₀.firstPendingWithdrawalIndex
      s₀.numberOfPendingWithdrawals queue₀)
    (hroom : s₀.firstPendingWithdrawalIndex.toNat + queue₀.length < 2 ^ 32)
    (hdb : insertPendingWithdrawals (∅ : Tables H E)
      (s₀.firstPendingWithdrawalIndex + s₀.numberOfPendingWithdrawals) = .ok db₀)
    {tr : List (BridgeEvent E)} {σ : Bridge H E}
    (hrun : Run (fun σ e σ' => StepFits hash σ e ∧ BridgeStep env ext hash σ e σ')
      (.start s₀ queue₀ db₀) tr σ) : IdsMatch σ := by
  have haligned : Aligned hash s₀.firstPendingWithdrawalIndex.toNat σ :=
    hrun.invariant (fun _ _ _ h hstep => h.step hstep.1 hstep.2)
      (aligned_start hash hqueue hroom hdb)
  exact haligned.idsMatch

end Runs

/-! ## Two completions in one transaction -/

/-- An entry that was completed in a transaction is not found any more after another
completion in the same transaction. -/
theorem completed_twice {H E : Type} [DecidableEq E] {hash : ZkSyncTx → H} {base : Nat}
    {σ : Bridge H E} (h : Aligned hash base σ) {entry : QueueEntry H} {hash' : H} {txHash : E}
    (hentry : (entry, txHash) ∈ σ.completed) (hhash : entry.hash = some hash') {call : Call}
    (hevent : completeEvent σ.contract txHash call ≠ none) :
    (storeCompleteWithdrawals σ.db
      (completeEvent σ.contract txHash call).toList).EthTxForWithdrawal hash' none := by
  obtain ⟨k, hk⟩ := List.getElem?_of_mem hentry
  have hlt := (List.getElem?_eq_some_iff.mp hk).1
  have hrow := h.rows k entry hash' (Bridge.entries_completed hk) hhash
  obtain ⟨event, hevent⟩ := Option.ne_none_iff_exists'.mp hevent
  have hstart := completeEvent_start hevent
  rw [hevent]
  refine ⟨some ⟨base + k, hash'⟩, ⟨hrow, rfl⟩, none, fun row hmem hcovers => ?_, rfl⟩
  rcases Table.mem_upsert.mp hmem with rfl | ⟨hmem, hne⟩
  · -- The new interval begins where the queue now does.
    obtain ⟨hcovers, -⟩ := hcovers
    dsimp only at hcovers
    rw [hstart.2, h.front] at hcovers
    omega
  · obtain ⟨k', entry', hk', hid⟩ := h.intervals row hmem (base + k) hcovers.1 hcovers.2
    obtain rfl : k = k' := by omega
    cases hk.symm.trans hk'
    exact hne hstart.1.symm

/-! ### A block of two withdrawals -/

section Sample

/-- The hash of a withdrawal is the hash of the transaction its operation was made of. -/
theorem withdrawalHash_faithful {H : Type} (hash : ZkSyncTx → H) {op : ExecutedOperations}
    (hop : op.Faithful) : withdrawalHash hash op =
      ((op.getExecutedOp.bind ZkSyncOp.tryGetTx).filter ZkSyncTx.isWithdraw).map hash := by
  cases op with
  | PriorityOp op =>
    have hfaithful : op.op.tryGetPriorityOp = some op.priorityOp.data := hop
    show none = ((ZkSyncOp.tryGetTx op.op).filter _).map hash
    cases hop : op.op with
    | Deposit _ | FullExit _ => rfl
    | _ =>
      rw [hop] at hfaithful
      cases hfaithful
  | Tx tx =>
    unfold withdrawalHash ExecutedOperations.getExecutedOp
    dsimp only
    rcases hop with ⟨hsuccess, o, ho, htx⟩ | ⟨hfailed, hnone, -⟩
    · rw [hsuccess, ho, Option.bind_some, htx, Option.filter_some, Bool.true_and]
      split <;> rfl
    · rw [hfailed, hnone]
      rfl

/-- Two withdrawals of nothing, to address 2. -/
def sampleWithdrawOps : List ZkSyncOp :=
  [.Withdraw ⟨sampleWithdraw 0, 0⟩, .Withdraw ⟨sampleWithdraw 1, 0⟩]

/-- Whatever the hashes of transactions are, as long as they differ: a block of two
withdrawals that the keeper sends. -/
theorem exists_sampleBlock : ∃ block, SentByKeeper (Env.built 1 false) block ∧
    block.executedOps = sampleWithdrawOps := by
  obtain ⟨k₀, k, k', reply, request, updates, hnew, hstep, hseal, hops⟩ :=
    exists_block (.batch [⟨.Withdraw (sampleWithdraw 0), none⟩,
      ⟨.Withdraw (sampleWithdraw 1), none⟩] 1) sampleWithdrawOps fits_sampleAccount rfl trivial
      (fun request hr => by
        rcases List.mem_cons.mp hr with rfl | hr
        · trivial
        · rw [List.mem_singleton.mp hr]
          trivial) (by decide +kernel)
  have hsent : ∀ call, .Block request updates ∈
      sentBy [(call, reply), (.sealBlock, .sealed request updates)] := fun _ =>
    List.mem_flatMap.mpr ⟨_, List.mem_cons_of_mem _ List.mem_cons_self, List.mem_cons_self⟩
  exact ⟨request.block, ⟨_, _, _, _, _, _, k₀, k', _, request, updates, hnew,
    .cons hstep (Run.single hseal), hsent _, rfl⟩, hops⟩

/-- Such a block can be committed on a new contract. -/
theorem exists_sampleCommit : ∃ (e : Contract.Event) (s : Storage),
    CallStep .sample (.initialized 0) e s ∧
    (∀ number proof data, e.call ≠ .verifyBlock number proof data) ∧
    (∀ n sends, e.call ≠ .completeWithdrawals n sends) ∧
    s.firstPendingWithdrawalIndex = 0 ∧ s.numberOfPendingWithdrawals = 0 ∧
    s.exodusMode = false ∧ s.totalBlocksVerified = 0 ∧ (s.blocks 1).chunks = 30 ∧
    (s.blocks 1).priorityOperations = 0 ∧
    (s.blocks 1).withdrawalsDataHash = Contract.withdrawalsHash .sample
      Contract.EMPTY_STRING_KECCAK (withdrawalsOf sampleWithdrawOps) := by
  let ops := sampleWithdrawOps ++ List.replicate 18 ZkSyncOp.Noop
  have hinRange : ∀ op ∈ ops, op.InRange := by
    have hzero : ∀ nonce, (ZkSyncOp.Withdraw ⟨sampleWithdraw nonce, 0⟩).InRange := fun _ =>
      ⟨(by decide : 0 < u128Bound), packable_zero⟩
    intro op hop
    rcases List.mem_append.mp hop with hop | hop
    · rcases List.mem_cons.mp hop with rfl | hop
      · exact hzero 0
      · rw [List.mem_singleton.mp hop]
        exact hzero 1
    · rw [List.eq_of_mem_replicate hop]
      trivial
  obtain ⟨publicData, hpublic⟩ := publicDataOf_inRange hinRange
  have hkinds : ∀ op ∈ ops, Contract.isPriority op = false ∧ op.ethWitness = none ∧
      (∀ c, op ≠ .Close c) := by
    intro op hop
    rcases List.mem_append.mp hop with hop | hop
    · rcases List.mem_cons.mp hop with rfl | hop
      · exact ⟨rfl, rfl, fun _ h => by cases h⟩
      · rw [List.mem_singleton.mp hop]
        exact ⟨rfl, rfl, fun _ h => by cases h⟩
    · rw [List.eq_of_mem_replicate hop]
      exact ⟨rfl, rfl, fun _ h => by cases h⟩
  have hexpects : Contract.Expects .sample (.initialized 0) ops :=
    ⟨fun i op hop => (by cases hop), Nat.le_refl 0, by decide, fun op hop =>
      absurd (hkinds _ hop).2.1 (Option.some_ne_none _)⟩
  obtain ⟨tr, hrun, -, -⟩ := Contract.run_publicData hexpects
    (fun c hc => (hkinds _ hc).2.2 c rfl) (by decide) (by decide) hpublic (List.nil_append ops).symm
  rw [Contract.Walk.after_nil] at hrun
  have hlength : publicData.length = 30 * CHUNK_BYTES := length_publicDataOf hpublic
  have hchunks : publicData.length / Contract.chunkBytes = 30 := by
    rw [hlength]
    rfl
  -- the walk ends behind the padding, and no operation had a witness
  have hcollected : Contract.Collected .sample (.initialized 0) (Contract.commitDataOf publicData ops)
      tr ((Contract.Walk.start (.initialized 0)).after .sample ops) :=
    ⟨hrun, Contract.Walk.after_start_offset hpublic, Contract.Walk.after_start_witness (by decide),
      Contract.Walk.after_start_sizes (by decide)⟩
  have hwhole : (Contract.commitDataOf publicData ops).publicData.length % Contract.chunkBytes = 0 := by
    show publicData.length % 9 = 0
    rw [hlength]
    rfl
  have hsupported : Contract.isBlockSizeSupported .sample (UInt32.ofNat
      ((Contract.commitDataOf publicData ops).publicData.length / Contract.chunkBytes)) := by
    show Contract.isBlockSizeSupported .sample
      (UInt32.ofNat (publicData.length / Contract.chunkBytes)) = true
    rw [hchunks]
    rfl
  have hwitness : (Contract.commitDataOf publicData ops).ethWitness.length < 2 ^ 64 := by
    show (Contract.witnessesOf ops).flatten.length < 2 ^ 64
    decide
  obtain ⟨stored, hcommit, hoperations, hstored, hhash⟩ := Contract.commitBlock_of .sample .sample 0
    0 hwitness rfl rfl hcollected (by decide) hwhole hsupported
  have hblock : Function.update (Storage.initialized 0).blocks (0 + 1) stored 1 = stored :=
    Function.update_self _ _ _
  refine ⟨⟨.sample, .sample, .commitBlock 1 0 [0] (Contract.commitDataOf publicData ops), {}⟩, _,
    Outcome.bind_eq_ok.mpr ⟨_, hcommit, rfl⟩, fun _ _ _ h => (by cases h), fun _ _ h => (by cases h),
    rfl, rfl, rfl, rfl, ?_, ?_, ?_⟩
  · refine (congrArg Contract.StoredBlock.chunks hblock).trans (hstored.trans ?_)
    show UInt32.ofNat (publicData.length / Contract.chunkBytes) = 30
    rw [hchunks]
    rfl
  · exact (congrArg Contract.StoredBlock.priorityOperations hblock).trans (hoperations.trans (by decide))
  · exact (congrArg Contract.StoredBlock.withdrawalsDataHash hblock).trans hhash

theorem safeAdd128_zero (a : BitVec 128) : Contract.safeAdd128 a 0 = .ok a := by
  have hsum : a + 0 = a := BitVec.add_zero a
  unfold Contract.safeAdd128
  dsimp only
  rw [hsum, Contract.require_of (BitVec.le_refl a)]
  rfl

/-- Withdrawals of nothing can always be processed. -/
theorem processAll_zero (ext : Externals) {withdrawals : List Withdrawal}
    (hzero : ∀ w ∈ withdrawals, w.amount = 0) (p : Contract.ProcessState) :
    ∃ p', withdrawals.foldlM (Contract.processWithdrawal ext) p = .ok p' := by
  induction withdrawals generalizing p with
  | nil => exact ⟨p, rfl⟩
  | cons withdrawal withdrawals ih =>
    obtain ⟨p₁, h₁⟩ : ∃ p₁, Contract.processWithdrawal ext p withdrawal = .ok p₁ := by
      unfold Contract.processWithdrawal
      dsimp only
      rw [hzero _ List.mem_cons_self, safeAdd128_zero, Outcome.ok_bind]
      split
      · exact ⟨_, rfl⟩
      · exact ⟨_, rfl⟩
    rw [List.foldlM_cons, h₁]
    exact ih (fun w hw => hzero w (List.mem_cons_of_mem _ hw)) p₁

/-- The block is verified with its records. -/
theorem exists_sampleVerify {s : Storage} {withdrawalsData : Bytes}
    (hdata : Block.withdrawalsDataOf sampleWithdrawOps = .ok withdrawalsData)
    (hactive : s.exodusMode = false) (hverified : s.totalBlocksVerified = 0)
    (hchunks : (s.blocks 1).chunks = 30) (hoperations : (s.blocks 1).priorityOperations = 0)
    (hhash : (s.blocks 1).withdrawalsDataHash = Contract.withdrawalsHash .sample
      Contract.EMPTY_STRING_KECCAK (withdrawalsOf sampleWithdrawOps)) :
    ∃ (e : Contract.Event) (s' : Storage), e.call = .verifyBlock 1 [] withdrawalsData ∧
      CallStep .sample s e s' := by
  have hlength : withdrawalsData.length % Contract.ONCHAIN_WITHDRAWAL_BYTES = 0 := by
    rw [Contract.length_withdrawalsDataOf hdata, Nat.mul_mod_left]
  -- the amounts are zero, so no balance can overflow
  have hzero : ∀ w ∈ withdrawalsOf sampleWithdrawOps, w.amount = 0 := by decide
  obtain ⟨p, hp⟩ := processAll_zero .sample hzero
    ⟨s, s.numberOfPendingWithdrawals, Contract.EMPTY_STRING_KECCAK⟩
  have hloop : Contract.processLoop .sample withdrawalsData 0
      ⟨s, s.numberOfPendingWithdrawals, Contract.EMPTY_STRING_KECCAK⟩ = .ok p :=
    (Contract.processLoop_eq hdata [] _).trans hp
  have hchain : p.withdrawalsDataHash = Contract.withdrawalsHash .sample
      Contract.EMPTY_STRING_KECCAK (withdrawalsOf sampleWithdrawOps) := by
    rcases Contract.processAll_cases .sample (withdrawalsOf sampleWithdrawOps)
      ⟨s, s.numberOfPendingWithdrawals, Contract.EMPTY_STRING_KECCAK⟩ with ⟨p', hp', hhash'⟩ | herror
    · cases hp.symm.trans hp'
      exact hhash'
    · cases hp.symm.trans herror
  let s₁ : Storage :=
    { p.storage with numberOfPendingWithdrawals := p.localNumberOfPendingWithdrawals }
  have hprocess : Contract.processOnchainWithdrawals .sample s withdrawalsData
      (Contract.withdrawalsHash .sample Contract.EMPTY_STRING_KECCAK
        (withdrawalsOf sampleWithdrawOps)) = .ok s₁ := by
    unfold Contract.processOnchainWithdrawals
    rw [Contract.require_of hlength, Outcome.ok_bind, hloop, Outcome.ok_bind,
      Contract.require_of hchain]
    rfl
  have hblocks : s₁.blocks = s.blocks := by
    show p.storage.blocks = s.blocks
    rw [Contract.processLoop_frame hloop]
  have hdelete : ∃ s₂, Contract.deleteRequests s₁ (s₁.blocks 1).priorityOperations = .ok s₂ := by
    unfold Contract.deleteRequests
    rw [hblocks, hoperations, Contract.require_of (UInt64.le_iff_toNat_le.mpr (Nat.zero_le _))]
    exact ⟨_, rfl⟩
  obtain ⟨s₂, hdelete⟩ := hdelete
  have hrequire : Contract.requireActive s = .ok () := Contract.requireActive_eq_ok.mpr hactive
  have hnumber : (1 : UInt32) = s.totalBlocksVerified + 1 := by
    rw [hverified]
    rfl
  have hproof : ∀ commitment, Contract.verifyBlockProof .sample [] commitment 30 = .ok true :=
    fun _ => rfl
  have hvalidator : Contract.Governance.sample.validators Contract.Msg.sample.sender = true := rfl
  have hverify : ∃ s', Contract.verifyBlock .sample .sample .sample s 1 [] withdrawalsData =
      .ok s' := by
    unfold Contract.verifyBlock Contract.Governance.requireActiveValidator
    dsimp only
    rw [hrequire, Outcome.ok_bind, Contract.require_of hnumber, Outcome.ok_bind,
      Contract.require_of hvalidator, Outcome.ok_bind, hchunks, hproof, Outcome.ok_bind,
      Contract.require_of rfl, Outcome.ok_bind, hhash, hprocess, Outcome.ok_bind, hdelete]
    exact ⟨_, rfl⟩
  obtain ⟨s', hverify⟩ := hverify
  exact ⟨⟨.sample, .sample, .verifyBlock 1 [] withdrawalsData, {}⟩, s', rfl,
    Outcome.bind_eq_ok.mpr ⟨s', hverify, rfl⟩⟩

/-- The two withdrawals wait in the queue of a new contract, with their numbers. The hash
of a transaction is the transaction. -/
theorem exists_sampleQueue : ∃ (db₀ : Tables (Option ZkSyncTx) Nat) (tr : List (BridgeEvent Nat))
    (σ : Bridge (Option ZkSyncTx) Nat),
    insertPendingWithdrawals ∅ 0 = .ok db₀ ∧
    Run (fun σ e σ' => StepFits some σ e ∧ BridgeStep (Env.built 1 false) .sample some σ e σ')
      (.start (.initialized 0) [] db₀) tr σ ∧
    σ.completed = [] ∧ σ.db.completeWithdrawalsTransactions.rows = [] ∧ σ.queue.length = 2 ∧
    ∀ entry ∈ σ.queue, ∃ h, entry.hash = some h := by
  obtain ⟨block, hsent, hops⟩ := exists_sampleBlock
  obtain ⟨eCommit, s₁, hcommit, hnotVerify, hnotComplete, hfirst, hnumber, hactive, hverified,
    hchunks, hoperations, hhash⟩ := exists_sampleCommit
  obtain ⟨withdrawalsData, hdata⟩ : ∃ data, Block.withdrawalsDataOf sampleWithdrawOps = .ok data :=
    ⟨_, rfl⟩
  obtain ⟨eVerify, s₂, hcall, hverify⟩ := exists_sampleVerify hdata hactive hverified hchunks
    hoperations hhash
  -- the block of the keeper says of each transaction what it does
  have hfaithful : ∀ op ∈ block.blockTransactions, op.Faithful := by
    obtain ⟨_, _, _, _, _, _, _, _, _, request, updates, hnew, hrun, hsent, rfl⟩ := hsent
    exact sealed_faithful hnew hrun request updates hsent
  have hhashes : block.blockTransactions.filterMap (withdrawalHash some) =
      [some (.Withdraw (sampleWithdraw 0)), some (.Withdraw (sampleWithdraw 1))] := by
    have hofOps : block.blockTransactions.filterMap (withdrawalHash some) =
        block.executedOps.filterMap fun op =>
          (op.tryGetTx.filter ZkSyncTx.isWithdraw).map some := by
      unfold Block.executedOps
      rw [List.filterMap_filterMap]
      refine List.filterMap_congr fun op hop => ?_
      rw [withdrawalHash_faithful some (hfaithful op hop)]
      cases op.getExecutedOp <;> rfl
    rw [hofOps, hops]
    rfl
  let db₀ : Tables (Option ZkSyncTx) Nat := ⟨(∅ : Table _ _).upsert ⟨-1, none⟩, ∅⟩
  have hmax : db₀.maxId = some (-1) := rfl
  obtain ⟨db₁, hsaved, hext⟩ := savePendingWithdrawals_spec some block.blockTransactions hmax
  have hplaced := hashes_placed some hfaithful
  rw [hhashes] at hplaced
  let σ₀ : Bridge (Option ZkSyncTx) Nat := .start (.initialized 0) [] db₀
  let σ₁ : Bridge (Option ZkSyncTx) Nat := { σ₀ with
    db := db₁
    committed := [block] }
  let σ₂ : Bridge (Option ZkSyncTx) Nat := { σ₁ with contract := s₁ }
  let σ₃ : Bridge (Option ZkSyncTx) Nat := { σ₂ with
    committed := []
    contract := s₂
    queue := placed some block }
  -- commit at the server, commit on Ethereum, verification
  have hstep₁ : BridgeStep (Env.built 1 false) .sample some σ₀ (.commit block) σ₁ :=
    .commit hsent hsaved
  have hstep₂ : BridgeStep (Env.built 1 false) .sample some σ₁ (.call eCommit) σ₂ :=
    .call hnotVerify hnotComplete hcommit
  have hstep₃ : BridgeStep (Env.built 1 false) .sample some σ₂ (.verify eVerify) σ₃ :=
    .verify rfl (by
      unfold Block.getWithdrawalsData
      rw [hops]
      exact hdata) hcall hverify
  have hfits₁ : StepFits some σ₀ (.commit block) := by
    unfold StepFits
    dsimp only
    rw [hhashes]
    refine ⟨by decide, fun row hrow => ?_⟩
    rw [List.mem_singleton.mp hrow]
    decide
  have hfits₂ : StepFits some σ₁ (.call eCommit) := trivial
  have hfits₃ : StepFits some σ₂ (.verify eVerify) := by
    intro number proof data hcall'
    cases hcall.symm.trans hcall'
    rw [withdrawalsIn_eq hdata]
    show s₁.firstPendingWithdrawalIndex.toNat + s₁.numberOfPendingWithdrawals.toNat + _ < _
    rw [hfirst, hnumber]
    decide
  refine ⟨db₀, _, σ₃, rfl, .cons ⟨hfits₁, hstep₁⟩ (.cons ⟨hfits₂, hstep₂⟩ (.single ⟨hfits₃, hstep₃⟩)),
    rfl, ?_, ?_, ?_⟩
  · show db₁.completeWithdrawalsTransactions.rows = []
    rw [hext.complete]
    rfl
  · have hlength := congrArg List.length hplaced
    rwa [List.length_map] at hlength
  · intro entry hentry
    have hmem := List.mem_map_of_mem (f := QueueEntry.hash) hentry
    rw [hplaced] at hmem
    obtain ⟨h, -, hh⟩ := List.mem_map.mp hmem
    exact ⟨h, hh.symm⟩

theorem exists_complete (s : Storage) (n : UInt32) : ∃ (e : Contract.Event) (s' : Storage),
    e.call = .completeWithdrawals n (fun _ => ⟨true, 0, 0⟩) ∧ CallStep .sample s e s' :=
  ⟨⟨.sample, .sample, .completeWithdrawals n (fun _ => ⟨true, 0, 0⟩),
    { payments := (Contract.completeWithdrawals s n fun _ => ⟨true, 0, 0⟩).2 }⟩, _, rfl, rfl⟩

/-- Both are completed in one call. -/
theorem withdrawal_ids_match_sampleBlock : ∃ (db₀ : Tables (Option ZkSyncTx) Nat)
    (tr : List (BridgeEvent Nat)) (σ : Bridge (Option ZkSyncTx) Nat),
    Run (fun σ e σ' => StepFits some σ e ∧ BridgeStep (Env.built 1 false) .sample some σ e σ')
      (.start (.initialized 0) [] db₀) tr σ ∧
    σ.completed.length = 2 ∧ IdsMatch σ := by
  obtain ⟨db₀, tr, σ, hdb, hrun, hcompleted, hrows, hlength, -⟩ := exists_sampleQueue
  obtain ⟨e, s, hcall, haccepted⟩ := exists_complete σ.contract 2
  have hstep : BridgeStep (Env.built 1 false) .sample some σ (.complete e 7) _ :=
    .complete hcall haccepted
  have hfits : StepFits some σ (.complete e 7) := by
    intro _ row hrow
    rw [hrows] at hrow
    exact absurd hrow List.not_mem_nil
  have hrun' := hrun.append (.single ⟨hfits, hstep⟩)
  refine ⟨db₀, _, _, hrun', ?_,
    withdrawal_ids_match (Contract.queued_initialize 0) (by decide) hdb hrun'⟩
  show (σ.completed ++ _).length = 2
  rw [hcompleted, List.nil_append, List.length_map, List.length_take, hlength]
  rfl

/-- They are completed by two calls in one transaction: the first one is not found. -/
theorem first_completion_lost : ∃ (db₀ : Tables (Option ZkSyncTx) Nat)
    (tr : List (BridgeEvent Nat)) (σ σ' : Bridge (Option ZkSyncTx) Nat) (e : Contract.Event),
    insertPendingWithdrawals ∅ 0 = .ok db₀ ∧
    Run (fun σ e σ' => StepFits some σ e ∧ BridgeStep (Env.built 1 false) .sample some σ e σ')
      (.start (.initialized 0) [] db₀) tr σ ∧
    BridgeStep (Env.built 1 false) .sample some σ (.complete e 7) σ' ∧ ¬ IdsMatch σ' := by
  obtain ⟨db₀, tr, σ, hdb, hrun, hcompleted, hrows, hlength, hhashes⟩ := exists_sampleQueue
  obtain ⟨e₁, s₁, hcall₁, haccepted₁⟩ := exists_complete σ.contract 1
  have hstep₁ : BridgeStep (Env.built 1 false) .sample some σ (.complete e₁ 7) _ :=
    .complete hcall₁ haccepted₁
  have hfits₁ : StepFits some σ (.complete e₁ 7) := by
    intro _ row hrow
    rw [hrows] at hrow
    exact absurd hrow List.not_mem_nil
  generalize hσ₁ : ({ σ with
    db := storeCompleteWithdrawals σ.db (completeEvent σ.contract 7 e₁.call).toList
    contract := s₁
    completed := σ.completed ++ (σ.queue.take (1 : UInt32).toNat).map fun entry => (entry, 7)
    queue := σ.queue.drop (1 : UInt32).toNat } : Bridge (Option ZkSyncTx) Nat) = σ₁ at hstep₁
  have hrun₁ := hrun.append (.single ⟨hfits₁, hstep₁⟩)
  have haligned : Aligned some 0 σ₁ := hrun₁.invariant (fun _ _ _ h hstep => h.step hstep.1 hstep.2)
    (aligned_start some (Contract.queued_initialize 0) (by decide) hdb)
  obtain ⟨e₂, s₂, hcall₂, haccepted₂⟩ := exists_complete σ₁.contract 1
  -- the second completion has its event as well
  have hevent : completeEvent σ₁.contract 7 e₂.call ≠ none := by
    have hcount := haligned.queued.count
    have hqueue : σ₁.queue = σ.queue.drop 1 := by
      rw [← hσ₁]
      rfl
    rw [hqueue, List.length_map, List.length_drop, hlength] at hcount
    have hone : σ₁.contract.numberOfPendingWithdrawals = 1 := UInt32.toNat_inj.mp hcount
    rw [hcall₂]
    unfold completeEvent
    dsimp only
    rw [hone, if_pos (by decide)]
    exact Option.some_ne_none _
  obtain ⟨entry, hentry⟩ : ∃ entry, σ.queue[0]? = some entry :=
    ⟨_, List.getElem?_eq_getElem (by omega)⟩
  obtain ⟨h, hh⟩ := hhashes entry (List.mem_of_getElem? hentry)
  -- but the entry was completed by the first one
  have hmem : (entry, 7) ∈ σ₁.completed := by
    rw [← hσ₁, hcompleted, List.nil_append]
    refine List.mem_map_of_mem (List.mem_of_getElem? (i := 0) ?_)
    rw [List.getElem?_take_of_lt (by decide)]
    exact hentry
  refine ⟨db₀, _, σ₁, _, e₂, hdb, hrun₁, .complete hcall₂ haccepted₂, fun hmatch => ?_⟩
  have hfound := (hmatch.completed entry 7 h (List.mem_append_left _ hmem) hh none).mp
    (completed_twice haligned hmem hh hevent)
  cases hfound

end Sample

end ZkSync.PendingWithdrawals
