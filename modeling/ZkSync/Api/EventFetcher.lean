import Mathlib.Data.List.Nodup
import Mathlib.Logic.Relation
import ZkSync.EthSender.TxQueue
import ZkSync.Lib.Run
import ZkSync.Storage.SavedOps
import ZkSync.Storage.StateSchema

/-!
# The event fetcher

`zksync_api::api_server::event_notify::event_fetcher` polls the database and sends what
is new to the subscribers: the operation of each newly verified or committed block, and
the operations executed in the pending block since it was last read.

Two things are lost. When the operation of a block cannot be loaded, the loop goes on
with the next one and the cursor moves past both. And of the pending block only the
numbers of its operations are compared: a failed transaction that was sent again and
succeeded leaves a gap, so that a transaction that failed meanwhile takes a place that
was already announced. `events_delivered` says that without these two every event is
delivered once, in order.

The database is the one of the server (`DbStep`): the state keeper stores the pending
block, seals it, and blocks are verified. It may move on between any two reads. A read
fails with an error, or the server panics and the fetcher with it. That the subscribers
are gone is not an error.
-/

namespace ZkSync

open BlockSchema (OperationKey keyOf)

/-- The type that stands for an action in the tables. -/
def Action.getType : Action → ActionType
  | .Commit => .COMMIT
  | .Verify _ => .VERIFY

/-! ## The fetcher -/

/-- Executed operations, with the number of their block. -/
structure ExecutedOps where
  operations : List ExecutedOperations
  blockNumber : BlockNumber

/-- The fetcher, with everything that it sent. -/
structure EventFetcher where
  lastCommittedBlock : BlockNumber
  lastVerifiedBlock : BlockNumber
  pendingBlock : Option SendablePendingBlock
  operationsSent : List Operation
  txsSent : List ExecutedOps

/-- What the database answers in one round of the loop. -/
structure PollReplies where
  lastVerifiedBlock : Outcome BlockNumber
  lastCommittedBlock : Outcome BlockNumber
  loadOperation : ActionType → BlockNumber → Outcome Operation
  pendingBlock : Outcome (Option SendablePendingBlock)

/-- `await_db!`. -/
def awaitDb {α β : Type} (e : Outcome α) (onExit : Outcome β) (f : α → Outcome β) : Outcome β :=
  match e with
  | .ok res => f res
  | .error (.error _) => onExit
  | .error (.panic message) => .error (.panic message)

/-- The blocks after `a` up to `b`. -/
def blockRange (a b : BlockNumber) : List BlockNumber :=
  (List.range' (a.toNat + 1) (b.toNat - a.toNat)).map UInt32.ofNat

namespace EventFetcher

/-- The fetcher begins with what the database has, and announces none of it. -/
def new (pendingBlock : Outcome (Option SendablePendingBlock))
    (lastCommittedBlock lastVerifiedBlock : Outcome BlockNumber) : Outcome EventFetcher := do
  let pendingBlock ← pendingBlock
  let lastCommittedBlock ← lastCommittedBlock
  let lastVerifiedBlock ← lastVerifiedBlock
  return {
    lastCommittedBlock := lastCommittedBlock
    lastVerifiedBlock := lastVerifiedBlock
    -- only if it is ahead of the last committed block
    pendingBlock := pendingBlock.filter fun block => lastCommittedBlock < block.number
    operationsSent := []
    txsSent := [] }

variable (f : EventFetcher)

/-- The last block of which the fetcher has sent the events of this action. -/
def lastBlock : ActionType → BlockNumber
  | .COMMIT => f.lastCommittedBlock
  | .VERIFY => f.lastVerifiedBlock

/-- Either action has a counter of its own. -/
def setLastBlock (n : BlockNumber) : ActionType → EventFetcher
  | .COMMIT => { f with lastCommittedBlock := n }
  | .VERIFY => { f with lastVerifiedBlock := n }

/-- One round of `send_operations`; a block that cannot be loaded is skipped. -/
def sendOperation (r : PollReplies) (action : ActionType) (f : EventFetcher)
    (blockIdx : BlockNumber) : Outcome EventFetcher :=
  awaitDb (r.loadOperation action blockIdx) (.ok f) fun operation =>
    .ok { f with operationsSent := f.operationsSent ++ [operation] }

/-- Every block behind the counter is sent, then the counter moves. -/
def sendOperations (r : PollReplies) (currentLastBlock newLastOperation : BlockNumber)
    (action : ActionType) : Outcome EventFetcher :=
  (blockRange currentLastBlock newLastOperation).foldlM (sendOperation r action) f

/-- The first two steps of `run`, each with its action. -/
def updateLastBlock (r : PollReplies) (action : ActionType) (last : BlockNumber) :
    Outcome EventFetcher :=
  if f.lastBlock action < last then do
    let f ← f.sendOperations r (f.lastBlock action) last action
    return f.setLastBlock last action
  else .ok f

/-- The numbers of operations that were announced of this pending block. -/
def lastLengths (new : SendablePendingBlock) : Nat × Nat :=
  match f.pendingBlock with
  | some current =>
    if current.number = new.number then
      (current.successOperations.length, current.failedTxs.length)
    else (0, 0)
  | none => (0, 0)

/-- A slice that would start beyond the end of its list is empty here. -/
def updatePendingBlock (new : SendablePendingBlock) : Option ExecutedOps × EventFetcher :=
  if new.number ≤ f.lastCommittedBlock then (none, f)
  else
    let (lastSuccessLen, lastErrorsLen) := f.lastLengths new
    if new.successOperations.length = lastSuccessLen ∧ new.failedTxs.length = lastErrorsLen then
      (none, f)
    else
      (some ⟨new.successOperations.drop lastSuccessLen ++
        (new.failedTxs.drop lastErrorsLen).map .Tx, new.number⟩, { f with pendingBlock := some new })

/-- The third step of `run`. -/
def announce (pendingBlock : Option SendablePendingBlock) : EventFetcher :=
  match pendingBlock with
  | none => f
  | some new =>
    match f.updatePendingBlock new with
    | (none, f) => f
    | (some executedOps, f) => { f with txsSent := f.txsSent ++ [executedOps] }

/-- One round of `run`. -/
def poll (r : PollReplies) : Outcome EventFetcher :=
  -- 1. Update last verified block.
  awaitDb r.lastVerifiedBlock (.ok f) fun lastVerifiedBlock => do
    let f ← f.updateLastBlock r .VERIFY lastVerifiedBlock
    -- 2. Update last committed block.
    awaitDb r.lastCommittedBlock (.ok f) fun lastCommittedBlock => do
      let f ← f.updateLastBlock r .COMMIT lastCommittedBlock
      -- 3. Update pending block (it may contain new executed txs).
      awaitDb r.pendingBlock (.ok f) fun pendingBlock => .ok (f.announce pendingBlock)

/-- The executed operations that were sent, each with the number of its block. -/
def announced : List (BlockNumber × ExecutedOperations) :=
  f.txsSent.flatMap fun ops => ops.operations.map fun op => (ops.blockNumber, op)

end EventFetcher

/-! ## The database -/

/-- The operations of a pending block, those that failed behind the others. -/
def SendablePendingBlock.operations (p : SendablePendingBlock) : List ExecutedOperations :=
  p.successOperations ++ p.failedTxs.map .Tx

/-- The operations of a pending block, each with the number of the block. -/
def SendablePendingBlock.numbered (p : SendablePendingBlock) :
    List (BlockNumber × ExecutedOperations) :=
  p.operations.map fun op => (p.number, op)

/-- A pending block as it is read: the rows have different keys, and the failed
transactions are apart. -/
structure SendablePendingBlock.WellFormed {H : Type} (hash : ZkSyncTx → H)
    (p : SendablePendingBlock) : Prop where
  keys : (p.operations.map (keyOf hash)).Nodup
  success : ∀ op ∈ p.successOperations, op.isSuccessful
  failed : ∀ tx ∈ p.failedTxs, tx.success = false

/-- The same pending block, later: operations were added, and a failed transaction is
still there unless it succeeded since. -/
structure SendablePendingBlock.GrownInto {H : Type} (hash : ZkSyncTx → H)
    (p p' : SendablePendingBlock) : Prop where
  number : p.number = p'.number
  success : p.successOperations <+: p'.successOperations
  failed : ∀ tx ∈ p.failedTxs, tx ∈ p'.failedTxs ∨
    keyOf hash (.Tx tx) ∈ p'.successOperations.map (keyOf hash)

/-- The operation of each block and action; once stored it stays. -/
structure OperationLog where
  op : ActionType → BlockNumber → Operation
  action : ∀ a n, (op a n).action.getType = a
  number : ∀ a n, (op a n).block.blockNumber = n

/-- What the fetcher reads from. -/
structure ServerDb where
  committed : BlockNumber
  verified : BlockNumber
  pendingBlock : Option SendablePendingBlock

/-- The pending block is the one after the last sealed block. -/
def ServerDb.WellFormed {H : Type} (hash : ZkSyncTx → H) (db : ServerDb) : Prop :=
  ∀ p, db.pendingBlock = some p → p.number.toNat = db.committed.toNat + 1 ∧ p.WellFormed hash

/-- What the server does with it. -/
inductive DbStep {H : Type} (hash : ZkSyncTx → H) : ServerDb → ServerDb → Prop
  | savePendingBlock {db : ServerDb} {p : SendablePendingBlock} :
      p.number.toNat = db.committed.toNat + 1 → p.WellFormed hash →
      (∀ p₀, db.pendingBlock = some p₀ → p₀.GrownInto hash p) →
      DbStep hash db { db with pendingBlock := some p }
  | commitBlock {db : ServerDb} {n : BlockNumber} : n.toNat = db.committed.toNat + 1 →
      DbStep hash db { db with committed := n, pendingBlock := none }
  | verifyBlock {db : ServerDb} {n : BlockNumber} : n.toNat = db.verified.toNat + 1 →
      n ≤ db.committed → DbStep hash db { db with verified := n }

/-! ## Fetching from it -/

/-- The database and the fetcher, with the pending blocks that it read ahead of the last
committed block. -/
structure Fetching where
  db : ServerDb
  fetcher : EventFetcher
  readAhead : List SendablePendingBlock

/-- The pending block that the round reads, if it gets that far and the block is ahead. -/
def PollReplies.readAhead (r : PollReplies) (lastCommittedBlock : BlockNumber) :
    List SendablePendingBlock :=
  match r.lastVerifiedBlock, r.lastCommittedBlock, r.pendingBlock with
  | .ok _, .ok _, .ok (some p) => if lastCommittedBlock < p.number then [p] else []
  | _, _, _ => []

/-- One round of the loop; every read that succeeds finds what is there at its time. -/
structure FetchStep {H : Type} (hash : ZkSyncTx → H) (log : OperationLog) (σ : Fetching)
    (r : PollReplies) (σ' : Fetching) : Prop where
  reads : ∃ db₁ db₂, Relation.ReflTransGen (DbStep hash) σ.db db₁ ∧
    Relation.ReflTransGen (DbStep hash) db₁ db₂ ∧
    Relation.ReflTransGen (DbStep hash) db₂ σ'.db ∧
    (∀ n, r.lastVerifiedBlock = .ok n → n = db₁.verified) ∧
    (∀ n, r.lastCommittedBlock = .ok n → n = db₂.committed)
  pendingBlock : ∀ p, r.pendingBlock = .ok p → p = σ'.db.pendingBlock
  operations : ∀ a n op, r.loadOperation a n = .ok op → op = log.op a n
  poll : σ.fetcher.poll r = .ok σ'.fetcher
  readAhead : σ'.readAhead = σ.readAhead ++ r.readAhead σ'.fetcher.lastCommittedBlock

/-- `EventFetcher::new`. -/
structure Fetching.Starts {H : Type} (hash : ZkSyncTx → H) (db : ServerDb) (σ : Fetching) :
    Prop where
  wellFormed : db.WellFormed hash
  new : ∃ db₁, Relation.ReflTransGen (DbStep hash) db db₁ ∧
    Relation.ReflTransGen (DbStep hash) db₁ σ.db ∧
    EventFetcher.new (.ok db.pendingBlock) (.ok db₁.committed) (.ok σ.db.verified) = .ok σ.fetcher
  readAhead : σ.readAhead = []

/-- Every operation is loaded that the round asks for, and in the pending block no new
failure is where an old one was when it was read last. -/
structure Undisturbed (σ : Fetching) (r : PollReplies) : Prop where
  verified : ∀ v, r.lastVerifiedBlock = .ok v →
    ∀ n ∈ blockRange σ.fetcher.lastVerifiedBlock v, ∃ op, r.loadOperation .VERIFY n = .ok op
  committed : ∀ v c, r.lastVerifiedBlock = .ok v → r.lastCommittedBlock = .ok c →
    ∀ n ∈ blockRange σ.fetcher.lastCommittedBlock c, ∃ op, r.loadOperation .COMMIT n = .ok op
  failed : ∀ v c p p', r.lastVerifiedBlock = .ok v → r.lastCommittedBlock = .ok c →
    σ.fetcher.pendingBlock = some p → r.pendingBlock = .ok (some p') → p.number = p'.number →
    ∀ tx ∈ p'.failedTxs.take p.failedTxs.length, tx ∈ p.failedTxs

/-- The operations that the fetcher knew of when it started. -/
def EventFetcher.known (f : EventFetcher) : List (BlockNumber × ExecutedOperations) :=
  f.pendingBlock.toList.flatMap SendablePendingBlock.numbered

/-- What was sent since the start: the operations of all blocks up to the last, in order;
and every operation of the pending blocks, once. -/
structure Delivered (log : OperationLog) (σ₀ σ : Fetching) : Prop where
  operations : ∀ a, (σ.fetcher.operationsSent.filter fun op => op.action.getType = a) =
    (blockRange (σ₀.fetcher.lastBlock a) (σ.fetcher.lastBlock a)).map (log.op a)
  once : (σ₀.fetcher.known ++ σ.fetcher.announced).Nodup
  all : ∀ p ∈ σ.readAhead, ∀ x ∈ p.numbered, x ∈ σ₀.fetcher.known ++ σ.fetcher.announced
  only : ∀ x ∈ σ.fetcher.announced, ∃ p ∈ σ.readAhead, x ∈ p.numbered

/-! ## Block operations -/

section Operations

variable {log : OperationLog} {r : PollReplies} {f f' : EventFetcher} {a b c : BlockNumber}
  {action : ActionType}

/-- The blocks up to a number, and those behind it. -/
theorem blockRange_append (hab : a ≤ b) (hbc : b ≤ c) :
    blockRange a b ++ blockRange b c = blockRange a c := by
  rw [UInt32.le_iff_toNat_le] at hab hbc
  unfold blockRange
  rw [← List.map_append, show b.toNat + 1 = a.toNat + 1 + (b.toNat - a.toNat) by omega,
    List.range'_append_1]
  congr 2
  omega

/-- Nothing is sent if the counter is not behind. -/
theorem blockRange_of_le (hba : b ≤ a) : blockRange a b = [] := by
  rw [UInt32.le_iff_toNat_le] at hba
  unfold blockRange
  rw [Nat.sub_eq_zero_of_le hba]
  rfl

/-- A reading that fails ends the poll with what is there. -/
theorem awaitDb_eq_ok {α β : Type} {e : Outcome α} {onExit : Outcome β} {g : α → Outcome β} {y : β}
    (h : awaitDb e onExit g = .ok y) :
    (∃ res, e = .ok res ∧ g res = .ok y) ∨ ((∀ res, e ≠ .ok res) ∧ onExit = .ok y) := by
  match e with
  | .ok res => exact Or.inl ⟨res, rfl, h⟩
  | .error (.error _) => exact Or.inr ⟨fun _ h => (by cases h), h⟩
  | .error (.panic _) => cases h

/-- Where every operation can be loaded, all of them are sent in order. -/
theorem foldlM_sendOperation (hlog : ∀ a n op, r.loadOperation a n = .ok op → op = log.op a n) :
    ∀ {blocks : List BlockNumber} {f : EventFetcher},
      (∀ n ∈ blocks, ∃ op, r.loadOperation action n = .ok op) →
      blocks.foldlM (EventFetcher.sendOperation r action) f =
        .ok { f with operationsSent := f.operationsSent ++ blocks.map (log.op action) }
  | [], f, _ => by
    rw [List.map_nil, List.append_nil]
    rfl
  | n :: blocks, f, hload => by
    obtain ⟨op, hop⟩ := hload n List.mem_cons_self
    have hsend : EventFetcher.sendOperation r action f n =
        .ok { f with operationsSent := f.operationsSent ++ [op] } := by
      unfold EventFetcher.sendOperation
      rw [hop]
      rfl
    rw [List.foldlM_cons, hsend, Outcome.ok_bind,
      foldlM_sendOperation hlog fun m hm => hload m (List.mem_cons_of_mem _ hm), hlog _ _ _ hop]
    simp

/-- A step that can load all operations sends them, up to the block it moves on to. -/
theorem updateLastBlock_spec (hlog : ∀ a n op, r.loadOperation a n = .ok op → op = log.op a n)
    (action : ActionType) {last : BlockNumber}
    (hload : ∀ n ∈ blockRange (f.lastBlock action) last,
      ∃ op, r.loadOperation action n = .ok op)
    (h : f.updateLastBlock r action last = .ok f') :
    ∃ n, f.lastBlock action ≤ n ∧ last ≤ n ∧
      f' = ({ f with operationsSent := f.operationsSent ++
        (blockRange (f.lastBlock action) n).map (log.op action) } : EventFetcher).setLastBlock n
          action := by
  unfold EventFetcher.updateLastBlock at h
  by_cases hlt : f.lastBlock action < last
  · rw [if_pos hlt] at h
    unfold EventFetcher.sendOperations at h
    rw [foldlM_sendOperation hlog hload, Outcome.ok_bind] at h
    cases h
    exact ⟨last, UInt32.le_of_lt hlt, UInt32.le_refl last, rfl⟩
  · rw [if_neg hlt] at h
    cases h
    refine ⟨f.lastBlock action, UInt32.le_refl _, UInt32.not_lt.mp hlt, ?_⟩
    rw [blockRange_of_le (UInt32.le_refl _), List.map_nil, List.append_nil]
    cases action <;> rfl

/-- The fetcher after the first two steps of a round. -/
def EventFetcher.moved (f : EventFetcher) (log : OperationLog) (v c : BlockNumber) : EventFetcher :=
  { f with
    lastVerifiedBlock := v
    lastCommittedBlock := c
    operationsSent := f.operationsSent ++ (blockRange f.lastVerifiedBlock v).map (log.op .VERIFY) ++
      (blockRange f.lastCommittedBlock c).map (log.op .COMMIT) }

/-- A poll that reads no pending block announces none. -/
theorem readAhead_of_failed {c : BlockNumber} (h : ∀ v c' p, r.lastVerifiedBlock = .ok v →
    r.lastCommittedBlock = .ok c' → r.pendingBlock ≠ .ok p) : r.readAhead c = [] := by
  unfold PollReplies.readAhead
  split
  next v c' p hv hc hp => exact absurd hp (h v c' _ hv hc)
  next => rfl

/-- An undisturbed round: the cursors move to what was read, and the pending block is
looked at unless a read failed. -/
theorem poll_spec {σ : Fetching} (hundisturbed : Undisturbed σ r)
    (hlog : ∀ a n op, r.loadOperation a n = .ok op → op = log.op a n)
    (h : σ.fetcher.poll r = .ok f') :
    ∃ v c, σ.fetcher.lastVerifiedBlock ≤ v ∧ σ.fetcher.lastCommittedBlock ≤ c ∧
      (∀ n, r.lastVerifiedBlock = .ok n → n ≤ v ∧ ∀ m, r.lastCommittedBlock = .ok m → m ≤ c) ∧
      ((f' = σ.fetcher.moved log v c ∧ ∀ n, r.readAhead n = []) ∨
        ∃ v' c' p, r.lastVerifiedBlock = .ok v' ∧ r.lastCommittedBlock = .ok c' ∧
          r.pendingBlock = .ok p ∧ f' = (σ.fetcher.moved log v c).announce p) := by
  have hstay : ∀ v, blockRange v v = [] := fun v => blockRange_of_le (UInt32.le_refl v)
  unfold EventFetcher.poll at h
  -- every reading may end the poll, so the cases follow their order
  rcases awaitDb_eq_ok h with ⟨last, hlast, h⟩ | ⟨hfailed, h⟩
  · obtain ⟨f₁, hverified, h⟩ := Outcome.bind_eq_ok.mp h
    obtain ⟨v, hv, hlastv, rfl⟩ :=
      updateLastBlock_spec hlog .VERIFY (hundisturbed.verified last hlast) hverified
    rcases awaitDb_eq_ok h with ⟨last', hlast', h⟩ | ⟨hfailed, h⟩
    · obtain ⟨f₂, hcommitted, h⟩ := Outcome.bind_eq_ok.mp h
      obtain ⟨c, hc, hlastc, rfl⟩ := updateLastBlock_spec hlog .COMMIT
        (by exact hundisturbed.committed last last' hlast hlast') hcommitted
      refine ⟨v, c, hv, hc, fun n hn => ?_, ?_⟩
      · rw [hlast] at hn
        cases hn
        refine ⟨hlastv, fun m hm => ?_⟩
        rw [hlast'] at hm
        cases hm
        exact hlastc
      · rcases awaitDb_eq_ok h with ⟨p, hp, h⟩ | ⟨hfailed, h⟩
        · cases h
          exact Or.inr ⟨last, last', p, hlast, hlast', hp, rfl⟩
        · cases h
          exact Or.inl ⟨rfl, fun _ => readAhead_of_failed fun _ _ p _ _ => hfailed p⟩
    · -- the committed block could not be read: only the first cursor moves
      cases h
      refine ⟨v, σ.fetcher.lastCommittedBlock, hv, UInt32.le_refl _, fun n hn => ?_, Or.inl ⟨?_, ?_⟩⟩
      · rw [hlast] at hn
        cases hn
        exact ⟨hlastv, fun m hm => absurd hm (hfailed m)⟩
      · unfold EventFetcher.moved
        rw [hstay, List.map_nil, List.append_nil]
        rfl
      · exact fun _ => readAhead_of_failed fun _ c' _ _ hc' => absurd hc' (hfailed c')
  · cases h
    refine ⟨_, _, UInt32.le_refl _, UInt32.le_refl _, fun n hn => absurd hn (hfailed n),
      Or.inl ⟨?_, ?_⟩⟩
    · unfold EventFetcher.moved
      rw [hstay, hstay, List.map_nil, List.map_nil, List.append_nil, List.append_nil]
    · exact fun _ => readAhead_of_failed fun v _ _ hv _ => absurd hv (hfailed v)

/-- The two lists that a round adds are told apart by their action. -/
theorem filter_moved (f : EventFetcher) (v c : BlockNumber) (a : ActionType) :
    ((f.moved log v c).operationsSent.filter fun op => op.action.getType = a) =
      (f.operationsSent.filter fun op => op.action.getType = a) ++
        (blockRange (f.lastBlock a) ((f.moved log v c).lastBlock a)).map (log.op a) := by
  have hmap : ∀ (a' : ActionType) (blocks : List BlockNumber),
      ((blocks.map (log.op a')).filter fun op => op.action.getType = a) =
        if a' = a then blocks.map (log.op a) else [] := by
    intro a' blocks
    by_cases ha : a' = a
    · rw [if_pos ha, ha]
      refine List.filter_eq_self.mpr fun op hop => ?_
      obtain ⟨n, -, rfl⟩ := List.mem_map.mp hop
      exact decide_eq_true (log.action a n)
    · rw [if_neg ha]
      refine List.filter_eq_nil_iff.mpr fun op hop => ?_
      obtain ⟨n, -, rfl⟩ := List.mem_map.mp hop
      rw [log.action, decide_eq_true_eq]
      exact ha
  unfold EventFetcher.moved
  rw [List.filter_append, List.filter_append, hmap, hmap]
  cases a with
  | COMMIT =>
    rw [if_neg (by decide), if_pos rfl, List.append_nil]
    rfl
  | VERIFY =>
    rw [if_pos rfl, if_neg (by decide), List.append_nil]
    rfl

end Operations

/-! ## Pending blocks -/

section Pending

variable {H : Type} {hash : ZkSyncTx → H} {p s : SendablePendingBlock}
  {known : List (BlockNumber × ExecutedOperations)} {snapshot : Option SendablePendingBlock}

/-- The operations of the pending block are announced under its number. -/
theorem mem_numbered {x : BlockNumber × ExecutedOperations} :
    x ∈ p.numbered ↔ x.1 = p.number ∧ x.2 ∈ p.operations := by
  unfold SendablePendingBlock.numbered
  rw [List.mem_map]
  constructor
  · rintro ⟨op, hop, rfl⟩
    exact ⟨rfl, hop⟩
  · rintro ⟨hn, hop⟩
    exact ⟨x.2, hop, by rw [← hn]⟩

theorem mem_operations {op : ExecutedOperations} :
    op ∈ p.operations ↔ op ∈ p.successOperations ∨ ∃ tx ∈ p.failedTxs, op = .Tx tx := by
  unfold SendablePendingBlock.operations
  rw [List.mem_append, List.mem_map]
  exact or_congr_right ⟨fun ⟨tx, h, heq⟩ => ⟨tx, h, heq.symm⟩, fun ⟨tx, h, heq⟩ => ⟨tx, h, heq.symm⟩⟩

/-- If the first places of a list hold elements of `m`, as many as `m` has, then the rest
is new. -/
theorem notMem_of_mem_drop {α : Type} {l m : List α} (hl : l.Nodup)
    (htake : ∀ x ∈ l.take m.length, x ∈ m) {x : α} (hx : x ∈ l.drop m.length) : x ∉ m := by
  intro hm
  have hlt : m.length < l.length := by
    by_contra hge
    rw [List.drop_eq_nil_of_le (by omega)] at hx
    cases hx
  -- the first places hold all of `m`, and `x` is not there
  have hperm : (l.take m.length).Perm m := by
    refine (List.Nodup.subperm (hl.sublist (List.take_sublist _ _)) htake).perm_of_length_le ?_
    rw [List.length_take]
    omega
  exact List.disjoint_take_drop hl (Nat.le_refl _) (hperm.mem_iff.mpr hm) hx

/-- No operation is in a pending block twice. -/
theorem SendablePendingBlock.WellFormed.nodup (h : p.WellFormed hash) : p.operations.Nodup :=
  List.Nodup.of_map _ h.keys

/-- What the fetcher has sent or known, and the pending block that it remembers. -/
structure Known (hash : ZkSyncTx → H) (known : List (BlockNumber × ExecutedOperations))
    (snapshot : Option SendablePendingBlock) : Prop where
  nodup : known.Nodup
  none : snapshot = none → known = []
  le : ∀ s, snapshot = some s → ∀ x ∈ known, x.1 ≤ s.number
  all : ∀ s, snapshot = some s → ∀ x ∈ s.numbered, x ∈ known
  /-- A failed transaction that is gone has succeeded since. -/
  past : ∀ s, snapshot = some s → ∀ x ∈ known, x.1 = s.number →
    x.2 ∈ s.operations ∨ keyOf hash x.2 ∈ s.successOperations.map (keyOf hash)
  wellFormed : ∀ s, snapshot = some s → s.WellFormed hash

/-- The block was read before: it is sealed by now, or still pending. -/
def Behind (hash : ZkSyncTx → H) (db : ServerDb) (s : SendablePendingBlock) : Prop :=
  s.number ≤ db.committed ∨ ∃ p, db.pendingBlock = some p ∧ s.GrownInto hash p

/-- Of a block that no operation is known of, all operations are sent. -/
theorem Known.newBlock (hk : Known hash known snapshot) (hp : p.WellFormed hash)
    (hlt : ∀ x ∈ known, x.1 < p.number) : Known hash (known ++ p.numbered) (some p) := by
  have hinj : Function.Injective fun op : ExecutedOperations => (p.number, op) :=
    fun _ _ h => (Prod.mk.inj h).2
  refine ⟨?_, fun h => (by cases h), ?_, ?_, ?_, ?_⟩
  · refine List.nodup_append.mpr ⟨hk.nodup, hp.nodup.map hinj, fun x hx y hy heq => ?_⟩
    have hxn := hlt x hx
    rw [heq, (mem_numbered.mp hy).1] at hxn
    exact UInt32.lt_irrefl _ hxn
  · rintro _ ⟨⟩ x hx
    rcases List.mem_append.mp hx with hx | hx
    · exact UInt32.le_of_lt (hlt x hx)
    · rw [(mem_numbered.mp hx).1]
      exact UInt32.le_refl _
  · rintro _ ⟨⟩ x hx
    exact List.mem_append_right _ hx
  · rintro _ ⟨⟩ x hx hn
    rcases List.mem_append.mp hx with hx | hx
    · exact absurd (hn ▸ hlt x hx) (UInt32.lt_irrefl _)
    · exact Or.inl (mem_numbered.mp hx).2
  · rintro _ ⟨⟩
    exact hp

/-- The operations beyond the numbers of an earlier reading. -/
def SendablePendingBlock.since (p s : SendablePendingBlock) : List ExecutedOperations :=
  p.successOperations.drop s.successOperations.length ++
    (p.failedTxs.drop s.failedTxs.length).map .Tx

/-- What is new in a pending block keeps its order. -/
theorem since_sublist : (p.since s).Sublist p.operations :=
  (List.drop_sublist _ _).append ((List.drop_sublist _ _).map _)

section Grown

variable (hp : p.WellFormed hash) (hgrown : s.GrownInto hash p)
include hgrown

/-- What was announced is still there when the block has grown. -/
theorem SendablePendingBlock.GrownInto.kept {key : OperationKey H}
    (hkey : key ∈ s.successOperations.map (keyOf hash)) :
    key ∈ p.successOperations.map (keyOf hash) := by
  obtain ⟨rest, hrest⟩ := hgrown.success
  rw [← hrest, List.map_append]
  exact List.mem_append_left _ hkey

include hp

/-- No operation beyond the old numbers has the key of an old success. -/
theorem key_of_mem_since {op : ExecutedOperations} (hop : op ∈ p.since s) :
    keyOf hash op ∉ s.successOperations.map (keyOf hash) := by
  obtain ⟨rest, hrest⟩ := hgrown.success
  have hkeys := hp.keys
  unfold SendablePendingBlock.operations at hkeys
  rw [← hrest, List.append_assoc, List.map_append, List.nodup_append] at hkeys
  unfold SendablePendingBlock.since at hop
  rw [← hrest, List.drop_left] at hop
  intro hkey
  have hsub : (rest ++ (p.failedTxs.drop s.failedTxs.length).map ExecutedOperations.Tx).Sublist
      (rest ++ p.failedTxs.map .Tx) :=
    (List.Sublist.refl rest).append ((List.drop_sublist _ _).map _)
  exact hkeys.2.2 _ hkey _ (List.mem_map_of_mem (hsub.subset hop)) rfl

/-- An operation beyond the old numbers was not there when the block was read. -/
theorem notMem_of_mem_since (hs : s.WellFormed hash)
    (hfailed : ∀ tx ∈ p.failedTxs.take s.failedTxs.length, tx ∈ s.failedTxs)
    {op : ExecutedOperations} (hop : op ∈ p.since s) : op ∉ s.operations := by
  intro hold
  rcases mem_operations.mp hold with hsuccess | ⟨tx, htx, rfl⟩
  · exact key_of_mem_since hp hgrown hop (List.mem_map_of_mem hsuccess)
  · rcases List.mem_append.mp hop with hsince | hsince
    · -- a failed transaction is not among the successes
      have hsucceeded := hp.success (.Tx tx) (List.mem_of_mem_drop hsince)
      rw [show ExecutedOperations.isSuccessful (.Tx tx) = tx.success from rfl,
        hs.failed tx htx] at hsucceeded
      cases hsucceeded
    · obtain ⟨tx', htx', heq⟩ := List.mem_map.mp hsince
      cases heq
      have hnodup : p.failedTxs.Nodup :=
        List.Nodup.of_map ExecutedOperations.Tx (List.nodup_append.mp hp.nodup).2.1
      exact notMem_of_mem_drop hnodup hfailed htx' htx

omit hp in
/-- An operation of the block was there when it was read, or is beyond the old numbers. -/
theorem mem_or_mem_since (hfailed : ∀ tx ∈ p.failedTxs.take s.failedTxs.length, tx ∈ s.failedTxs)
    {op : ExecutedOperations} (hop : op ∈ p.operations) : op ∈ s.operations ∨ op ∈ p.since s := by
  obtain ⟨rest, hrest⟩ := hgrown.success
  unfold SendablePendingBlock.since
  rw [← hrest, List.drop_left, List.mem_append]
  rcases mem_operations.mp hop with hsuccess | ⟨tx, htx, rfl⟩
  · rw [← hrest] at hsuccess
    rcases List.mem_append.mp hsuccess with hold | hnew
    · exact Or.inl (mem_operations.mpr (Or.inl hold))
    · exact Or.inr (Or.inl hnew)
  · rw [← List.take_append_drop s.failedTxs.length p.failedTxs] at htx
    rcases List.mem_append.mp htx with htake | hdrop
    · exact Or.inl (mem_operations.mpr (Or.inr ⟨tx, hfailed tx htake, rfl⟩))
    · exact Or.inr (Or.inr (List.mem_map_of_mem hdrop))

/-- Of the block that was read last, the operations from the old numbers on are new. -/
theorem Known.sameBlock (hk : Known hash known (some s))
    (hfailed : ∀ tx ∈ p.failedTxs.take s.failedTxs.length, tx ∈ s.failedTxs) :
    Known hash (known ++ (p.since s).map fun op => (p.number, op)) (some p) := by
  have hinj : Function.Injective fun op : ExecutedOperations => (p.number, op) :=
    fun _ _ h => (Prod.mk.inj h).2
  have hnew : ∀ op ∈ p.since s, (p.number, op) ∉ known := by
    intro op hop hknown
    rcases hk.past s rfl _ hknown hgrown.number.symm with hold | hkey
    · exact notMem_of_mem_since hp hgrown (hk.wellFormed s rfl) hfailed hop hold
    · exact key_of_mem_since hp hgrown hop hkey
  refine ⟨?_, fun h => (by cases h), ?_, ?_, ?_, ?_⟩
  · refine List.nodup_append.mpr ⟨hk.nodup, (hp.nodup.sublist since_sublist).map hinj,
      fun x hx y hy heq => ?_⟩
    obtain ⟨op, hop, rfl⟩ := List.mem_map.mp hy
    exact hnew op hop (heq ▸ hx)
  · rintro _ ⟨⟩ x hx
    rcases List.mem_append.mp hx with hx | hx
    · exact hgrown.number ▸ hk.le s rfl x hx
    · obtain ⟨op, -, rfl⟩ := List.mem_map.mp hx
      exact UInt32.le_refl _
  · rintro _ ⟨⟩ ⟨n, op⟩ hx
    obtain ⟨hn, hop⟩ := mem_numbered.mp hx
    dsimp only at hn hop
    subst hn
    rcases mem_or_mem_since hgrown hfailed hop with hold | hsince
    · exact List.mem_append_left _ (hk.all s rfl _ (mem_numbered.mpr ⟨hgrown.number.symm, hold⟩))
    · exact List.mem_append_right _ (List.mem_map_of_mem hsince)
  · rintro _ ⟨⟩ x hx hn
    rcases List.mem_append.mp hx with hx | hx
    · rcases hk.past s rfl x hx (hn.trans hgrown.number.symm) with hold | hkey
      · rcases mem_operations.mp hold with hsuccess | ⟨tx, htx, heq⟩
        · exact Or.inr (hgrown.kept (List.mem_map_of_mem hsuccess))
        · rw [heq]
          exact (hgrown.failed tx htx).imp_left fun h => mem_operations.mpr (Or.inr ⟨tx, h, rfl⟩)
      · exact Or.inr (hgrown.kept hkey)
    · obtain ⟨op, hop, rfl⟩ := List.mem_map.mp hx
      exact Or.inl (since_sublist.subset hop)
  · rintro _ ⟨⟩
    exact hp

end Grown

/-! ### The database moves on -/

section Database

variable {db db' : ServerDb}

/-- A pending block that grows twice has grown. -/
theorem SendablePendingBlock.GrownInto.trans {q : SendablePendingBlock} (h : s.GrownInto hash p)
    (h' : p.GrownInto hash q) : s.GrownInto hash q := by
  refine ⟨h.number.trans h'.number, h.success.trans h'.success, fun tx htx => ?_⟩
  rcases h.failed tx htx with hmem | hkey
  · exact h'.failed tx hmem
  · exact Or.inr (h'.kept hkey)

theorem SendablePendingBlock.GrownInto.refl (s : SendablePendingBlock) : s.GrownInto hash s :=
  ⟨rfl, List.prefix_refl _, fun _ htx => Or.inl htx⟩

/-- The keeper only makes pending blocks that are well formed. -/
theorem ServerDb.WellFormed.step (h : db.WellFormed hash) (hstep : DbStep hash db db') :
    db'.WellFormed hash := by
  cases hstep with
  | savePendingBlock hnumber hp =>
    rintro _ ⟨⟩
    exact ⟨hnumber, hp⟩
  | commitBlock _ => exact fun _ hp => (by cases hp)
  | verifyBlock _ _ => exact h

/-- A fetcher that is behind the database stays behind it. -/
theorem Behind.step (hdb : db.WellFormed hash) (hb : Behind hash db s)
    (hstep : DbStep hash db db') : Behind hash db' s := by
  cases hstep with
  | savePendingBlock _ _ hgrown =>
    refine hb.imp_right fun ⟨p₀, hp₀, hs⟩ => ⟨_, rfl, hs.trans (hgrown p₀ hp₀)⟩
  | @commitBlock n hn =>
    -- the block that was pending is sealed
    refine Or.inl ?_
    rw [UInt32.le_iff_toNat_le]
    show s.number.toNat ≤ n.toNat
    rcases hb with hle | ⟨p₀, hp₀, hs⟩
    · rw [UInt32.le_iff_toNat_le] at hle
      omega
    · rw [hs.number, (hdb p₀ hp₀).1]
      omega
  | verifyBlock _ _ => exact hb

/-- So it does through the steps between two polls. -/
theorem Behind.steps (hdb : db.WellFormed hash) (hb : Behind hash db s)
    (hsteps : Relation.ReflTransGen (DbStep hash) db db') : Behind hash db' s := by
  have hboth : db'.WellFormed hash ∧ Behind hash db' s := by
    induction hsteps with
    | refl => exact ⟨hdb, hb⟩
    | tail _ hstep ih => exact ⟨ih.1.step hstep, ih.2.step ih.1 hstep⟩
  exact hboth.2

/-- The database stays well formed through them, too. -/
theorem ServerDb.WellFormed.steps (h : db.WellFormed hash)
    (hsteps : Relation.ReflTransGen (DbStep hash) db db') : db'.WellFormed hash := by
  induction hsteps with
  | refl => exact h
  | tail _ hstep ih => exact ih.step hstep

end Database

/-! ### What is announced -/

variable {f : EventFetcher}

/-- The operations that the fetcher sends of a pending block. -/
def EventFetcher.news (f : EventFetcher) (p : SendablePendingBlock) : List ExecutedOperations :=
  p.successOperations.drop (f.lastLengths p).1 ++ (p.failedTxs.drop (f.lastLengths p).2).map .Tx

/-- Nothing happens if the block is sealed by now or has no more operations than before. -/
theorem announce_cases (f : EventFetcher) (p : SendablePendingBlock) :
    (p.number ≤ f.lastCommittedBlock ∨ f.news p = []) ∧ f.announce (some p) = f ∨
      f.lastCommittedBlock < p.number ∧ f.announce (some p) =
        { f with pendingBlock := some p, txsSent := f.txsSent ++ [⟨f.news p, p.number⟩] } := by
  unfold EventFetcher.announce EventFetcher.updatePendingBlock
  dsimp only
  by_cases hle : p.number ≤ f.lastCommittedBlock
  · rw [if_pos hle]
    exact Or.inl ⟨Or.inl hle, rfl⟩
  · rw [if_neg hle]
    by_cases hsame : p.successOperations.length = (f.lastLengths p).1 ∧
        p.failedTxs.length = (f.lastLengths p).2
    · rw [if_pos hsame]
      refine Or.inl ⟨Or.inr ?_, rfl⟩
      unfold EventFetcher.news
      rw [List.drop_eq_nil_of_le (Nat.le_of_eq hsame.1),
        List.drop_eq_nil_of_le (Nat.le_of_eq hsame.2)]
      rfl
    · rw [if_neg hsame]
      exact Or.inr ⟨UInt32.not_le.mp hle, rfl⟩

/-- Announcing a pending block changes no counter and sends no operation. -/
theorem announce_frame (p : Option SendablePendingBlock) :
    (f.announce p).operationsSent = f.operationsSent ∧
      ∀ a, (f.announce p).lastBlock a = f.lastBlock a := by
  cases p with
  | none => exact ⟨rfl, fun _ => rfl⟩
  | some p =>
    rcases announce_cases f p with ⟨-, heq⟩ | ⟨-, heq⟩
    · rw [heq]
      exact ⟨rfl, fun _ => rfl⟩
    · rw [heq]
      exact ⟨rfl, fun a => by cases a <;> rfl⟩

/-- A pending block that was committed meanwhile is not announced again. -/
theorem announce_outdated (hle : p.number ≤ f.lastCommittedBlock) : f.announce (some p) = f := by
  rcases announce_cases f p with ⟨-, heq⟩ | ⟨hlt, -⟩
  · exact heq
  · exact absurd hle (UInt32.not_le.mpr hlt)

/-- The pending block is remembered, unless there is nothing new. -/
theorem announce_ahead (hlt : f.lastCommittedBlock < p.number) :
    (f.announce (some p)).announced = f.announced ++ (f.news p).map (fun op => (p.number, op)) ∧
      ((f.announce (some p)).pendingBlock = some p ∨
        f.news p = [] ∧ (f.announce (some p)).pendingBlock = f.pendingBlock) := by
  rcases announce_cases f p with ⟨hle | hnil, heq⟩ | ⟨-, heq⟩
  · exact absurd hle (UInt32.not_le.mpr hlt)
  · rw [heq, hnil]
    exact ⟨(List.append_nil _).symm, Or.inr ⟨rfl, rfl⟩⟩
  · rw [heq]
    refine ⟨?_, Or.inl rfl⟩
    unfold EventFetcher.announced
    rw [List.flatMap_append, List.flatMap_singleton]

/-- One reading of the pending block: what is known before and sent now are all its
operations, and none is sent again. -/
theorem Known.announce (hk : Known hash known f.pendingBlock) {db : ServerDb}
    (hdb : db.WellFormed hash) (hp : db.pendingBlock = some p)
    (hbehind : ∀ s, f.pendingBlock = some s → Behind hash db s)
    (hfailed : ∀ s, f.pendingBlock = some s → s.number = p.number →
      ∀ tx ∈ p.failedTxs.take s.failedTxs.length, tx ∈ s.failedTxs)
    (hlt : f.lastCommittedBlock < p.number) :
    Known hash (known ++ (f.news p).map fun op => (p.number, op))
        (f.announce (some p)).pendingBlock ∧
      (∀ x ∈ p.numbered, x ∈ known ++ (f.news p).map fun op => (p.number, op)) ∧
      (∀ op ∈ f.news p, op ∈ p.operations) ∧
      ∀ s, (f.announce (some p)).pendingBlock = some s → Behind hash db s := by
  obtain ⟨hnumber, hwf⟩ := hdb p hp
  -- what was announced together with the news is all that is known of this pending block
  have hnext : Known hash (known ++ (f.news p).map fun op => (p.number, op)) (some p) ∧
      ∀ op ∈ f.news p, op ∈ p.operations := by
    cases hs : f.pendingBlock with
    | none =>
      have hnews : f.news p = p.operations := by
        unfold EventFetcher.news EventFetcher.lastLengths
        rw [hs]
        rfl
      rw [hnews]
      refine ⟨Known.newBlock (hs ▸ hk) hwf fun x hx => ?_, fun _ hop => hop⟩
      rw [hk.none hs] at hx
      cases hx
    | some s =>
      by_cases hsame : s.number = p.number
      · -- read before, and not sealed since
        have hgrown : s.GrownInto hash p := by
          rcases hbehind s hs with hle | ⟨p', hp', hgrown⟩
          · rw [UInt32.le_iff_toNat_le, hsame] at hle
            omega
          · rw [hp] at hp'
            cases hp'
            exact hgrown
        have hnews : f.news p = p.since s := by
          unfold EventFetcher.news EventFetcher.lastLengths
          rw [hs]
          dsimp only
          rw [if_pos hsame]
          rfl
        rw [hnews]
        exact ⟨Known.sameBlock hwf hgrown (hs ▸ hk) (hfailed s hs hsame),
          fun _ hop => since_sublist.subset hop⟩
      · have hnews : f.news p = p.operations := by
          unfold EventFetcher.news EventFetcher.lastLengths
          rw [hs]
          dsimp only
          rw [if_neg hsame]
          rfl
        rw [hnews]
        refine ⟨Known.newBlock (hs ▸ hk) hwf fun x hx => ?_, fun _ hop => hop⟩
        have hle := hk.le s hs x hx
        rcases hbehind s hs with hsealed | ⟨p', hp', hgrown⟩
        · rw [UInt32.le_iff_toNat_le] at hle hsealed
          rw [UInt32.lt_iff_toNat_lt]
          omega
        · rw [hp] at hp'
          cases hp'
          exact absurd hgrown.number hsame
  obtain ⟨hnext, hmem⟩ := hnext
  refine ⟨?_, hnext.all p rfl, hmem, ?_⟩
  -- the news are all of a block that is new, or what has joined the one that was announced
  · rcases (announce_ahead hlt).2 with hset | ⟨hnil, hkept⟩
    · rw [hset]
      exact hnext
    · rw [hnil, List.map_nil, List.append_nil, hkept]
      exact hk
  · intro s hs
    rcases (announce_ahead hlt).2 with hset | ⟨-, hkept⟩
    · rw [hset] at hs
      cases hs
      exact Or.inr ⟨p, hp, .refl p⟩
    · exact hbehind s (hkept ▸ hs)

end Pending

/-! ## Runs -/

section Runs

variable {H : Type} {hash : ZkSyncTx → H} {log : OperationLog} {σ₀ σ σ' : Fetching}
  {r : PollReplies} {polls : List PollReplies}

/-- The invariant of the loop. -/
structure Fetching.Ok (hash : ZkSyncTx → H) (log : OperationLog) (σ₀ σ : Fetching) : Prop where
  db : σ.db.WellFormed hash
  behind : ∀ s, σ.fetcher.pendingBlock = some s → Behind hash σ.db s
  known : Known hash (σ₀.fetcher.known ++ σ.fetcher.announced) σ.fetcher.pendingBlock
  le : ∀ a, σ₀.fetcher.lastBlock a ≤ σ.fetcher.lastBlock a
  delivered : Delivered log σ₀ σ

/-- At the start the fetcher has sent nothing, and owes nothing. -/
theorem Fetching.Ok.start {db : ServerDb} (hstart : σ.Starts hash db) :
    Fetching.Ok hash log σ σ := by
  obtain ⟨hwf, ⟨db₁, hfirst, hrest, hnew⟩, hread⟩ := hstart
  have hf := Except.ok.inj hnew
  have hannounced : σ.fetcher.announced = [] := by
    rw [← hf]
    rfl
  have hnone : Known hash [] none :=
    ⟨List.nodup_nil, fun _ => rfl, fun _ h => (by cases h), fun _ h => (by cases h),
      fun _ h => (by cases h), fun _ h => (by cases h)⟩
  have hpending : ∀ s, σ.fetcher.pendingBlock = some s → db.pendingBlock = some s := by
    intro s hs
    rw [← hf] at hs
    exact (Option.filter_eq_some_iff.mp hs).1
  have hknown : Known hash σ.fetcher.known σ.fetcher.pendingBlock := by
    unfold EventFetcher.known
    cases hs : σ.fetcher.pendingBlock with
    | none => exact hnone
    | some s =>
      have hsnumbered := hnone.newBlock (hwf s (hpending s hs)).2 fun x hx => (by cases hx)
      rw [Option.toList_some, List.flatMap_singleton]
      exact hsnumbered
  refine ⟨hwf.steps (hfirst.trans hrest), fun s hs => ?_, ?_, fun a => UInt32.le_refl _,
    ⟨fun a => ?_, ?_, ?_, ?_⟩⟩
  · exact Behind.steps hwf (Or.inr ⟨s, hpending s hs, .refl s⟩) (hfirst.trans hrest)
  · rw [hannounced, List.append_nil]
    exact hknown
  · rw [blockRange_of_le (UInt32.le_refl _), ← hf]
    rfl
  · rw [hannounced, List.append_nil]
    exact hknown.nodup
  · rw [hread]
    exact fun p hp => absurd hp List.not_mem_nil
  · rw [hannounced]
    exact fun x hx => absurd hx List.not_mem_nil

/-- The blocks up to the new cursor are sent. -/
theorem Delivered.moved (hle : ∀ a, σ₀.fetcher.lastBlock a ≤ σ.fetcher.lastBlock a)
    (hd : Delivered log σ₀ σ) {v c : BlockNumber} (hv : σ.fetcher.lastVerifiedBlock ≤ v)
    (hc : σ.fetcher.lastCommittedBlock ≤ c) (a : ActionType) :
    σ.fetcher.lastBlock a ≤ (σ.fetcher.moved log v c).lastBlock a ∧
      ((σ.fetcher.moved log v c).operationsSent.filter fun op => op.action.getType = a) =
        (blockRange (σ₀.fetcher.lastBlock a) ((σ.fetcher.moved log v c).lastBlock a)).map
          (log.op a) := by
  have hstep : σ.fetcher.lastBlock a ≤ (σ.fetcher.moved log v c).lastBlock a := by
    cases a with
    | COMMIT => exact hc
    | VERIFY => exact hv
  refine ⟨hstep, ?_⟩
  rw [filter_moved, hd.operations, ← List.map_append, blockRange_append (hle a) hstep]

/-- A poll sends what is new, whichever readings fail. -/
theorem Fetching.Ok.step (hok : Fetching.Ok hash log σ₀ σ) (hundisturbed : Undisturbed σ r)
    (hstep : FetchStep hash log σ r σ') : Fetching.Ok hash log σ₀ σ' := by
  obtain ⟨⟨db₁, db₂, hfirst, hsecond, hthird, -, -⟩, hpending, hlog, hpoll, hread⟩ := hstep
  have hsteps := (hfirst.trans hsecond).trans hthird
  have hdb := hok.db.steps hsteps
  have hbehind : ∀ s, σ.fetcher.pendingBlock = some s → Behind hash σ'.db s :=
    fun s hs => Behind.steps hok.db (hok.behind s hs) hsteps
  obtain ⟨v, c, hv, hc, -, hcases⟩ := poll_spec hundisturbed hlog hpoll
  have hmoved := hok.delivered.moved hok.le hv hc
  -- nothing is announced
  have hquiet : σ'.fetcher = σ.fetcher.moved log v c →
      r.readAhead σ'.fetcher.lastCommittedBlock = [] → Fetching.Ok hash log σ₀ σ' := by
    intro hf hnone
    rw [hnone, List.append_nil] at hread
    have hannounced : σ'.fetcher.announced = σ.fetcher.announced := by
      rw [hf]
      rfl
    have hsnapshot : σ'.fetcher.pendingBlock = σ.fetcher.pendingBlock := by
      rw [hf]
      rfl
    refine ⟨hdb, ?_, ?_, fun a => ?_, ⟨fun a => ?_, ?_, ?_, ?_⟩⟩
    · rw [hsnapshot]
      exact hbehind
    · rw [hannounced, hsnapshot]
      exact hok.known
    · rw [hf]
      exact UInt32.le_trans (hok.le a) (hmoved a).1
    · rw [hf]
      exact (hmoved a).2
    · rw [hannounced]
      exact hok.delivered.once
    · rw [hannounced, hread]
      exact hok.delivered.all
    · rw [hannounced, hread]
      exact hok.delivered.only
  rcases hcases with ⟨hf, hnone⟩ | ⟨v', c', p, hv', hc', hp, hf⟩
  · exact hquiet hf (hnone _)
  cases p with
  | none =>
    refine hquiet hf ?_
    unfold PollReplies.readAhead
    rw [hv', hc', hp]
  | some p =>
    have hlast : σ'.fetcher.lastCommittedBlock = c := by
      rw [hf]
      exact (announce_frame (f := σ.fetcher.moved log v c) (some p)).2 .COMMIT
    have hreadAhead : r.readAhead σ'.fetcher.lastCommittedBlock =
        if c < p.number then [p] else [] := by
      unfold PollReplies.readAhead
      rw [hv', hc', hp, hlast]
    by_cases hlt : c < p.number
    · rw [if_pos hlt] at hreadAhead
      rw [hreadAhead] at hread
      have hpdb := (hpending _ hp).symm
      obtain ⟨hknown, hall, hmem, hbehind'⟩ := Known.announce (f := σ.fetcher.moved log v c)
        hok.known hdb hpdb hbehind
        (fun s hs => hundisturbed.failed v' c' s p hv' hc' hs hp) hlt
      have hannounced : σ'.fetcher.announced = σ.fetcher.announced ++
          ((σ.fetcher.moved log v c).news p).map fun op => (p.number, op) := by
        rw [hf]
        exact (announce_ahead (f := σ.fetcher.moved log v c) hlt).1
      have hframe := announce_frame (f := σ.fetcher.moved log v c) (some p)
      rw [List.append_assoc, ← hannounced] at hknown
      refine ⟨hdb, ?_, ?_, fun a => ?_, ⟨fun a => ?_, hknown.nodup, ?_, ?_⟩⟩
      · rw [hf]
        exact hbehind'
      · rw [hf] at hknown ⊢
        exact hknown
      · rw [hf, hframe.2]
        exact UInt32.le_trans (hok.le a) (hmoved a).1
      · rw [hf, hframe.1, hframe.2]
        exact (hmoved a).2
      · intro q hq x hx
        rw [hannounced, ← List.append_assoc]
        rw [hread] at hq
        rcases List.mem_append.mp hq with hold | hnew
        · exact List.mem_append_left _ (hok.delivered.all q hold x hx)
        · cases List.mem_singleton.mp hnew
          exact hall x hx
      · intro x hx
        rw [hannounced] at hx
        rw [hread]
        rcases List.mem_append.mp hx with hold | hnew
        · obtain ⟨q, hq, hxq⟩ := hok.delivered.only x hold
          exact ⟨q, List.mem_append_left _ hq, hxq⟩
        · obtain ⟨op, hop, rfl⟩ := List.mem_map.mp hnew
          exact ⟨p, List.mem_append_right _ (List.mem_singleton_self p),
            mem_numbered.mpr ⟨rfl, hmem op hop⟩⟩
    · rw [if_neg hlt] at hreadAhead
      refine hquiet (hf.trans (announce_outdated (f := σ.fetcher.moved log v c) ?_)) hreadAhead
      exact UInt32.not_lt.mp hlt

/-- The cursors are never behind what was read. -/
theorem lastBlock_of_run
    (hrun : Run (fun σ r σ' => Undisturbed σ r ∧ FetchStep hash log σ r σ') σ polls σ') :
    (∀ a, σ.fetcher.lastBlock a ≤ σ'.fetcher.lastBlock a) ∧
      ∀ r ∈ polls, ∀ v, r.lastVerifiedBlock = .ok v → v ≤ σ'.fetcher.lastVerifiedBlock ∧
        ∀ c, r.lastCommittedBlock = .ok c → c ≤ σ'.fetcher.lastCommittedBlock := by
  induction hrun with
  | nil => exact ⟨fun _ => UInt32.le_refl _, fun r hr => absurd hr List.not_mem_nil⟩
  | @cons σ σ₁ σ' r polls hstep _ ih =>
    obtain ⟨hundisturbed, hstep⟩ := hstep
    obtain ⟨v, c, hv, hc, hreads, hcases⟩ := poll_spec hundisturbed hstep.operations hstep.poll
    have hlast : ∀ a, σ₁.fetcher.lastBlock a = (σ.fetcher.moved log v c).lastBlock a := by
      intro a
      rcases hcases with ⟨hf, -⟩ | ⟨-, -, p, -, -, -, hf⟩
      · rw [hf]
      · rw [hf]
        exact (announce_frame p).2 a
    refine ⟨fun a => UInt32.le_trans ?_ (ih.1 a), fun r' hr' => ?_⟩
    · rw [hlast]
      cases a with
      | COMMIT => exact hc
      | VERIFY => exact hv
    · rcases List.mem_cons.mp hr' with rfl | hr'
      · have hverified : v ≤ σ'.fetcher.lastVerifiedBlock := by
          have hle := ih.1 .VERIFY
          rw [hlast] at hle
          exact hle
        have hcommitted : c ≤ σ'.fetcher.lastCommittedBlock := by
          have hle := ih.1 .COMMIT
          rw [hlast] at hle
          exact hle
        exact fun n hn => ⟨UInt32.le_trans (hreads n hn).1 hverified,
          fun m hm => UInt32.le_trans ((hreads n hn).2 m hm) hcommitted⟩
      · exact ih.2 r' hr'

/-- After any undisturbed rounds: every event was sent once and in order, up to what was
read last. -/
theorem events_delivered {db : ServerDb} (hstart : σ₀.Starts hash db)
    (hrun : Run (fun σ r σ' => Undisturbed σ r ∧ FetchStep hash log σ r σ') σ₀ polls σ) :
    Delivered log σ₀ σ ∧
      ∀ r ∈ polls, ∀ v, r.lastVerifiedBlock = .ok v → v ≤ σ.fetcher.lastVerifiedBlock ∧
        ∀ c, r.lastCommittedBlock = .ok c → c ≤ σ.fetcher.lastCommittedBlock := by
  refine ⟨?_, (lastBlock_of_run hrun).2⟩
  exact (hrun.invariant (I := Fetching.Ok hash log σ₀)
    (fun _ _ _ hok hstep => hok.step hstep.1 hstep.2) (Fetching.Ok.start hstart)).delivered

end Runs

/-! ## Two rounds that lose an event -/

/-- The operation of an empty block. -/
def emptyOperation (a : ActionType) (n : BlockNumber) : Operation where
  id := none
  action := match a with
    | .COMMIT => .Commit
    | .VERIFY => .Verify ⟨[], []⟩
  block :=
    { blockNumber := n
      newRootHash := 0
      feeAccount := 0
      blockTransactions := []
      processedPriorityOps := (0, 0)
      blockChunksSize := 6
      commitGasLimit := 0
      verifyGasLimit := 0 }

/-- A log of blocks without operations. -/
def emptyLog : OperationLog where
  op := emptyOperation
  action := fun a _ => by cases a <;> rfl
  number := fun _ _ => rfl

/-- A round in which block 1 is committed. -/
def samplePoll (loadOperation : ActionType → BlockNumber → Outcome Operation) : PollReplies where
  lastVerifiedBlock := .ok 0
  lastCommittedBlock := .ok 1
  loadOperation := loadOperation
  pendingBlock := .ok none

def sampleFetching (committed : BlockNumber) (sent : List Operation) : Fetching where
  db := ⟨committed, 0, none⟩
  fetcher := ⟨committed, 0, none, sent, []⟩
  readAhead := []

theorem starts_sampleFetching (hash : ZkSyncTx → ZkSyncTx) :
    (sampleFetching 0 []).Starts hash ⟨0, 0, none⟩ :=
  ⟨fun _ h => (by cases h), ⟨_, .refl, .refl, rfl⟩, rfl⟩

theorem fetchStep_samplePoll (hash : ZkSyncTx → ZkSyncTx)
    {loadOperation : ActionType → BlockNumber → Outcome Operation} {sent : List Operation}
    (hload : ∀ a n op, loadOperation a n = .ok op → op = emptyOperation a n)
    (hpoll : (sampleFetching 0 []).fetcher.poll (samplePoll loadOperation) =
      .ok (sampleFetching 1 sent).fetcher) :
    FetchStep hash emptyLog (sampleFetching 0 []) (samplePoll loadOperation)
      (sampleFetching 1 sent) := by
  refine ⟨⟨⟨0, 0, none⟩, ⟨1, 0, none⟩, .refl, .single (.commitBlock rfl), .refl, ?_, ?_⟩, ?_, hload,
    hpoll, rfl⟩
  · rintro n ⟨⟩
    rfl
  · rintro n ⟨⟩
    rfl
  · rintro p ⟨⟩
    rfl

/-- A forced exit of this nonce, executed. -/
def sampleExecuted (nonce : UInt32) (success : Bool) : ExecutedTx where
  signedTx := { tx := .ForcedExit ⟨1, 7, 0, 2, nonce, ⟨0, 0⟩⟩, ethSignData := none }
  success := success
  op := none
  failReason := if success then none else some "Not enough balance to cover fees"
  blockIndex := if success then some 0 else none
  batchId := none

/-- The first pending block. -/
def samplePending (successOperations : List ExecutedOperations) (failedTxs : List ExecutedTx) :
    SendablePendingBlock where
  number := 1
  chunksLeft := 6
  unprocessedPriorityOpBefore := 0
  pendingBlockIteration := 0
  successOperations := successOperations
  failedTxs := failedTxs

/-- A transaction fails; then it succeeds, and another one fails. -/
def pendingReadings : List SendablePendingBlock :=
  [samplePending [] [sampleExecuted 0 false],
    samplePending [.Tx (sampleExecuted 0 true)] [sampleExecuted 1 false]]

/-- A round in which a pending block is read. -/
def pendingPoll (p : SendablePendingBlock) : PollReplies where
  lastVerifiedBlock := .ok 0
  lastCommittedBlock := .ok 0
  loadOperation := fun a n => .ok (emptyOperation a n)
  pendingBlock := .ok (some p)

theorem fetchStep_pendingPoll {db : ServerDb} {f f' : EventFetcher} {p : SendablePendingBlock}
    {readAhead : List SendablePendingBlock} (hverified : db.verified = 0)
    (hcommitted : db.committed = 0) (hsave : DbStep id db { db with pendingBlock := some p })
    (hpoll : f.poll (pendingPoll p) = .ok f') (hlast : f'.lastCommittedBlock < p.number) :
    FetchStep (id : ZkSyncTx → ZkSyncTx) emptyLog ⟨db, f, readAhead⟩ (pendingPoll p)
      ⟨{ db with pendingBlock := some p }, f', readAhead ++ [p]⟩ := by
  refine ⟨⟨db, db, .refl, .refl, .single hsave, ?_, ?_⟩, ?_, ?_, hpoll, ?_⟩
  · rintro n ⟨⟩
    exact hverified.symm
  · rintro n ⟨⟩
    exact hcommitted.symm
  · rintro q ⟨⟩
    rfl
  · rintro a n op ⟨⟩
    rfl
  · unfold PollReplies.readAhead pendingPoll
    dsimp only
    rw [if_pos hlast]

/-- The same transaction stays in its place when the pending block grows. -/
def grownReadings : List SendablePendingBlock :=
  [samplePending [] [sampleExecuted 0 false],
    samplePending [.Tx (sampleExecuted 1 true)] [sampleExecuted 0 false, sampleExecuted 2 false]]

/-- A round in which the pending block has become block 1. -/
theorem fetchStep_commitPoll {db : ServerDb} {f f' : EventFetcher}
    {readAhead : List SendablePendingBlock} (hverified : db.verified = 0) (hcommitted : db.committed = 0)
    (hpoll : f.poll (samplePoll fun a n => .ok (emptyOperation a n)) = .ok f') :
    FetchStep (id : ZkSyncTx → ZkSyncTx) emptyLog ⟨db, f, readAhead⟩
      (samplePoll fun a n => .ok (emptyOperation a n))
      ⟨{ db with committed := 1, pendingBlock := none }, f', readAhead⟩ := by
  refine ⟨⟨db, _, .refl, .single (.commitBlock (n := 1) (by rw [hcommitted]; rfl)), .refl, ?_, ?_⟩, ?_,
    ?_, hpoll, (List.append_nil _).symm⟩
  · rintro n ⟨⟩
    exact hverified.symm
  · rintro n ⟨⟩
    rfl
  · rintro p ⟨⟩
    rfl
  · rintro a n op ⟨⟩
    rfl

/-- The pending block is read twice, with a transaction that failed and stays where it is; then
block 1 is committed. -/
theorem events_delivered_grown : ∃ σ,
    Run (fun σ r σ' => Undisturbed σ r ∧ FetchStep (id : ZkSyncTx → ZkSyncTx) emptyLog σ r σ')
      (sampleFetching 0 [])
      (grownReadings.map pendingPoll ++ [samplePoll fun a n => .ok (emptyOperation a n)]) σ ∧
    σ.readAhead = grownReadings ∧ Delivered emptyLog (sampleFetching 0 []) σ ∧
    (σ.fetcher.operationsSent.filter fun op => op.action.getType = .COMMIT) =
      [emptyOperation .COMMIT 1] := by
  obtain ⟨σ, hrun, hread, hlast⟩ : ∃ σ,
      Run (fun σ r σ' => Undisturbed σ r ∧ FetchStep (id : ZkSyncTx → ZkSyncTx) emptyLog σ r σ')
        (sampleFetching 0 [])
        (grownReadings.map pendingPoll ++ [samplePoll fun a n => .ok (emptyOperation a n)]) σ ∧
      σ.readAhead = grownReadings ∧ σ.fetcher.lastBlock .COMMIT = 1 := by
    refine ⟨_, .cons ⟨⟨?_, ?_, ?_⟩, fetchStep_pendingPoll rfl rfl (.savePendingBlock rfl ?_ ?_) rfl
        (by decide)⟩
      (.cons ⟨⟨?_, ?_, ?_⟩, fetchStep_pendingPoll rfl rfl (.savePendingBlock rfl ?_ ?_) rfl
        (by decide)⟩
      (.single ⟨⟨?_, ?_, ?_⟩, fetchStep_commitPoll rfl rfl rfl⟩)), rfl, rfl⟩
    · exact fun _ _ n _ => ⟨emptyOperation .VERIFY n, rfl⟩
    · exact fun _ _ _ _ n _ => ⟨emptyOperation .COMMIT n, rfl⟩
    · exact fun _ _ _ _ _ _ hp => (by cases hp)
    · exact ⟨by decide, fun _ h => (by cases h), by decide⟩
    · exact fun _ h => (by cases h)
    · exact fun _ _ n _ => ⟨emptyOperation .VERIFY n, rfl⟩
    · exact fun _ _ _ _ n _ => ⟨emptyOperation .COMMIT n, rfl⟩
    · rintro _ _ _ _ - - ⟨⟩ ⟨⟩ - tx htx
      exact htx
    · exact ⟨by decide, by decide, by decide⟩
    · rintro _ ⟨⟩
      refine ⟨rfl, List.nil_prefix, fun tx htx => Or.inl ?_⟩
      rw [List.mem_singleton.mp htx]
      exact List.mem_cons_self
    · exact fun _ _ n _ => ⟨emptyOperation .VERIFY n, rfl⟩
    · exact fun _ _ _ _ n _ => ⟨emptyOperation .COMMIT n, rfl⟩
    · rintro _ _ _ _ - - - ⟨⟩
  have hdelivered := (events_delivered (starts_sampleFetching id) hrun).1
  refine ⟨σ, hrun, hread, hdelivered, ?_⟩
  have hsent := hdelivered.operations .COMMIT
  rw [hlast] at hsent
  exact hsent

/-- A commit that could not be loaded is never sent. And the second failed transaction is
never announced: it is where the first one was. -/
theorem event_lost :
    (∃ σ, (sampleFetching 0 []).Starts (id : ZkSyncTx → ZkSyncTx) ⟨0, 0, none⟩ ∧
      Run (FetchStep (id : ZkSyncTx → ZkSyncTx) emptyLog) (sampleFetching 0 [])
        [samplePoll fun _ _ => .error (.error "connection closed")] σ ∧
      ¬ Delivered emptyLog (sampleFetching 0 []) σ) ∧
    ∃ σ, Run (FetchStep (id : ZkSyncTx → ZkSyncTx) emptyLog) (sampleFetching 0 [])
        (pendingReadings.map pendingPoll) σ ∧
      ¬ Delivered emptyLog (sampleFetching 0 []) σ := by
  constructor
  · refine ⟨sampleFetching 1 [], starts_sampleFetching id,
      .single (fetchStep_samplePoll id (fun _ _ _ h => (by cases h)) rfl), fun hd => ?_⟩
    have hsent := hd.operations .COMMIT
    cases hsent
  · refine ⟨_, .cons (fetchStep_pendingPoll rfl rfl (.savePendingBlock rfl ?_ ?_) rfl (by decide))
      (.single (fetchStep_pendingPoll rfl rfl (.savePendingBlock rfl ?_ ?_) rfl (by decide))),
      fun hd => ?_⟩
    · exact ⟨by decide, fun _ h => (by cases h), by decide⟩
    · exact fun _ h => (by cases h)
    · exact ⟨by decide, by decide, by decide⟩
    · rintro _ ⟨⟩
      refine ⟨rfl, List.nil_prefix, fun tx htx => Or.inr ?_⟩
      rw [List.mem_singleton.mp htx]
      exact List.mem_singleton_self _
    · have hall := hd.all _ (List.mem_append_right _ (List.mem_singleton_self _))
        (1, .Tx (sampleExecuted 1 false))
        (mem_numbered.mpr ⟨rfl, List.mem_append_right _ (List.mem_singleton_self _)⟩)
      exact absurd hall (by decide +kernel)

end ZkSync
