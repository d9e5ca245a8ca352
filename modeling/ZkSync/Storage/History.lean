import ZkSync.Storage.StateInitParams
import ZkSync.Storage.StoredLog

/-!
# Restarting from the database

The history of a server as its database sees it: the genesis block, then slices
of the pending block, sealed blocks, verified blocks and restarts, in any order
(`HistoryStep`). `History` remembers what was saved; `Saved` is the invariant
between it and the database, which holds as long as the requests go on from each
other (`GoesOnFrom`). From it:

* the committed state is the state after the last block (`loadCommittedState_eq`);
* from any block to any later one the difference reaches that block
  (`loadStateDiff_eq`);
* a restart succeeds, at the last block (`loadAccountTree_eq`).

All three need that every block updates some account. `load_state_diff` takes
for the block it reaches the greatest block number among the updates that it
found, so a block without updates is not seen: a server that restarts after a
refused full exit was sealed on its own would seal that block number again.
`restart_resumes_iff` says that this is all that can go wrong.
-/

namespace ZkSync

open NumberedLog

/-! ## Histories -/

/-- What was saved: the updates of the genesis block, of each sealed block and of
the pending block, and how many blocks are verified. -/
structure History where
  genesis : AccountUpdates
  blocks : List AccountUpdates
  pending : AccountUpdates
  verified : Nat

namespace History

/-- The history of a server with a genesis block. -/
def start (feeAccountAddress : Address) : History where
  genesis := [(0, .Create feeAccountAddress 0)]
  blocks := []
  pending := []
  verified := 0

/-- The number of the last sealed block. -/
def lastBlock (h : History) : Nat := h.blocks.length

/-- The accounts after block `n`. -/
def accountsAt (h : History) (n : Nat) : AccountMap :=
  applyUpdates ∅ (h.genesis ++ (h.blocks.take n).flatten)

/-- The updates of all blocks, from the genesis block to the pending one. -/
def segments (h : History) : List AccountUpdates := h.genesis :: (h.blocks ++ [h.pending])

end History

/-- What the committer and the state keeper do with the database. -/
inductive StorageCall where
  | savePendingBlock (pendingBlock : SendablePendingBlock) (updates : AppliedUpdatesRequest)
  | commitBlock (request : BlockCommitRequest) (updates : AppliedUpdatesRequest)
  | verifyNextBlock
  | loadAccountTree

/-- A call that succeeds, whatever its requests say. -/
inductive HistoryStep (H : Hasher Fr) (it : HashIteration) :
    Db × History → StorageCall → Db × History → Prop
  | savePendingBlock {db db' : Db} {h : History} {pendingBlock : SendablePendingBlock}
      {updates : AppliedUpdatesRequest} :
      db.savePendingBlock pendingBlock updates = some db' →
      HistoryStep H it (db, h) (.savePendingBlock pendingBlock updates)
        (db', { h with pending := h.pending ++ updates.accountUpdates })
  | commitBlock {db db' : Db} {h : History} {request : BlockCommitRequest}
      {updates : AppliedUpdatesRequest} :
      db.commitBlock request updates = some db' →
      HistoryStep H it (db, h) (.commitBlock request updates)
        (db', { h with blocks := h.blocks ++ [request.accountsUpdated], pending := [] })
  | verifyNextBlock {db db' : Db} {h : History} : db.verifyNextBlock = some db' →
      HistoryStep H it (db, h) .verifyNextBlock (db', { h with verified := h.verified + 1 })
  | loadAccountTree {db db' : Db} {h : History} {number : BlockNumber}
      {p : ZkSyncStateInitParams} :
      ZkSyncStateInitParams.loadAccountTree H it db (.new H) = .ok (number, db', p) →
      HistoryStep H it (db, h) .loadAccountTree (db', h)

/-- The requests of a call go on from what was saved: the slices of a block follow each
other, its number follows that of the last one, and its root hash is that of the accounts
after it. The database checks none of this. -/
def GoesOnFrom (H : Hasher Fr) (h : History) : StorageCall → Prop
  | .savePendingBlock pendingBlock updates =>
    pendingBlock.number.toNat = h.lastBlock + 1 ∧ updates.firstUpdateOrderId = h.pending.length
  | .commitBlock request updates =>
    request.block.blockNumber.toNat = h.lastBlock + 1 ∧
      updates.firstUpdateOrderId = h.pending.length ∧
      request.accountsUpdated = h.pending ++ updates.accountUpdates ∧
      Ledger.root H (fun id => (applyUpdates (h.accountsAt h.lastBlock)
        request.accountsUpdated).lookup id) = .ok request.block.newRootHash
  | _ => True

/-- A restart resumes at the last sealed block. The block that a difference
reaches is read as the callers read it: without updates, it is the block that it
starts from. -/
structure Resumes (H : Hasher Fr) (it : HashIteration) (db : Db) (h : History) : Prop where
  committed : db.loadCommittedState none =
    (UInt32.ofNat h.lastBlock, h.accountsAt h.lastBlock)
  reached : ∀ a b : BlockNumber, a ≤ b → b.toNat ≤ h.lastBlock →
    ((db.loadStateDiff a (some b)).map Prod.fst).getD a = b
  restarted : ∃ number db' p,
    ZkSyncStateInitParams.loadAccountTree H it db (.new H) = .ok (number, db', p) ∧
    number = UInt32.ofNat h.lastBlock ∧ db.blocks.find (number + 1).toNat = none

/-! ## What the database keeps -/

/-- The database holds the history. -/
structure Saved (H : Hasher Fr) (db : Db) (h : History) : Prop where
  updates : db.entries.Perm (numbered 0 h.segments)
  accounts : db.storedAccounts = h.accountsAt h.verified
  owned : db.Owned
  blocks : ∀ n, (db.blocks.find n).isSome ↔ 0 < n ∧ n ≤ h.lastBlock
  roots : ∀ n, n ≤ h.lastBlock → ∃ hash,
    Ledger.root H (fun id => (h.accountsAt n).lookup id) = .ok hash ∧
    ∀ row, db.blocks.find n = some row → row.rootHash = hash
  lt : h.lastBlock < 2 ^ 32
  verified : h.verified ≤ h.lastBlock
  operations : ∀ n, (∃ op ∈ db.operations, op.actionType = .VERIFY ∧ op.blockNumber = n) ↔
    0 < n ∧ n ≤ h.verified
  cached : ∀ n ∈ db.accountTreeCache.rows, n ≤ h.lastBlock

/-- The part of it that no root hash is needed for. -/
structure Tabled (db : Db) (h : History) : Prop where
  updates : db.entries.Perm (numbered 0 h.segments)
  accounts : db.storedAccounts = h.accountsAt h.verified
  owned : db.Owned
  blocks : ∀ n, (db.blocks.find n).isSome ↔ 0 < n ∧ n ≤ h.lastBlock
  lt : h.lastBlock < 2 ^ 32
  verified : h.verified ≤ h.lastBlock
  operations : ∀ n, (∃ op ∈ db.operations, op.actionType = .VERIFY ∧ op.blockNumber = n) ↔
    0 < n ∧ n ≤ h.verified

section Histories

variable {H : Hasher Fr} {it : HashIteration} {db db' : Db} {h : History}

namespace History

/-- The accounts after a block are those of all updates up to it. -/
theorem accountsAt_eq (n : Nat) (hn : n ≤ h.lastBlock) :
    h.accountsAt n = applyUpdates ∅ (h.segments.take (n + 1)).flatten := by
  unfold accountsAt segments
  rw [List.take_succ_cons, List.flatten_cons, List.take_append_of_le_length hn]

/-- The accounts of a later block, by the updates in between. -/
theorem accountsAt_split {a b : Nat} (hab : a ≤ b) (hb : b ≤ h.lastBlock) :
    h.accountsAt b = applyUpdates (h.accountsAt a)
      ((h.segments.take (b + 1)).drop (a + 1)).flatten := by
  have htake : h.segments.take (a + 1) = (h.segments.take (b + 1)).take (a + 1) := by
    rw [List.take_take, Nat.min_eq_left (Nat.succ_le_succ hab)]
  rw [accountsAt_eq b hb, accountsAt_eq a (hab.trans hb), ← Db.applyUpdates_append,
    ← List.flatten_append, htake, List.take_append_drop]

/-- The genesis block has updates of its own. -/
theorem length_segments : h.segments.length = h.lastBlock + 2 := by
  unfold segments lastBlock
  rw [List.length_cons, List.length_append, List.length_singleton]

/-- Behind the genesis block the segments are those of the blocks. -/
theorem segments_getD_of_le {n : Nat} (hpos : 0 < n) (hn : n ≤ h.lastBlock) :
    h.segments.getD n [] ∈ h.blocks := by
  obtain ⟨m, rfl⟩ := Nat.exists_eq_succ_of_ne_zero hpos.ne'
  have hm : m < h.blocks.length := hn
  unfold segments
  rw [List.getD_cons_succ, List.getD_append _ _ _ _ hm, List.getD_eq_getElem _ _ hm]
  exact List.getElem_mem hm

/-- A sealed block leaves the accounts of those before. -/
theorem accountsAt_append (us pending : AccountUpdates) {n : Nat} (hn : n ≤ h.lastBlock) :
    ({ h with blocks := h.blocks ++ [us], pending := pending } : History).accountsAt n =
      h.accountsAt n := by
  show applyUpdates ∅ (h.genesis ++ ((h.blocks ++ [us]).take n).flatten) = _
  rw [List.take_append_of_le_length hn]
  rfl

/-- Behind the new block its updates are applied. -/
theorem accountsAt_last (us pending : AccountUpdates) :
    ({ h with blocks := h.blocks ++ [us], pending := pending } : History).accountsAt
        (h.lastBlock + 1) = applyUpdates (h.accountsAt h.lastBlock) us := by
  unfold accountsAt lastBlock
  have htake : (h.blocks ++ [us]).take (h.blocks.length + 1) = h.blocks ++ [us] :=
    List.take_of_length_le (by rw [List.length_append]; exact Nat.le_refl _)
  rw [htake, List.take_length, List.flatten_append, ← Db.applyUpdates_append, List.append_assoc,
    List.flatten_singleton]

end History

/-! ### Numbers read off the database -/

/-- The greatest of the numbers from one to `n`. -/
theorem max?_eq_of_mem_iff {l : List Nat} {n : Nat} (hl : ∀ m, m ∈ l ↔ 0 < m ∧ m ≤ n) :
    l.max?.getD 0 = n := by
  rcases Nat.eq_zero_or_pos n with rfl | hpos
  · have hnil : l = [] := List.eq_nil_iff_forall_not_mem.mpr fun m hm => by
      have := (hl m).mp hm
      omega
    rw [hnil]
    rfl
  · have hmax : l.max? = some n :=
      List.max?_eq_some_iff.mpr ⟨(hl n).mpr ⟨hpos, Nat.le_refl n⟩, fun m hm => ((hl m).mp hm).2⟩
    rw [hmax]
    rfl

/-- What is stored with its hashes is stored. -/
theorem Saved.tabled (hs : Saved H db h) : Tabled db h :=
  ⟨hs.updates, hs.accounts, hs.owned, hs.blocks, hs.lt, hs.verified, hs.operations⟩

/-- The last verified block is read from the operations. -/
theorem Tabled.getLastVerifiedBlock (hs : Tabled db h) :
    db.getLastVerifiedBlock = UInt32.ofNat h.verified := by
  unfold Db.getLastVerifiedBlock Db.getLastBlockByAction
  rw [max?_eq_of_mem_iff fun n => ?_]
  rw [← hs.operations n]
  simp only [List.mem_map, List.mem_filter, decide_eq_true_eq]
  constructor
  · rintro ⟨op, ⟨hmem, haction⟩, rfl⟩
    exact ⟨op, hmem, haction, rfl⟩
  · rintro ⟨op, hmem, haction, rfl⟩
    exact ⟨op, ⟨hmem, haction⟩, rfl⟩

/-- Block numbers do not wrap. -/
theorem Tabled.toNat_lastBlock (hs : Tabled db h) :
    (UInt32.ofNat h.lastBlock).toNat = h.lastBlock :=
  UInt32.toNat_ofNat_of_lt' hs.lt

theorem Tabled.toNat_verified (hs : Tabled db h) :
    (UInt32.ofNat h.verified).toNat = h.verified :=
  UInt32.toNat_ofNat_of_lt' (Nat.lt_of_le_of_lt hs.verified hs.lt)

theorem Saved.getLastVerifiedBlock (hs : Saved H db h) :
    db.getLastVerifiedBlock = UInt32.ofNat h.verified :=
  hs.tabled.getLastVerifiedBlock

theorem Saved.toNat_lastBlock (hs : Saved H db h) :
    (UInt32.ofNat h.lastBlock).toNat = h.lastBlock :=
  hs.tabled.toNat_lastBlock

theorem Saved.toNat_verified (hs : Saved H db h) :
    (UInt32.ofNat h.verified).toNat = h.verified :=
  hs.tabled.toNat_verified

/-- Without an end, the difference goes to the last stored block. -/
theorem Saved.loadStateDiff_none (hs : Saved H db h) (a : BlockNumber) :
    db.loadStateDiff a none = db.loadStateDiff a (some (UInt32.ofNat h.lastBlock)) := by
  have hmax : (((db.blocks.rows.map StorageBlock.number).max?).map UInt32.ofNat).getD 0 =
      UInt32.ofNat h.lastBlock := by
    have hgetD : ∀ o : Option Nat, (o.map UInt32.ofNat).getD 0 = UInt32.ofNat (o.getD 0) := by
      intro o
      cases o <;> rfl
    rw [hgetD, max?_eq_of_mem_iff fun n => ?_]
    rw [← hs.blocks n]
    exact Table.mem_keys
  unfold Db.loadStateDiff
  simp only [hmax]

/-! ### The calls -/

/-- The tables after a slice of updates was saved for the pending block. -/
theorem Tabled.commitStateUpdate (hs : Tabled db h) {number : BlockNumber} {us : AccountUpdates}
    (hcall : db.commitStateUpdate number us h.pending.length = some db')
    (hnumber : number.toNat = h.lastBlock + 1) :
    Tabled db' { h with pending := h.pending ++ us } := by
  obtain ⟨hperm, hframe⟩ := Db.commitStateUpdate_spec hcall
  have hsegments : numbered 0 ({ h with pending := h.pending ++ us } : History).segments =
      numbered 0 h.segments ++ slice number.toNat h.pending.length us := by
    show numbered 0 ((h.genesis :: h.blocks) ++ [h.pending ++ us]) = _
    rw [numbered_grow, hnumber, Nat.zero_add]
    rfl
  refine ⟨?_, ?_, ?_, ?_, hs.lt, hs.verified, ?_⟩
  · rw [hsegments]
    exact hperm.trans (hs.updates.append_right _)
  · have hstored : db'.storedAccounts = db.storedAccounts := by
      unfold Db.storedAccounts
      rw [hframe.accounts, hframe.balances]
    rw [hstored]
    exact hs.accounts
  · exact hs.owned.mono hframe.balances fun id hid => by rw [hframe.accounts]; exact hid
  · rw [hframe.blocks]
    exact hs.blocks
  · rw [hframe.operations]
    exact hs.operations

/-- The invariant after a slice of updates was saved for the pending block. -/
theorem Saved.commitStateUpdate (hs : Saved H db h) {number : BlockNumber} {us : AccountUpdates}
    (hcall : db.commitStateUpdate number us h.pending.length = some db')
    (hnumber : number.toNat = h.lastBlock + 1) :
    Saved H db' { h with pending := h.pending ++ us } := by
  have ht := hs.tabled.commitStateUpdate hcall hnumber
  obtain ⟨-, hframe⟩ := Db.commitStateUpdate_spec hcall
  refine ⟨ht.updates, ht.accounts, ht.owned, ht.blocks, ?_, ht.lt, ht.verified, ht.operations, ?_⟩
  · rw [hframe.blocks]
    exact hs.roots
  · rw [hframe.accountTreeCache]
    exact hs.cached

/-- A sealed block is the last one. -/
theorem History.lastBlock_append (us pending : AccountUpdates) :
    ({ h with blocks := h.blocks ++ [us], pending := pending } : History).lastBlock =
      h.lastBlock + 1 := by
  unfold History.lastBlock
  rw [List.length_append, List.length_singleton]

/-- What sealing a block adds to the tables: its row, and its operation. -/
theorem Db.executeCommit_eq_some {block : Block} (hcall : db.executeCommit block = some db') :
    ∃ blocks, db' = { db with
        blocks := blocks, operations := db.operations ++ [⟨block.blockNumber.toNat, .COMMIT⟩] } ∧
      ∀ n, blocks.find n = if n = block.blockNumber.toNat then
        some ⟨block.blockNumber.toNat, block.newRootHash⟩ else db.blocks.find n := by
  obtain ⟨db₁, hsave, hstore⟩ := Option.bind_eq_some_iff.mp hcall
  obtain ⟨blocks, hinsert, hdb₁⟩ := Option.bind_eq_some_iff.mp hsave
  obtain ⟨hnone, hrows⟩ := Table.insert_eq_some.mp hinsert
  cases hdb₁
  cases hstore
  exact ⟨blocks, rfl, Table.find_of_rows hnone hrows⟩

/-- The tables after the pending block was sealed. -/
theorem Tabled.executeCommit (hs : Tabled db h) {block : Block}
    (hcall : db.executeCommit block = some db')
    (hnumber : block.blockNumber.toNat = h.lastBlock + 1) :
    Tabled db' { h with blocks := h.blocks ++ [h.pending], pending := [] } := by
  obtain ⟨blocks, rfl, hfind⟩ := Db.executeCommit_eq_some hcall
  have hlast := History.lastBlock_append (h := h) h.pending []
  refine ⟨?_, ?_, hs.owned, ?_, ?_, ?_, ?_⟩
  · show db.entries.Perm (numbered 0 (h.genesis :: (h.blocks ++ [h.pending] ++ [[]])))
    rw [← List.cons_append, numbered_append_nil]
    exact hs.updates
  · show db.storedAccounts = _
    rw [hs.accounts]
    exact (History.accountsAt_append _ _ hs.verified).symm
  · intro n
    show (blocks.find n).isSome ↔ _
    rw [hfind, hlast]
    by_cases hn : n = h.lastBlock + 1
    · rw [if_pos (hn.trans hnumber.symm), hn]
      exact ⟨fun _ => ⟨Nat.succ_pos _, Nat.le_refl _⟩, fun _ => rfl⟩
    · rw [if_neg fun heq => hn (heq.trans hnumber), hs.blocks n]
      omega
  · rw [hlast, ← hnumber]
    exact block.blockNumber.toNat_lt
  · rw [hlast]
    exact Nat.le_succ_of_le hs.verified
  · intro n
    rw [← hs.operations n]
    show (∃ op ∈ db.operations ++ [⟨block.blockNumber.toNat, .COMMIT⟩], _) ↔ _
    constructor
    · rintro ⟨op, hmem, haction, hop⟩
      rcases List.mem_append.mp hmem with hmem | hmem
      · exact ⟨op, hmem, haction, hop⟩
      · rw [List.mem_singleton.mp hmem] at haction
        cases haction
    · rintro ⟨op, hmem, haction, hop⟩
      exact ⟨op, List.mem_append_left _ hmem, haction, hop⟩

/-- The invariant after the pending block was sealed. -/
theorem Saved.executeCommit (hs : Saved H db h) {block : Block}
    (hcall : db.executeCommit block = some db') (hnumber : block.blockNumber.toNat = h.lastBlock + 1)
    (hroot : Ledger.root H (fun id => (applyUpdates (h.accountsAt h.lastBlock) h.pending).lookup id) =
      .ok block.newRootHash) :
    Saved H db' { h with blocks := h.blocks ++ [h.pending], pending := [] } := by
  have ht := hs.tabled.executeCommit hcall hnumber
  obtain ⟨blocks, rfl, hfind⟩ := Db.executeCommit_eq_some hcall
  have hlast := History.lastBlock_append (h := h) h.pending []
  refine ⟨ht.updates, ht.accounts, ht.owned, ht.blocks, ?_, ht.lt, ht.verified, ht.operations, ?_⟩
  · intro n hn
    rw [hlast] at hn
    by_cases hlt : n = h.lastBlock + 1
    · refine ⟨block.newRootHash, ?_, fun row hrow => ?_⟩
      · rw [hlt, History.accountsAt_last]
        exact hroot
      · have hrow' : blocks.find n = some row := hrow
        rw [hfind, if_pos (hlt.trans hnumber.symm)] at hrow'
        rw [← Option.some.inj hrow']
    · obtain ⟨hash, hhash, hstored⟩ := hs.roots n (by omega)
      refine ⟨hash, ?_, fun row hrow => hstored row ?_⟩
      · rw [History.accountsAt_append _ _ (by omega)]
        exact hhash
      · have hrow' : blocks.find n = some row := hrow
        rw [hfind, if_neg fun heq => hlt (heq.trans hnumber)] at hrow'
        exact hrow'
  · intro n hn
    rw [hlast]
    exact Nat.le_succ_of_le (hs.cached n hn)

/-- The tables after the next block was verified; the rows of the blocks and the
cached trees stay. -/
theorem Tabled.verifyNextBlock (hs : Tabled db h) (hcall : db.verifyNextBlock = some db') :
    Tabled db' { h with verified := h.verified + 1 } ∧ db'.blocks = db.blocks ∧
      db'.accountTreeCache = db.accountTreeCache := by
  obtain ⟨row, hload, hverify⟩ := Option.bind_eq_some_iff.mp hcall
  obtain ⟨db₁, happly, hstore⟩ := Option.bind_eq_some_iff.mp hverify
  cases hstore
  rw [hs.getLastVerifiedBlock] at hload happly ⊢
  -- there is a block to verify, so the number does not overflow
  have hle : h.verified + 1 ≤ h.lastBlock := by
    unfold Db.loadCommittedBlock at hload
    split at hload
    next =>
      have hsome := (hs.blocks _).mp (Option.isSome_iff_exists.mpr ⟨row, hload⟩)
      rw [UInt32.toNat_add, hs.toNat_verified] at hsome
      have := hs.verified
      have := hs.lt
      have hone : (1 : UInt32).toNat = 1 := rfl
      omega
    next => cases hload
  have hnumber : (UInt32.ofNat h.verified + 1).toNat = h.verified + 1 := by
    have := hs.lt
    have hone : (1 : UInt32).toNat = 1 := rfl
    rw [UInt32.toNat_add, hs.toNat_verified]
    omega
  obtain ⟨hstored, howned, hframe⟩ := Db.applyStateUpdate_spec happly hs.owned hs.updates
  rw [hnumber] at hstored
  refine ⟨⟨?_, ?_, howned, ?_, hs.lt, hle, ?_⟩, hframe.blocks, hframe.accountTreeCache⟩
  · exact (congrArg (List.Perm · _) hframe.entries).mpr hs.updates
  · show db₁.storedAccounts = h.accountsAt (h.verified + 1)
    rw [hstored, hs.accounts, History.accountsAt_split (Nat.le_succ h.verified) hle]
    have hmid : (h.segments.take (h.verified + 1 + 1)).drop (h.verified + 1) =
        [h.segments.getD (h.verified + 1) []] := by
      have hlt : h.verified + 1 < h.segments.length := by
        rw [History.length_segments]
        omega
      rw [List.getD_eq_getElem _ _ hlt, List.take_succ_eq_append_getElem hlt,
        List.drop_append_of_le_length (by rw [List.length_take]; omega),
        List.drop_of_length_le (by rw [List.length_take]; omega), List.nil_append]
    rw [hmid, List.flatten_singleton]
  · show ∀ n, (db₁.blocks.find n).isSome ↔ _
    rw [hframe.blocks]
    exact hs.blocks
  · intro n
    show (∃ op ∈ db₁.operations ++ [⟨(UInt32.ofNat h.verified + 1).toNat, .VERIFY⟩],
      op.actionType = .VERIFY ∧ op.blockNumber = n) ↔ 0 < n ∧ n ≤ h.verified + 1
    rw [hframe.operations, hnumber]
    constructor
    · rintro ⟨op, hmem, haction, rfl⟩
      rcases List.mem_append.mp hmem with hmem | hmem
      · have := (hs.operations _).mp ⟨op, hmem, haction, rfl⟩
        omega
      · rw [List.mem_singleton.mp hmem]
        exact ⟨Nat.succ_pos _, Nat.le_refl _⟩
    · rintro ⟨hpos, hn⟩
      by_cases heq : n = h.verified + 1
      · exact ⟨_, List.mem_append_right _ (List.mem_singleton_self _), rfl, heq.symm⟩
      · obtain ⟨op, hmem, haction, hop⟩ := (hs.operations n).mpr ⟨hpos, by omega⟩
        exact ⟨op, List.mem_append_left _ hmem, haction, hop⟩

/-- The invariant after the next block was verified. -/
theorem Saved.verifyNextBlock (hs : Saved H db h) (hcall : db.verifyNextBlock = some db') :
    Saved H db' { h with verified := h.verified + 1 } := by
  obtain ⟨ht, hblocks, hcache⟩ := hs.tabled.verifyNextBlock hcall
  refine ⟨ht.updates, ht.accounts, ht.owned, ht.blocks, ?_, ht.lt, ht.verified, ht.operations, ?_⟩
  · rw [hblocks]
    exact hs.roots
  · rw [hcache]
    exact hs.cached

/-- Backwards, a difference reaches the block that it was asked for. -/
theorem loadStateDiff_backward {a b number : BlockNumber} {us : AccountUpdates} (hab : ¬ a ≤ b)
    (hdiff : db.loadStateDiff a (some b) = some (number, us)) : number = b := by
  have hmin : min a b = b := if_neg hab
  unfold Db.loadStateDiff at hdiff
  simp only [hab, hmin, decide_false, Bool.false_eq_true, if_false] at hdiff
  obtain ⟨-, hdiff⟩ := Option.ite_none_right_eq_some.mp hdiff
  exact (Prod.mk.inj (Option.some.inj hdiff)).1.symm

/-- A difference never reaches behind the blocks it was asked for. -/
theorem Saved.loadStateDiff_le (hs : Saved H db h) {a b number : BlockNumber} {us : AccountUpdates}
    (hb : b.toNat ≤ h.lastBlock)
    (hdiff : db.loadStateDiff a (some b) = some (number, us)) : number.toNat ≤ h.lastBlock := by
  by_cases hab : a ≤ b
  · rw [Db.loadStateDiff_forward hs.updates hab] at hdiff
    obtain ⟨-, hdiff⟩ := Option.ite_none_right_eq_some.mp hdiff
    obtain ⟨hnumber, -⟩ := Prod.mk.inj (Option.some.inj hdiff)
    rw [← hnumber]
    -- the greatest number of an entry of these blocks
    generalize hmax : ((numbered (a.toNat + 1) ((h.segments.take (b.toNat + 1)).drop
      (a.toNat + 1))).map Entry.segment).max? = o
    cases o with
    | none => exact Nat.zero_le _
    | some m =>
      obtain ⟨e, he, rfl⟩ := List.mem_map.mp (List.max?_mem hmax)
      have hlt := (segment_of_mem he).2
      have hle := UInt32.le_iff_toNat_le.mp hab
      rw [List.length_drop, List.length_take] at hlt
      have he' : e.segment ≤ h.lastBlock := by omega
      rw [Option.getD_some, UInt32.toNat_ofNat_of_lt' (Nat.lt_of_le_of_lt he' hs.lt)]
      exact he'
  · rw [loadStateDiff_backward hab hdiff]
    exact hb

/-- No state beyond the last block is loaded. -/
theorem Saved.loadCommittedState_le (hs : Saved H db h) {b : BlockNumber}
    (hb : b.toNat ≤ h.lastBlock) : (db.loadCommittedState (some b)).1.toNat ≤ h.lastBlock := by
  unfold Db.loadCommittedState Db.loadVerifiedState
  have hv : db.getLastVerifiedBlock.toNat ≤ h.lastBlock := by
    rw [hs.getLastVerifiedBlock, hs.toNat_verified]
    exact hs.verified
  dsimp only
  split
  next number us hdiff => exact hs.loadStateDiff_le hb hdiff
  next => exact hv

/-- The block whose tree is cached is a block of the history. -/
theorem Saved.getAccountTreeCache_le (hs : Saved H db h) {block : BlockNumber}
    (hcache : db.getAccountTreeCache = some block) : block.toNat ∈ db.accountTreeCache.rows ∧
      block.toNat ≤ h.lastBlock := by
  obtain ⟨n, hn, rfl⟩ := Option.map_eq_some_iff.mp hcache
  have hmem := List.max?_mem hn
  have hle := hs.cached n hmem
  rw [UInt32.toNat_ofNat_of_lt' (Nat.lt_of_le_of_lt hle hs.lt)]
  exact ⟨hmem, hle⟩

/-- Nor is one that was cached. -/
theorem Saved.loadCachedState_le (hs : Saved H db h) :
    (ZkSyncStateInitParams.loadCachedState db).1.toNat ≤ h.lastBlock := by
  unfold ZkSyncStateInitParams.loadCachedState
  split
  next block hcache => exact hs.loadCommittedState_le (hs.getAccountTreeCache_le hcache).2
  next =>
    show db.getLastVerifiedBlock.toNat ≤ _
    rw [hs.getLastVerifiedBlock, hs.toNat_verified]
    exact hs.verified

/-- A restart adds at most a tree to the cache. -/
theorem ensureTreeCache_eq_ok {block : BlockNumber} {p p' : ZkSyncStateInitParams}
    (hcall : ZkSyncStateInitParams.ensureTreeCache H db block p = .ok (db', p')) :
    ∃ cache, db' = { db with accountTreeCache := cache } ∧
      ∀ n ∈ cache.rows, n ∈ db.accountTreeCache.rows ∨ n = block.toNat := by
  unfold ZkSyncStateInitParams.ensureTreeCache at hcall
  split at hcall
  next =>
    cases hcall
    exact ⟨db.accountTreeCache, rfl, fun n hn => Or.inl hn⟩
  next =>
    simp only [Outcome.bind_eq_ok] at hcall
    obtain ⟨⟨hash, tree⟩, -, db₁, hstore, hcall⟩ := hcall
    cases hcall
    unfold Db.storeAccountTreeCache at hstore
    split at hstore
    next =>
      cases hstore
      exact ⟨db.accountTreeCache, rfl, fun n hn => Or.inl hn⟩
    next =>
      rw [Outcome.bind_eq_ok] at hstore
      obtain ⟨cache, hcache, hstore⟩ := hstore
      cases hstore
      refine ⟨cache, rfl, fun n hn => ?_⟩
      rw [(Table.insert_eq_some.mp (Outcome.okOrElse_eq_ok.mp hcache)).2] at hn
      exact (List.mem_append.mp hn).imp_right List.mem_singleton.mp

/-- A cache of a stored block may be added. -/
theorem Saved.withCache (hs : Saved H db h) {cache : Table Nat fun row => row}
    (hcache : ∀ n ∈ cache.rows, n ≤ h.lastBlock) :
    Saved H { db with accountTreeCache := cache } h :=
  ⟨hs.updates, hs.accounts, hs.owned, hs.blocks, hs.roots, hs.lt, hs.verified, hs.operations, hcache⟩

/-- Loading may add the cache that it has missed. -/
theorem Saved.ensureTreeCache (hs : Saved H db h) {p p' : ZkSyncStateInitParams}
    (hcall : ZkSyncStateInitParams.ensureTreeCache H db
      (ZkSyncStateInitParams.loadCachedState db).1 p = .ok (db', p')) : Saved H db' h := by
  obtain ⟨cache, rfl, hcache⟩ := ensureTreeCache_eq_ok hcall
  refine hs.withCache fun n hn => ?_
  rcases hcache n hn with hn | rfl
  · exact hs.cached n hn
  · exact hs.loadCachedState_le

/-- A call whose requests go on from the history keeps the database in step with it. -/
theorem HistoryStep.saved {call : StorageCall} {σ σ' : Db × History}
    (hs : Saved H σ.1 σ.2) (hgoes : GoesOnFrom H σ.2 call) (hstep : HistoryStep H it σ call σ') :
    Saved H σ'.1 σ'.2 := by
  cases hstep with
  | savePendingBlock hcall =>
    obtain ⟨hnumber, hstart⟩ := hgoes
    unfold Db.savePendingBlock at hcall
    rw [hstart] at hcall
    exact hs.commitStateUpdate hcall hnumber
  | commitBlock hcall =>
    obtain ⟨hnumber, hstart, hupdates, hroot⟩ := hgoes
    obtain ⟨db₁, hcommit, hexecute⟩ := Option.bind_eq_some_iff.mp hcall
    rw [hstart] at hcommit
    have hs₁ := hs.commitStateUpdate hcommit hnumber
    dsimp only at hroot ⊢
    rw [hupdates] at hroot ⊢
    exact hs₁.executeCommit hexecute hnumber hroot
  | verifyNextBlock hcall => exact hs.verifyNextBlock hcall
  | loadAccountTree hcall =>
    unfold ZkSyncStateInitParams.loadAccountTree at hcall
    simp only [Outcome.bind_eq_ok] at hcall
    obtain ⟨⟨db₁, p₁⟩, hcache, p₂, -, hcall⟩ := hcall
    cases hcall
    exact hs.ensureTreeCache hcache

/-! ### What is loaded -/

/-- The condition: every block updates some account. -/
def History.NoEmptyBlock (h : History) : Prop := ∀ us ∈ h.blocks, us ≠ []

/-- From a block to a later one. -/
theorem Saved.loadStateDiff_eq (hs : Saved H db h) (hne : h.NoEmptyBlock) {a b : BlockNumber}
    (hab : a < b) (hb : b.toNat ≤ h.lastBlock) :
    db.loadStateDiff a (some b) =
      some (b, ((h.segments.take (b.toNat + 1)).drop (a.toNat + 1)).flatten) := by
  have hlt : a.toNat < b.toNat := UInt32.lt_iff_toNat_lt.mp hab
  have hlen : b.toNat < h.segments.length := by
    rw [History.length_segments]
    omega
  have hlast := hne _ (History.segments_getD_of_le (Nat.zero_lt_of_lt hlt) hb)
  have hmid : (h.segments.take (b.toNat + 1)).drop (a.toNat + 1) =
      (h.segments.take b.toNat).drop (a.toNat + 1) ++ [h.segments.getD b.toNat []] := by
    rw [List.take_succ_eq_append_getElem hlen, List.getD_eq_getElem _ _ hlen,
      List.drop_append_of_le_length (by rw [List.length_take]; omega)]
  rw [Db.loadStateDiff_forward hs.updates (UInt32.le_of_lt hab), hmid, max?_numbered hlast]
  have hcount : a.toNat + 1 + ((h.segments.take b.toNat).drop (a.toNat + 1)).length = b.toNat := by
    rw [List.length_drop, List.length_take]
    omega
  rw [hcount, Option.getD_some, UInt32.ofNat_toNat, if_pos]
  rw [List.flatten_append, List.flatten_singleton]
  exact fun hnil => hlast (List.append_eq_nil_iff.mp hnil).2

/-- From a block to itself there is no difference. -/
theorem Saved.loadStateDiff_self (hs : Saved H db h) (a : BlockNumber) :
    db.loadStateDiff a (some a) = none := by
  have hnil : (h.segments.take (a.toNat + 1)).drop (a.toNat + 1) = [] :=
    List.drop_eq_nil_of_le (by rw [List.length_take]; omega)
  rw [Db.loadStateDiff_forward hs.updates (UInt32.le_refl a), hnil, if_neg]
  exact fun h => h rfl

/-- The committed state is the state after any block from the verified one on. -/
theorem Saved.loadCommittedState_eq (hs : Saved H db h) (hne : h.NoEmptyBlock) {b : BlockNumber}
    (hv : h.verified ≤ b.toNat) (hb : b.toNat ≤ h.lastBlock) :
    db.loadCommittedState (some b) = (b, h.accountsAt b.toNat) := by
  have hverified : db.loadVerifiedState = (UInt32.ofNat h.verified, h.accountsAt h.verified) := by
    unfold Db.loadVerifiedState
    rw [hs.getLastVerifiedBlock, hs.accounts]
  unfold Db.loadCommittedState
  rw [hverified]
  dsimp only
  rcases Nat.eq_or_lt_of_le hv with heq | hlt
  · have hb' : UInt32.ofNat h.verified = b := by rw [heq, UInt32.ofNat_toNat]
    rw [hb', hs.loadStateDiff_self, heq]
  · have hlt' : UInt32.ofNat h.verified < b := by
      rw [UInt32.lt_iff_toNat_lt, hs.toNat_verified]
      exact hlt
    rw [hs.loadStateDiff_eq hne hlt' hb, hs.toNat_verified]
    exact congrArg (Prod.mk b) (History.accountsAt_split hv hb).symm

/-- Without a bound the last block is loaded, if every block left a trace. -/
theorem Saved.loadCommittedState_none (hs : Saved H db h) (hne : h.NoEmptyBlock) :
    db.loadCommittedState none = (UInt32.ofNat h.lastBlock, h.accountsAt h.lastBlock) := by
  have hnone : db.loadCommittedState none =
      db.loadCommittedState (some (UInt32.ofNat h.lastBlock)) := by
    unfold Db.loadCommittedState
    simp only [hs.loadStateDiff_none]
  rw [hnone, hs.loadCommittedState_eq hne]
  · rw [hs.toNat_lastBlock]
  · rw [hs.toNat_lastBlock]
    exact hs.verified
  · rw [hs.toNat_lastBlock]

/-! ### Loading the account tree -/

/-- Updates of other accounts do not matter. -/
theorem lookup_applyUpdates_of_notMem {us : AccountUpdates} {accounts : AccountMap} {id : AccountId}
    (hid : id ∉ us.map Prod.fst) : (applyUpdates accounts us).lookup id = accounts.lookup id := by
  induction us generalizing accounts with
  | nil => rfl
  | cons u us ih =>
    rw [List.map_cons, List.mem_cons, not_or] at hid
    rw [Db.applyUpdates_cons, ih hid.2, Db.lookup_applyUpdates_single, if_neg hid.1]

/-- Reversing updates leaves their accounts. -/
theorem ids_reverseUpdates (us : AccountUpdates) (id : AccountId) :
    id ∈ (reverseUpdates us).map Prod.fst ↔ id ∈ us.map Prod.fst := by
  unfold reverseUpdates
  rw [List.map_map, List.map_reverse, List.mem_reverse]
  rfl

namespace History

/-- The updates of the blocks behind `a` up to `b`. -/
def between (h : History) (a b : Nat) : AccountUpdates :=
  ((h.segments.take (b + 1)).drop (a + 1)).flatten

/-- The updates from one block to another, and those behind it. -/
theorem between_append {a b c : Nat} (hab : a ≤ b) (hbc : b ≤ c) :
    h.between a c = h.between a b ++ h.between b c := by
  have hsplit : (h.segments.take (c + 1)).drop (a + 1) =
      (h.segments.take (b + 1)).drop (a + 1) ++ (h.segments.take (c + 1)).drop (b + 1) := by
    have htake : h.segments.take (b + 1) = (h.segments.take (c + 1)).take (b + 1) := by
      rw [List.take_take, Nat.min_eq_left (Nat.succ_le_succ hbc)]
    rw [htake]
    generalize h.segments.take (c + 1) = l
    rcases Nat.lt_or_ge b l.length with hb | hb
    · have hdrop := congrArg (List.drop (a + 1)) (List.take_append_drop (b + 1) l).symm
      rw [List.drop_append_of_le_length (by rw [List.length_take]; omega)] at hdrop
      exact hdrop
    · have hnil : l.drop (b + 1) = [] := List.drop_eq_nil_of_le (by omega)
      rw [List.take_of_length_le (by omega : l.length ≤ b + 1), hnil, List.append_nil]
  unfold between
  rw [hsplit, List.flatten_append]

/-- Accounts that a range of blocks does not touch. -/
theorem lookup_accountsAt {a b : Nat} (hab : a ≤ b) (hb : b ≤ h.lastBlock) {id : AccountId}
    (hid : id ∉ (h.between a b).map Prod.fst) :
    (h.accountsAt b).lookup id = (h.accountsAt a).lookup id := by
  rw [accountsAt_split hab hb]
  exact lookup_applyUpdates_of_notMem hid

end History

/-- What is loaded first is right for every account that the blocks behind it do
not touch; and a tree that is not cached yet is that of a block. -/
theorem Saved.loadCachedState (hs : Saved H db h) (hne : h.NoEmptyBlock) :
    ∃ (c : BlockNumber) (accounts : AccountMap),
      ZkSyncStateInitParams.loadCachedState db = (c, accounts) ∧ c.toNat ≤ h.lastBlock ∧
      (∀ id, id ∉ (h.between c.toNat h.lastBlock).map Prod.fst →
        accounts.lookup id = (h.accountsAt h.lastBlock).lookup id) ∧
      (db.hasAccountTreeCacheBlock c ∨
        db.accountTreeCache.rows = [] ∧ accounts = h.accountsAt c.toNat) := by
  have hstored : db.loadVerifiedState = (UInt32.ofNat h.verified, h.accountsAt h.verified) := by
    unfold Db.loadVerifiedState
    rw [hs.getLastVerifiedBlock, hs.accounts]
  cases hcache : db.getAccountTreeCache with
  | none =>
    -- without a cache the state is loaded from the last verified block on
    refine ⟨UInt32.ofNat h.verified, h.accountsAt h.verified, ?_, ?_, ?_, Or.inr ⟨?_, ?_⟩⟩
    · unfold ZkSyncStateInitParams.loadCachedState
      rw [hcache]
      exact hstored
    · rw [hs.toNat_verified]
      exact hs.verified
    · intro id hid
      rw [hs.toNat_verified] at hid
      exact (History.lookup_accountsAt hs.verified (Nat.le_refl _) hid).symm
    · exact List.max?_eq_none_iff.mp (Option.map_eq_none_iff.mp hcache)
    · rw [hs.toNat_verified]
  | some c =>
    -- with one it is loaded from the block of the cache
    obtain ⟨hmem, hle⟩ := hs.getAccountTreeCache_le hcache
    have hcached : db.hasAccountTreeCacheBlock c = true := by
      unfold Db.hasAccountTreeCacheBlock
      rw [← Table.mem_keys, List.map_id']
      exact hmem
    have hload : ZkSyncStateInitParams.loadCachedState db = db.loadCommittedState (some c) := by
      unfold ZkSyncStateInitParams.loadCachedState
      rw [hcache]
    rcases Nat.lt_or_ge c.toNat h.verified with hlt | hge
    · -- back from the verified block: touched accounts are loaded again later
      have hlt' : c < UInt32.ofNat h.verified := by
        rw [UInt32.lt_iff_toNat_lt, hs.toNat_verified]
        exact hlt
      have hdiff := Db.loadStateDiff_backward hlt'
        (hs.loadStateDiff_eq hne hlt' (by rw [hs.toNat_verified]; exact hs.verified))
      rw [hs.toNat_verified] at hdiff
      refine ⟨c, applyUpdates (h.accountsAt h.verified)
        (reverseUpdates (h.between c.toNat h.verified)), ?_, hle, ?_, Or.inl hcached⟩
      · rw [hload]
        unfold Db.loadCommittedState
        rw [hstored]
        dsimp only
        rw [hdiff]
        rfl
      · intro id hid
        rw [History.between_append (Nat.le_of_lt hlt) hs.verified, List.map_append,
          List.mem_append, not_or] at hid
        rw [lookup_applyUpdates_of_notMem fun hmem => hid.1 ((ids_reverseUpdates _ id).mp hmem),
          History.lookup_accountsAt hs.verified (Nat.le_refl _) hid.2]
    · refine ⟨c, h.accountsAt c.toNat, ?_, hle, ?_, Or.inl hcached⟩
      · rw [hload, hs.loadCommittedState_eq hne hge hle]
      · exact fun id hid => (History.lookup_accountsAt hle (Nat.le_refl _) hid).symm

/-- Nothing is cached: the first tree is hashed and stored. -/
theorem ensureTreeCache_ok {c : BlockNumber} {p : ZkSyncStateInitParams} {m : AccountMap} {hash : Fr}
    (hempty : db.accountTreeCache.rows = []) (hok : p.HashOk H)
    (hleaf : ∀ id, p.leaf id = (m.lookup id).getD Account.default)
    (hroot : Ledger.root H (fun id => m.lookup id) = .ok hash) :
    ∃ db' p', ZkSyncStateInitParams.ensureTreeCache H db c p = .ok (db', p') ∧ p'.HashOk H ∧
      ∀ id, p'.leaf id = (m.lookup id).getD Account.default := by
  obtain ⟨tree, htree, hok', hleaf'⟩ := ZkSyncStateInitParams.exists_rootHash hok hleaf hroot
  obtain ⟨db', hstore⟩ : ∃ db', db.storeAccountTreeCache c = .ok db' := by
    unfold Db.storeAccountTreeCache
    split
    next => exact ⟨_, rfl⟩
    next =>
      have hinsert : ∃ cache, db.accountTreeCache.insert c.toNat = some cache := by
        unfold Table.insert
        rw [dif_neg]
        · exact ⟨_, rfl⟩
        · rw [hempty]
          exact List.not_mem_nil
      obtain ⟨cache, hcache⟩ := hinsert
      rw [hcache]
      exact ⟨_, rfl⟩
  unfold ZkSyncStateInitParams.ensureTreeCache
  split
  next => exact ⟨_, _, rfl, hok, hleaf⟩
  next =>
    rw [htree]
    refine ⟨db', { p with tree := tree }, ?_, hok', fun id => (congrFun hleaf' id).trans (hleaf id)⟩
    show (do
      let db ← db.storeAccountTreeCache c
      return (db, ({ p with tree := tree } : ZkSyncStateInitParams))) = _
    rw [hstore]
    rfl

/-- A restart succeeds, at the last block, with the accounts after it. -/
theorem Saved.loadAccountTree_eq (hs : Saved H db h) (hne : h.NoEmptyBlock) :
    ∃ db' p, ZkSyncStateInitParams.loadAccountTree H it db (.new H) =
        .ok (UInt32.ofNat h.lastBlock, db', p) ∧
      ∀ id, p.leaf id = ((h.accountsAt h.lastBlock).lookup id).getD Account.default := by
  obtain ⟨c, accounts, hload, hle, hagree, htree⟩ := hs.loadCachedState hne
  obtain ⟨hok, hleaf⟩ := ZkSyncStateInitParams.insertAccounts_new H it accounts
  -- the tree cache
  obtain ⟨db₁, p₁, hcache, hok₁, hleaf₁⟩ : ∃ db₁ p₁,
      ZkSyncStateInitParams.ensureTreeCache H db c ((ZkSyncStateInitParams.new H).insertAccounts it
        accounts) = .ok (db₁, p₁) ∧ p₁.HashOk H ∧
      ∀ id, p₁.leaf id = (accounts.lookup id).getD Account.default := by
    rcases htree with hcached | ⟨hempty, rfl⟩
    · refine ⟨db, _, ?_, hok, hleaf⟩
      unfold ZkSyncStateInitParams.ensureTreeCache
      rw [if_pos hcached]
    · obtain ⟨hash, hroot, -⟩ := hs.roots c.toNat hle
      exact ensureTreeCache_ok hempty hok hleaf hroot
  have hs₁ : Saved H db₁ h := by
    have hcall : ZkSyncStateInitParams.ensureTreeCache H db
        (ZkSyncStateInitParams.loadCachedState db).1
        ((ZkSyncStateInitParams.new H).insertAccounts it accounts) = .ok (db₁, p₁) := by
      rw [hload]
      exact hcache
    exact hs.ensureTreeCache hcall
  -- the accounts behind the cached block
  obtain ⟨p₂, hp₂, hok₂, hleaf₂⟩ : ∃ p₂,
      ZkSyncStateInitParams.catchUp db₁ c (UInt32.ofNat h.lastBlock) (h.accountsAt h.lastBlock)
        p₁ = p₂ ∧ p₂.HashOk H ∧
      ∀ id, p₂.leaf id = ((h.accountsAt h.lastBlock).lookup id).getD Account.default := by
    unfold ZkSyncStateInitParams.catchUp
    by_cases hc : UInt32.ofNat h.lastBlock = c
    · refine ⟨p₁, if_neg (not_not.mpr hc), hok₁, fun id => ?_⟩
      have hnot : id ∉ (h.between c.toNat h.lastBlock).map Prod.fst := by
        have hnil : h.between c.toNat h.lastBlock = [] := by
          unfold History.between
          rw [← hc, hs.toNat_lastBlock, List.drop_eq_nil_of_le (by rw [List.length_take]; omega)]
          rfl
        rw [hnil]
        exact List.not_mem_nil
      rw [hleaf₁, hagree id hnot]
    · have hlt : c < UInt32.ofNat h.lastBlock := by
        rw [UInt32.lt_iff_toNat_lt, hs.toNat_lastBlock]
        refine Nat.lt_of_le_of_ne hle fun heq => hc ?_
        rw [← heq, UInt32.ofNat_toNat]
      have hdiff := hs₁.loadStateDiff_eq hne hlt (by rw [hs.toNat_lastBlock])
      rw [hs.toNat_lastBlock] at hdiff
      obtain ⟨hok₂, hleaf₂⟩ := ZkSyncStateInitParams.updateAccounts_spec hok₁
        (h.accountsAt h.lastBlock) (h.between c.toNat h.lastBlock)
      refine ⟨_, ?_, hok₂, fun id => ?_⟩
      · rw [if_pos hc, hdiff]
        rfl
      · rw [hleaf₂]
        split
        next => rfl
        next hnot => rw [hleaf₁, hagree id hnot]
  -- the root hash
  obtain ⟨p, hcheck, hleaf'⟩ : ∃ p, ZkSyncStateInitParams.checkRootHash H db₁
      (UInt32.ofNat h.lastBlock) p₂ = .ok p ∧
      ∀ id, p.leaf id = ((h.accountsAt h.lastBlock).lookup id).getD Account.default := by
    unfold ZkSyncStateInitParams.checkRootHash
    split
    next hpos =>
      have hsome : (db₁.blocks.find h.lastBlock).isSome := by
        refine (hs₁.blocks _).mpr ⟨Nat.pos_of_ne_zero fun hzero => hpos ?_, Nat.le_refl _⟩
        rw [hzero]
        rfl
      obtain ⟨row, hrow⟩ := Option.isSome_iff_exists.mp hsome
      obtain ⟨hash, hroot, hstored⟩ := hs₁.roots h.lastBlock (Nat.le_refl _)
      obtain ⟨tree, htree', -, hleaf'⟩ := ZkSyncStateInitParams.exists_rootHash hok₂ hleaf₂ hroot
      rw [hs.toNat_lastBlock, hrow, htree']
      refine ⟨{ p₂ with tree := tree }, ?_, fun id => (congrFun hleaf' id).trans (hleaf₂ id)⟩
      show (do
        Outcome.assert (row.rootHash = hash) "restored root_hash is different"
        return ({ p₂ with tree := tree } : ZkSyncStateInitParams)) = _
      rw [hstored row hrow]
      unfold Outcome.assert
      rw [if_pos rfl]
      rfl
    next => exact ⟨p₂, rfl, hleaf₂⟩
  refine ⟨db₁, p, ?_, hleaf'⟩
  unfold ZkSyncStateInitParams.loadAccountTree
  rw [hload]
  dsimp only
  rw [hcache]
  show (do
    let p ← ZkSyncStateInitParams.checkRootHash H db₁ (db₁.loadCommittedState none).1 _
    return ((db₁.loadCommittedState none).1, db₁, p)) = _
  rw [hs₁.loadCommittedState_none hne]
  dsimp only
  rw [hp₂, hcheck]
  rfl

/-! ### The start -/

/-- A single account has a root hash. -/
theorem exists_root_single (H : Hasher Fr) (id : AccountId) (account : Account)
    (hfits : account.Fits) :
    ∃ hash, Ledger.root H (fun id' => if id' = id then some account else none) = .ok hash := by
  have hok := (ZkSyncStateInitParams.hashOk_new H).insertAccount id account
  have hleaf : ∀ id', ((ZkSyncStateInitParams.new H).insertAccount id account).leaf id' =
      (if id' = id then some account else none : Option Account).getD Account.default := by
    intro id'
    rw [ZkSyncStateInitParams.leaf_insertAccount]
    split <;> rfl
  rw [← ZkSyncStateInitParams.root_eq hok hleaf]
  obtain ⟨hash, s', hroot⟩ := exists_rootHash (H := H)
    (s := ((ZkSyncStateInitParams.new H).insertAccount id account).state) hok fun id' a ha => by
      have hget : ((ZkSyncStateInitParams.new H).insertAccount id account).state.getAccount =
          Function.update (ZkSyncStateInitParams.new H).state.getAccount id (some account) :=
        AccountTree.get_insert _ id account
      rw [hget, Function.update_apply] at ha
      split at ha
      next =>
        obtain rfl : account = a := Option.some.inj ha
        exact hfits
      next => cases ha
  unfold ZkSyncState.rootHash at hroot
  obtain ⟨⟨hash', tree⟩, htree, hroot⟩ := Outcome.bind_eq_ok.mp hroot
  refine ⟨hash', ?_⟩
  have htree' : ((ZkSyncStateInitParams.new H).insertAccount id account).tree.rootHash H =
      .ok (hash', tree) := htree
  rw [htree']
  rfl

/-- The database with the genesis block. -/
theorem saved_start (H : Hasher Fr) {feeAccountAddress : Address}
    (hgenesis : Db.empty.createGenesisBlock feeAccountAddress = some db) :
    Saved H db (.start feeAccountAddress) := by
  -- the genesis block is the only one that is stored
  have hcreate : ∃ db₁, Db.empty.commitStateUpdate 0 [(0, .Create feeAccountAddress 0)] 0 =
      some db₁ ∧ db₁.applyStateUpdate 0 = some db := by
    unfold Db.createGenesisBlock at hgenesis
    dsimp only at hgenesis
    obtain ⟨-, -, hgenesis⟩ := Option.bind_eq_some_iff.mp hgenesis
    exact Option.bind_eq_some_iff.mp hgenesis
  obtain ⟨db₁, hcommit, happly⟩ := hcreate
  obtain ⟨hperm, hframe₁⟩ := Db.commitStateUpdate_spec hcommit
  have hlog : db₁.entries.Perm (numbered 0 (History.start feeAccountAddress).segments) := hperm
  have howned : db₁.Owned := by
    intro b hb
    rw [hframe₁.balances] at hb
    cases hb
  obtain ⟨hstored, howned', hframe⟩ := Db.applyStateUpdate_spec happly howned hlog
  have hstored₁ : db₁.storedAccounts = ∅ := by
    unfold Db.storedAccounts
    rw [hframe₁.accounts]
    rfl
  rw [hstored₁] at hstored
  refine ⟨?_, hstored, howned', fun n => ?_, fun n hn => ?_, Nat.two_pow_pos 32, Nat.le_refl _,
    fun n => ?_,
    fun n hn => ?_⟩
  · rw [hframe.entries]
    exact hlog
  · rw [hframe.blocks, hframe₁.blocks]
    refine ⟨fun h => (by cases h), fun h => ?_⟩
    have : n ≤ 0 := h.2
    omega
  · obtain rfl : n = 0 := Nat.le_zero.mp hn
    obtain ⟨hash, hhash⟩ := exists_root_single H 0
      { Account.default with address := feeAccountAddress }
      fun token htoken => absurd htoken Finmap.notMem_empty
    refine ⟨hash, ?_, fun row hrow => ?_⟩
    · rw [← hhash]
      refine congrArg _ (funext fun id => ?_)
      show (applyUpdates ∅ [(0, .Create feeAccountAddress 0)]).lookup id = _
      rw [Db.lookup_applyUpdates_single]
      rfl
    · rw [hframe.blocks, hframe₁.blocks] at hrow
      cases hrow
  · rw [hframe.operations, hframe₁.operations]
    refine ⟨fun ⟨op, hop, _⟩ => (by cases hop), fun h => ?_⟩
    have : n ≤ 0 := h.2
    omega
  · rw [hframe.accountTreeCache, hframe₁.accountTreeCache] at hn
    cases hn

/-! ### Restarts -/

/-- Every history of requests that go on from each other. -/
theorem saved_of_run {feeAccountAddress : Address} {db₀ : Db}
    (hgenesis : Db.empty.createGenesisBlock feeAccountAddress = some db₀)
    {calls : List StorageCall}
    (hrun : Run (fun σ call σ' => GoesOnFrom H σ.2 call ∧ HistoryStep H it σ call σ')
      (db₀, .start feeAccountAddress) calls (db, h)) :
    Saved H db h :=
  Run.invariant (I := fun σ : Db × History => Saved H σ.1 σ.2)
    (fun _ _ _ hs hstep => hstep.2.saved hs hstep.1) hrun (saved_start H hgenesis)

/-- A keeper that starts on the database goes on where the last one stopped. -/
theorem Saved.resumes (hs : Saved H db h) (hne : h.NoEmptyBlock) : Resumes H it db h where
  committed := hs.loadCommittedState_none hne
  reached a b hab hb := by
    by_cases heq : a = b
    · rw [heq, hs.loadStateDiff_self]
      rfl
    · rw [hs.loadStateDiff_eq hne (UInt32.lt_of_le_of_ne hab heq) hb]
      rfl
  restarted := by
    obtain ⟨db', p, hload, -⟩ :
        ∃ db' p, ZkSyncStateInitParams.loadAccountTree H it db (.new H) =
          .ok (UInt32.ofNat h.lastBlock, db', p) ∧ _ := hs.loadAccountTree_eq hne
    refine ⟨_, db', p, hload, rfl, ?_⟩
    cases hfind : db.blocks.find (UInt32.ofNat h.lastBlock + 1).toNat with
    | none => rfl
    | some row =>
      have hsome := (hs.blocks _).mp (Option.isSome_iff_exists.mpr ⟨row, hfind⟩)
      have hone : (1 : UInt32).toNat = 1 := rfl
      rw [UInt32.toNat_add, hs.toNat_lastBlock] at hsome
      have := hs.lt
      omega

/-- In every history of requests that go on from each other a restart resumes at the last
sealed block, if and only if every sealed block updated some account. -/
theorem restart_resumes_iff {feeAccountAddress : Address} {db₀ : Db}
    (hgenesis : Db.empty.createGenesisBlock feeAccountAddress = some db₀)
    {calls : List StorageCall}
    (hrun : Run (fun σ call σ' => GoesOnFrom H σ.2 call ∧ HistoryStep H it σ call σ')
      (db₀, .start feeAccountAddress) calls (db, h)) :
    Resumes H it db h ↔ h.NoEmptyBlock := by
  have hs := saved_of_run hgenesis hrun
  refine ⟨fun hresumes us hus hempty => ?_, hs.resumes⟩
  -- the difference to the empty block from the block before it reaches nothing
  obtain ⟨n, hn, hget⟩ := List.mem_iff_getElem.mp hus
  have hlt : n + 1 < 2 ^ 32 := Nat.lt_of_le_of_lt hn hs.lt
  have hb : (UInt32.ofNat (n + 1)).toNat = n + 1 := UInt32.toNat_ofNat_of_lt' hlt
  have ha : (UInt32.ofNat n).toNat = n := UInt32.toNat_ofNat_of_lt' (Nat.lt_of_succ_lt hlt)
  have hab : UInt32.ofNat n ≤ UInt32.ofNat (n + 1) := by
    rw [UInt32.le_iff_toNat_le, ha, hb]
    exact Nat.le_succ n
  have hreached := hresumes.reached _ _ hab (by rw [hb]; exact hn)
  have hlen : n + 1 < h.segments.length := by
    rw [History.length_segments]
    have : n < h.lastBlock := hn
    omega
  have hmid : (h.segments.take (n + 1 + 1)).drop (n + 1) = [[]] := by
    have hseg : h.segments[n + 1] = [] := by
      rw [List.getElem_eq_iff]
      unfold History.segments
      rw [List.getElem?_cons_succ, List.getElem?_append_left hn, List.getElem?_eq_getElem hn, hget,
        hempty]
    rw [List.take_succ_eq_append_getElem hlen,
      List.drop_append_of_le_length (by rw [List.length_take]; omega),
      List.drop_eq_nil_of_le (by rw [List.length_take]; omega), hseg]
    rfl
  rw [Db.loadStateDiff_forward hs.updates hab, ha, hb, hmid, if_neg fun h => h rfl] at hreached
  have hnum := congrArg UInt32.toNat hreached
  rw [Option.map_none, Option.getD_none, ha, hb] at hnum
  omega

end Histories

/-! ### A block with a deposit, and a block with a refused exit -/

section Samples

variable {H : Hasher Fr} {it : HashIteration}

/-- An empty database takes a genesis block. -/
theorem exists_genesis (feeAccountAddress : Address) :
    ∃ db₀, Db.empty.createGenesisBlock feeAccountAddress = some db₀ ∧
      db₀.accountTreeCache.rows = [] := by
  have hdiff : Db.empty.loadStateDiff 0 none = none := by
    have hnil : ∀ p, Db.empty.accountDiff p = [] := fun p => rfl
    unfold Db.loadStateDiff Db.sortByOrder
    simp [hnil]
  have hload : Db.empty.loadCommittedState none = (0, ∅) :=
    Db.loadCommittedState_of_none (by exact rfl) hdiff
  let row : StorageAccountCreation :=
    { accountId := 0, isCreate := true, blockNumber := 0, address := feeAccountAddress, nonce := 0,
      updateOrderId := 0 }
  let db₁ : Db := { Db.empty with accountCreates := ⟨[row], List.nodup_singleton _⟩ }
  have hcommit : Db.empty.commitStateUpdate 0 [(0, .Create feeAccountAddress 0)] 0 = some db₁ := rfl
  have happly : ∃ db₀, db₁.applyStateUpdate 0 = some db₀ ∧ db₀.accountTreeCache.rows = [] := by
    have hsort : Db.sortByOrder (db₁.accountDiff fun number => number = (0 : UInt32).toNat) =
        [.Create row] := List.mergeSort_singleton _
    unfold Db.applyStateUpdate
    rw [hsort]
    exact ⟨_, rfl, rfl⟩
  obtain ⟨db₀, hdb₀, hcache⟩ := happly
  refine ⟨db₀, ?_, hcache⟩
  unfold Db.createGenesisBlock
  rw [hload]
  show (do
    let db ← Db.empty.commitStateUpdate 0 [(0, .Create feeAccountAddress 0)] 0
    db.applyStateUpdate 0) = some db₀
  rw [hcommit]
  exact hdb₀

/-- The block after the genesis block, with one operation. -/
def firstBlock (op : ExecutedOperations) (newRootHash : Fr) (accountsUpdated : AccountUpdates) :
    BlockCommitRequest where
  block :=
    { blockNumber := 1, newRootHash := newRootHash, feeAccount := 0, blockTransactions := [op],
      processedPriorityOps := (0, 1), blockChunksSize := 6, commitGasLimit := 0,
      verifyGasLimit := 0 }
  accountsUpdated := accountsUpdated

/-- The hasher of the samples. -/
abbrev sampleHasher : Hasher Fr := (Env.signedBy 1).hasher

/-- A deposit to the fee account. -/
def firstDeposit : ExecutedOperations :=
  .PriorityOp ⟨⟨0, .Deposit ⟨7, 0, 5, 1⟩, 0, [], 0⟩, .Deposit ⟨⟨7, 0, 5, 1⟩, 0⟩, 0⟩

/-- A full exit of an account that another address owns: nothing is withdrawn. -/
def refusedExit : ExecutedOperations :=
  .PriorityOp ⟨⟨0, .FullExit ⟨0, 7, 0⟩, 0, [], 0⟩, .FullExit ⟨⟨0, 7, 0⟩, none⟩, 0⟩

/-- The next block can be committed, whatever slice of updates comes with it. -/
theorem exists_commitBlock {db : Db} {h : History} (ht : Tabled db h)
    (request : BlockCommitRequest) (us : AccountUpdates)
    (hnumber : request.block.blockNumber.toNat = h.lastBlock + 1)
    (hupdates : ∃ db₁, db.commitStateUpdate request.block.blockNumber us h.pending.length = some db₁) :
    ∃ db', db.commitBlock request ⟨us, h.pending.length⟩ = some db' ∧
      db'.accountTreeCache = db.accountTreeCache := by
  obtain ⟨db₁, hdb₁⟩ := hupdates
  have ht₁ := ht.commitStateUpdate hdb₁ hnumber
  have hnone : db₁.blocks.find request.block.blockNumber.toNat = none := by
    cases hfind : db₁.blocks.find request.block.blockNumber.toNat with
    | none => rfl
    | some row =>
      have hle := ((ht₁.blocks _).mp (Option.isSome_iff_exists.mpr ⟨row, hfind⟩)).2
      rw [hnumber] at hle
      exact absurd hle (Nat.not_succ_le_self _)
  obtain ⟨blocks, hblocks⟩ : ∃ blocks, db₁.blocks.insert
      { number := request.block.blockNumber.toNat, rootHash := request.block.newRootHash } =
        some blocks := by
    unfold Table.insert
    rw [dif_neg]
    · exact ⟨_, rfl⟩
    · rw [Table.mem_keys, hnone]
      exact Bool.false_ne_true
  refine ⟨{ db₁ with
    blocks := blocks
    operations := db₁.operations ++ [⟨request.block.blockNumber.toNat, .COMMIT⟩] }, ?_,
    (Db.commitStateUpdate_spec hdb₁).2.accountTreeCache⟩
  unfold Db.commitBlock
  rw [hdb₁]
  show db₁.executeCommit request.block = _
  unfold Db.executeCommit Db.saveBlock
  rw [hblocks]
  rfl

/-- The first block can be committed, whatever single slice of updates it has. -/
theorem exists_firstBlock (it : HashIteration) {db₀ : Db} (hs : Saved H db₀ (.start 1))
    (op : ExecutedOperations) (us : AccountUpdates) {hash : Fr}
    (hroot : Ledger.root H (fun id => (applyUpdates ((History.start 1).accountsAt 0) us).lookup id) =
      .ok hash)
    (hupdates : ∃ db₁, db₀.commitStateUpdate 1 us 0 = some db₁) :
    ∃ db, Run (fun σ call σ' => GoesOnFrom H σ.2 call ∧ HistoryStep H it σ call σ') (db₀, .start 1)
      [.commitBlock (firstBlock op hash us) ⟨us, 0⟩] (db, { History.start 1 with blocks := [us] }) ∧
      db.accountTreeCache = db₀.accountTreeCache := by
  obtain ⟨db, hcommit, hcache⟩ :=
    exists_commitBlock hs.tabled (firstBlock op hash us) us rfl hupdates
  exact ⟨db, Run.single ⟨⟨rfl, rfl, rfl, hroot⟩, .commitBlock hcommit⟩, hcache⟩

/-- The genesis block and a deposit. -/
theorem restart_resumes_iff_deposit : ∃ it db₀ db h calls,
    Db.empty.createGenesisBlock 1 = some db₀ ∧
    Run (fun σ call σ' => GoesOnFrom sampleHasher σ.2 call ∧ HistoryStep sampleHasher it σ call σ')
      (db₀, .start 1) calls (db, h) ∧ h.lastBlock = 1 ∧
    h.NoEmptyBlock ∧ (Resumes sampleHasher it db h ↔ h.NoEmptyBlock) := by
  obtain ⟨it⟩ := HashIteration.exists
  obtain ⟨db₀, hgenesis, -⟩ := exists_genesis 1
  have hs := saved_start sampleHasher hgenesis
  let us : AccountUpdates := [(0, .UpdateBalance 0 0 (0, 0, 5))]
  obtain ⟨hash, hhash⟩ := exists_root_single sampleHasher 0
    ((Account.defaultWithAddress 1).setBalance 0 5) (by
      intro token htoken
      rcases Finmap.mem_insert.mp htoken with rfl | hempty
      · decide
      · exact absurd hempty Finmap.notMem_empty)
  have hroot : Ledger.root sampleHasher
      (fun id => (applyUpdates ((History.start 1).accountsAt 0) us).lookup id) = .ok hash := by
    rw [← hhash]
    refine congrArg _ (funext fun id => ?_)
    rw [Db.lookup_applyUpdates_single]
    show (if id = 0 then Account.applyUpdate
      ((applyUpdates ∅ [(0, .Create 1 0)]).lookup 0) _ else
      (applyUpdates ∅ [(0, .Create 1 0)]).lookup id) = _
    rw [Db.lookup_applyUpdates_single, Db.lookup_applyUpdates_single]
    by_cases hid : id = 0
    · rw [if_pos hid, if_pos hid]
      rfl
    · rw [if_neg hid, if_neg hid, if_neg hid]
      rfl
  obtain ⟨db, hrun, -⟩ := exists_firstBlock it hs firstDeposit us hroot ⟨_, rfl⟩
  exact ⟨it, db₀, db, _, _, hgenesis, hrun, rfl,
    fun us hus => by rw [List.mem_singleton.mp hus]; exact List.cons_ne_nil _ _,
    restart_resumes_iff hgenesis hrun⟩

/-- A block with a refused exit only. A restart succeeds and continues after the
genesis block, with the number of the stored block. -/
theorem restart_reuses_number : ∃ it db₀ db h request updates,
    Db.empty.createGenesisBlock 1 = some db₀ ∧
    Run (fun σ call σ' => GoesOnFrom sampleHasher σ.2 call ∧ HistoryStep sampleHasher it σ call σ')
      (db₀, .start 1) [.commitBlock request updates] (db, h) ∧
    request.block.blockTransactions = [refusedExit] ∧ h.lastBlock = 1 ∧
    (db.loadCommittedState none).1 = 0 ∧
    ((db.loadStateDiff 0 (some 1)).map Prod.fst).getD 0 = 0 ∧
    (∃ db' p, ZkSyncStateInitParams.loadAccountTree sampleHasher it db (.new sampleHasher) =
      .ok (0, db', p)) ∧
    (db.blocks.find ((0 : BlockNumber) + 1).toNat).isSome ∧ ¬ Resumes sampleHasher it db h := by
  obtain ⟨it⟩ := HashIteration.exists
  obtain ⟨db₀, hgenesis, hcache₀⟩ := exists_genesis 1
  have hs₀ := saved_start sampleHasher hgenesis
  obtain ⟨hash, hroot, -⟩ := hs₀.roots 0 (Nat.le_refl 0)
  obtain ⟨db, hrun, hcache⟩ :=
    exists_firstBlock it hs₀ refusedExit [] hroot ⟨db₀, rfl⟩
  let h : History := { History.start 1 with blocks := [[]] }
  have hs : Saved sampleHasher db h := saved_of_run hgenesis hrun
  have hdiff : db.loadStateDiff 0 (some 1) = none := by
    rw [Db.loadStateDiff_forward hs.updates (by decide)]
    exact if_neg fun hne => hne rfl
  have hstored : db.loadVerifiedState = (0, h.accountsAt 0) := by
    unfold Db.loadVerifiedState
    rw [hs.getLastVerifiedBlock, hs.accounts]
    rfl
  have hload : db.loadCommittedState none = (0, h.accountsAt 0) :=
    Db.loadCommittedState_of_none hstored ((hs.loadStateDiff_none 0).trans hdiff)
  refine ⟨it, db₀, db, h, _, _, hgenesis, hrun, rfl, rfl, congrArg Prod.fst hload, ?_, ?_, ?_, ?_⟩
  · rw [hdiff]
    rfl
  · rw [← hcache] at hcache₀
    have hcached : ZkSyncStateInitParams.loadCachedState db = (0, h.accountsAt 0) := by
      unfold ZkSyncStateInitParams.loadCachedState Db.getAccountTreeCache
      rw [hcache₀]
      exact hstored
    obtain ⟨hok, hleaf⟩ := ZkSyncStateInitParams.insertAccounts_new sampleHasher it (h.accountsAt 0)
    obtain ⟨db', p, hensure, -⟩ := ensureTreeCache_ok (c := 0) hcache₀ hok hleaf hroot
    obtain ⟨cache, hdb', -⟩ := ensureTreeCache_eq_ok hensure
    have hload' : db'.loadCommittedState none = (0, h.accountsAt 0) := by
      rw [hdb']
      exact hload
    refine ⟨db', p, ?_⟩
    unfold ZkSyncStateInitParams.loadAccountTree
    rw [hcached]
    dsimp only
    rw [hensure]
    show (do
      let p ← ZkSyncStateInitParams.checkRootHash sampleHasher db' (db'.loadCommittedState none).1
        (ZkSyncStateInitParams.catchUp db' 0 (db'.loadCommittedState none).1
          (db'.loadCommittedState none).2 p)
      return ((db'.loadCommittedState none).1, db', p)) = _
    rw [hload']
    rfl
  · exact (hs.blocks 1).mpr ⟨Nat.one_pos, Nat.le_refl 1⟩
  · intro hresumes
    have hreached := hresumes.reached 0 1 (by decide) (Nat.le_refl 1)
    rw [hdiff] at hreached
    cases hreached

end Samples

end ZkSync
