import ZkSync.State.Ledger
import ZkSync.Storage.StateSchema

/-!
# The stored updates

Every function of the state schema, in terms of two views of the database:

* `entries` — the rows of the three tables of updates, as entries of a log whose
  segments are the blocks. Committing updates appends a slice
  (`commitStateUpdate_spec`); a sorted query is a filter of the log
  (`map_entry_sort`);
* `storedAccounts` — the snapshot. Applying a block's updates to it is
  `applyUpdates` (`applyStateUpdate_spec`).

The rest of the database does not change (`Db.Frame`).
-/

namespace ZkSync

open NumberedLog

/-- A row of the tables of updates, as an entry of the log. -/
def StorageAccountDiff.entry (diff : StorageAccountDiff) : Entry (AccountId × AccountUpdate) :=
  ⟨diff.blockNumber, diff.updateOrderId, diff.into⟩

namespace Db

/-- The tables outside the updates agree. -/
structure Frame (db db' : Db) : Prop where
  accounts : db'.accounts = db.accounts
  balances : db'.balances = db.balances
  blocks : db'.blocks = db.blocks
  operations : db'.operations = db.operations
  accountTreeCache : db'.accountTreeCache = db.accountTreeCache

theorem Frame.refl (db : Db) : Frame db db := ⟨rfl, rfl, rfl, rfl, rfl⟩

theorem Frame.trans {db db' db'' : Db} (h : Frame db db') (h' : Frame db' db'') : Frame db db'' :=
  ⟨h'.1.trans h.1, h'.2.trans h.2, h'.3.trans h.3, h'.4.trans h.4, h'.5.trans h.5⟩

/-- All rows of the tables of updates. -/
def entries (db : Db) : List (Entry (AccountId × AccountUpdate)) :=
  (db.accountDiff fun _ => true).map StorageAccountDiff.entry

/-! ## The log -/

section Log

variable {db db' : Db} {log : List (Entry (AccountId × AccountUpdate))}

@[simp] theorem fromCreation_blockNumber (create : StorageAccountCreation) :
    (StorageAccountDiff.fromCreation create).blockNumber = create.blockNumber := by
  unfold StorageAccountDiff.fromCreation
  split <;> rfl

/-- Selecting blocks in each table selects them in the log. -/
theorem accountDiff_eq_filter (db : Db) (p : Nat → Bool) :
    db.accountDiff p = (db.accountDiff fun _ => true).filter fun diff => p diff.blockNumber := by
  have hcreate : ((fun diff => p diff.blockNumber) ∘ StorageAccountDiff.fromCreation) =
      fun row => p row.blockNumber :=
    funext fun row => congrArg p (fromCreation_blockNumber row)
  unfold accountDiff
  simp only [List.filter_true, List.filter_append, List.filter_map, hcreate]
  rfl

theorem map_entry_accountDiff (p : Nat → Bool) :
    (db.accountDiff p).map StorageAccountDiff.entry = db.entries.filter fun e => p e.segment := by
  rw [accountDiff_eq_filter, entries, List.filter_map]
  rfl

/-- A sorted query answers in the order of the log. -/
theorem map_entry_sort (hlog : log.Pairwise Before) (h : db.entries.Perm log) (p : Nat → Bool) :
    (sortByOrder (db.accountDiff p)).map StorageAccountDiff.entry =
      log.filter fun e => p e.segment := by
  have hsort : ∀ diffs : List StorageAccountDiff,
      (sortByOrder diffs).map StorageAccountDiff.entry =
        (diffs.map StorageAccountDiff.entry).mergeSort fun e e' => (e.cmp e').isLE :=
    fun diffs => List.map_mergeSort fun diff _ diff' _ => rfl
  rw [hsort, map_entry_accountDiff]
  exact sort_of_perm (hlog.filter _) (h.filter _)

theorem map_into_sort (hlog : log.Pairwise Before) (h : db.entries.Perm log) (p : Nat → Bool) :
    (sortByOrder (db.accountDiff p)).map StorageAccountDiff.into =
      (log.filter fun e => p e.segment).map Entry.item := by
  rw [← map_entry_sort hlog h p, List.map_map]
  rfl

end Log

/-! ## Committing -/

section Commit

variable {db db' : Db} {blockNumber : BlockNumber}

/-- One more row, among the rows of its table. -/
theorem insertUpdate_spec {i : Nat} {u : AccountId × AccountUpdate}
    (h : db.insertUpdate blockNumber i u = some db') :
    db'.entries.Perm (db.entries ++ [⟨blockNumber.toNat, i, u⟩]) ∧ Frame db db' := by
  -- the row is inserted before the rows of the tables that are collected after its own
  have hmove : ∀ (xs ys : List (Entry (AccountId × AccountUpdate))) (e : Entry _),
      (xs ++ [e] ++ ys).Perm (xs ++ ys ++ [e]) := fun xs ys e => by
    rw [List.append_assoc, List.append_assoc]
    exact List.Perm.append_left xs List.perm_append_comm
  obtain ⟨id, update⟩ := u
  cases update with
  | Create address nonce =>
    obtain ⟨creates, hcreates, h⟩ := Option.bind_eq_some_iff.mp h
    cases h
    refine ⟨?_, rfl, rfl, rfl, rfl, rfl⟩
    unfold entries accountDiff
    simp only [List.filter_true, (Table.insert_eq_some.mp hcreates).2, List.map_append,
      List.map_cons, List.map_nil]
    rw [← List.append_assoc]
    exact hmove _ _ _
  | Delete address nonce =>
    obtain ⟨creates, hcreates, h⟩ := Option.bind_eq_some_iff.mp h
    cases h
    refine ⟨?_, rfl, rfl, rfl, rfl, rfl⟩
    unfold entries accountDiff
    simp only [List.filter_true, (Table.insert_eq_some.mp hcreates).2, List.map_append,
      List.map_cons, List.map_nil]
    rw [← List.append_assoc]
    exact hmove _ _ _
  | UpdateBalance oldNonce newNonce balanceUpdate =>
    cases h
    refine ⟨?_, rfl, rfl, rfl, rfl, rfl⟩
    unfold entries accountDiff
    simp only [List.filter_true, List.map_append, List.map_cons, List.map_nil]
    rw [List.append_assoc (_ ++ _), List.append_assoc (List.map _ _) (List.map _ _) (List.map _ _)]
    exact hmove _ _ _
  | ChangePubKeyHash oldPubKeyHash newPubKeyHash oldNonce newNonce =>
    cases h
    refine ⟨?_, rfl, rfl, rfl, rfl, rfl⟩
    unfold entries accountDiff
    simp only [List.filter_true, List.map_append, List.map_cons, List.map_nil]
    rw [← List.append_assoc]
    exact .refl _

/-- Committing updates adds a slice to the log. -/
theorem commitStateUpdate_spec {us : AccountUpdates} {start : Nat}
    (h : db.commitStateUpdate blockNumber us start = some db') :
    db'.entries.Perm (db.entries ++ slice blockNumber.toNat start us) ∧ Frame db db' := by
  induction us generalizing db start with
  | nil =>
    obtain rfl : db = db' := Option.some.inj h
    rw [slice_nil, List.append_nil]
    exact ⟨.refl _, Frame.refl db⟩
  | cons u us ih =>
    obtain ⟨db₁, h₁, hrest⟩ := Option.bind_eq_some_iff.mp h
    obtain ⟨hperm₁, hframe₁⟩ := insertUpdate_spec h₁
    obtain ⟨hperm, hframe⟩ := ih hrest
    refine ⟨hperm.trans ?_, hframe₁.trans hframe⟩
    rw [slice_cons, List.append_cons]
    exact hperm₁.append_right _

end Commit

/-! ## The snapshot -/

section Snapshot

variable {db db' : Db}

/-- The balances of an account. -/
def balancesOf (db : Db) (id : AccountId) : Finmap fun _ : TokenId => Nat :=
  Table.collect StorageBalance.coinId StorageBalance.balance
    (db.balances.rows.filter fun b => b.accountId = id)

theorem nodup_coins (db : Db) (id : AccountId) :
    ((db.balances.rows.filter fun b => b.accountId = id).map StorageBalance.coinId).Nodup := by
  have hnodup := (db.balances.retain fun b => b.accountId = id).nodup
  refine List.Nodup.of_map (Prod.mk id) ?_
  rw [List.map_map]
  refine (List.map_congr_left fun b hb => ?_) ▸ hnodup
  have hid : b.accountId = id := by simpa using (List.mem_filter.mp hb).2
  show (b.accountId, b.coinId) = (id, b.coinId)
  rw [hid]

theorem lookup_balancesOf (db : Db) (id : AccountId) (token : TokenId) :
    (db.balancesOf id).lookup token =
      (db.balances.find (id, token)).map StorageBalance.balance := by
  unfold balancesOf
  rw [Table.lookup_collect (nodup_coins db id), List.find?_filter]
  unfold Table.find
  congr 1
  refine congrArg (fun p => List.find? p db.balances.rows) (funext fun b => ?_)
  simp only [Prod.mk.injEq, Bool.decide_and, Bool.decide_eq_true]

theorem restoreAccount_eq (stored : StorageAccount) (bs : List StorageBalance) :
    restoreAccount stored bs = (stored.id,
      { pubKeyHash := stored.pubkeyHash, address := stored.address,
        balances := Table.collect StorageBalance.coinId StorageBalance.balance bs,
        nonce := stored.nonce }) := by
  have hfold : ∀ (bs : List StorageBalance) (a : Account),
      (bs.foldl (fun account b => account.setBalance b.coinId b.balance) a).balances =
        bs.foldl (fun m b => m.insert b.coinId b.balance) a.balances := by
    intro bs
    induction bs with
    | nil => exact fun a => rfl
    | cons b bs ih => exact fun a => ih _
  show (stored.id, Account.mk _ _ _ _) = _
  rw [hfold]
  rfl

/-- An account of the snapshot: its row, with its balances. -/
theorem lookup_storedAccounts (db : Db) (id : AccountId) :
    db.storedAccounts.lookup id = (db.accounts.find id).map fun row =>
      { pubKeyHash := row.pubkeyHash, address := row.address, balances := db.balancesOf id,
        nonce := row.nonce } := by
  unfold storedAccounts
  simp only [restoreAccount_eq]
  rw [Table.lookup_collect db.accounts.nodup]
  refine Option.map_congr fun row hrow => ?_
  rw [← (Table.find_eq_some.mp hrow).2]
  rfl

/-- Every balance belongs to a stored account. -/
def Owned (db : Db) : Prop := ∀ b ∈ db.balances.rows, (db.accounts.find b.accountId).isSome

theorem Owned.balancesOf_eq_empty (h : db.Owned) {id : AccountId}
    (hnone : db.accounts.find id = none) : db.balancesOf id = ∅ := by
  unfold balancesOf
  rw [List.filter_eq_nil_iff.mpr]
  · rfl
  · intro b hb
    simp only [decide_eq_true_eq]
    rintro rfl
    have := h b hb
    rw [hnone] at this
    cases this

/-- What one update makes of the map. -/
theorem lookup_applyUpdates_single (accounts : AccountMap) (u : AccountId × AccountUpdate)
    (id : AccountId) : (applyUpdates accounts [u]).lookup id =
      if id = u.1 then Account.applyUpdate (accounts.lookup u.1) u.2 else accounts.lookup id := by
  refine (congrFun (Ledger.lookup_applyUpdates accounts [u]) id).trans ?_
  exact Function.update_apply (fun id => accounts.lookup id) u.1 _ id

/-- A balance is written over the balance of its account in its token. -/
theorem balancesOf_upsert {b : StorageBalance} (h : db'.balances = db.balances.upsert b)
    (id : AccountId) : db'.balancesOf id =
      if id = b.accountId then (db.balancesOf id).insert b.coinId b.balance
      else db.balancesOf id := by
  refine Finmap.ext_lookup fun token => ?_
  rw [lookup_balancesOf, h, Table.find_upsert]
  by_cases hid : id = b.accountId
  · rw [if_pos hid, Finmap.lookup_insert_if, lookup_balancesOf]
    by_cases ht : token = b.coinId
    · rw [if_pos ht, if_pos (by rw [hid, ht])]
      rfl
    · rw [if_neg ht, if_neg fun heq => ht (congrArg Prod.snd heq)]
  · rw [if_neg hid, if_neg fun heq => hid (congrArg Prod.fst heq), lookup_balancesOf]

/-- The balances of one account are deleted, the others stay. -/
theorem balancesOf_retain {id : AccountId}
    (h : db'.balances = db.balances.retain fun row => row.accountId ≠ id) {id' : AccountId}
    (hne : id' ≠ id) : db'.balancesOf id' = db.balancesOf id' := by
  refine Finmap.ext_lookup fun token => ?_
  rw [lookup_balancesOf, lookup_balancesOf, h, Table.find_retain]
  cases hfind : db.balances.find (id', token) with
  | none => rfl
  | some b =>
    have hid : b.accountId = id' := congrArg Prod.fst (Table.find_eq_some.mp hfind).2
    rw [Option.filter_some, if_pos (by simpa [hid] using hne)]

theorem balancesOf_congr (h : db'.balances = db.balances) (id : AccountId) :
    db'.balancesOf id = db.balancesOf id := by
  unfold balancesOf
  rw [h]

/-- Rows stay owned where no account is lost. -/
theorem Owned.mono (h : db.Owned) (hbalances : db'.balances = db.balances)
    (haccounts : ∀ id, (db.accounts.find id).isSome → (db'.accounts.find id).isSome) :
    db'.Owned := by
  intro b hb
  rw [hbalances] at hb
  exact haccounts _ (h b hb)

theorem find_modify_isSome {t : Table StorageAccount fun row => row.id}
    {f : StorageAccount → StorageAccount} (hf : ∀ row, (f row).id = row.id) (id id' : AccountId) :
    ((t.modify id f).find id').isSome = (t.find id').isSome := by
  rw [Table.find_modify hf]
  split
  next h => rw [h, Option.isSome_map]
  next => rfl

/-- One update of the snapshot is one update of the map of accounts. -/
theorem applyDiff_spec {diff : StorageAccountDiff} (h : db.applyDiff diff = some db')
    (howned : db.Owned) :
    db'.storedAccounts = applyUpdates db.storedAccounts [diff.into] ∧ db'.Owned := by
  cases diff with
  | BalanceUpdate upd =>
    simp only [applyDiff, Option.isNone_iff_eq_none] at h
    split at h
    next => cases h
    next hsome =>
      obtain ⟨row, hrow⟩ := Option.ne_none_iff_exists'.mp hsome
      obtain ⟨haccounts, hbalances⟩ :
          db'.accounts = db.accounts.modify upd.accountId (fun row =>
            { row with lastBlock := upd.blockNumber, nonce := upd.newNonce }) ∧
          db'.balances = db.balances.upsert
            { accountId := upd.accountId, coinId := upd.coinId, balance := upd.newBalance } := by
        cases h
        exact ⟨rfl, rfl⟩
      constructor
      · refine Finmap.ext_lookup fun id => ?_
        rw [lookup_applyUpdates_single, lookup_storedAccounts, lookup_storedAccounts,
          lookup_storedAccounts, haccounts, Table.find_modify (by intro row; rfl),
          balancesOf_upsert hbalances]
        show _ = if id = upd.accountId then _ else _
        by_cases hid : id = upd.accountId
        · subst hid
          rw [if_pos rfl, if_pos rfl, if_pos rfl]
          show _ = Account.applyUpdate (Option.map _ (db.accounts.find upd.accountId)) _
          rw [hrow]
          rfl
        · rw [if_neg hid, if_neg hid, if_neg hid]
      · intro b hb
        rw [haccounts, find_modify_isSome (by intro row; rfl)]
        rw [hbalances] at hb
        rcases List.mem_append.mp hb with hb | hb
        · exact howned b (List.mem_of_mem_filter hb)
        · rw [List.mem_singleton.mp hb, hrow]
          rfl
  | Create upd =>
    obtain ⟨accounts, hinsert, h⟩ := Option.bind_eq_some_iff.mp h
    obtain ⟨hnone, hrows⟩ := Table.insert_eq_some.mp hinsert
    obtain ⟨haccounts, hbalances⟩ : db'.accounts = accounts ∧ db'.balances = db.balances := by
      cases h
      exact ⟨rfl, rfl⟩
    constructor
    · refine Finmap.ext_lookup fun id => ?_
      rw [lookup_applyUpdates_single, lookup_storedAccounts, lookup_storedAccounts,
        lookup_storedAccounts, haccounts, Table.find_of_rows hnone hrows,
        balancesOf_congr hbalances]
      show (if id = upd.accountId then _ else _ : Option StorageAccount).map _ =
        if id = upd.accountId then Account.applyUpdate
          (Option.map _ (db.accounts.find upd.accountId)) _ else _
      have hnone' : db.accounts.find upd.accountId = none := hnone
      by_cases hid : id = upd.accountId
      · have hempty : db.balancesOf id = ∅ := howned.balancesOf_eq_empty (hid ▸ hnone)
        rw [if_pos hid, if_pos hid, hnone', hempty]
        rfl
      · rw [if_neg hid, if_neg hid]
    · refine howned.mono hbalances fun id hid => ?_
      rw [haccounts, Table.find_of_rows hnone hrows]
      split
      next => rfl
      next => exact hid
  | Delete upd =>
    obtain ⟨haccounts, hbalances⟩ :
        db'.accounts = db.accounts.retain (fun row => row.id ≠ upd.accountId) ∧
        db'.balances = db.balances.retain fun row => row.accountId ≠ upd.accountId := by
      cases h
      exact ⟨rfl, rfl⟩
    have hkept : ∀ id row, id ≠ upd.accountId → db.accounts.find id = some row →
        db'.accounts.find id = some row := fun id row hne hrow => by
      rw [haccounts, Table.find_retain, hrow, Option.filter_some,
        if_pos (by simpa [(Table.find_eq_some.mp hrow).2] using hne)]
    constructor
    · refine Finmap.ext_lookup fun id => ?_
      rw [lookup_applyUpdates_single, lookup_storedAccounts, lookup_storedAccounts,
        lookup_storedAccounts]
      show _ = if id = upd.accountId then _ else _
      by_cases hid : id = upd.accountId
      · have hgone : db'.accounts.find id = none := by
          rw [haccounts, Table.find_retain]
          refine Option.filter_eq_none_iff.mpr fun row hrow => ?_
          simp [(Table.find_eq_some.mp hrow).2, hid]
        rw [if_pos hid, hgone]
        show none = Account.applyUpdate (Option.map _ (db.accounts.find upd.accountId)) _
        cases db.accounts.find upd.accountId <;> rfl
      · rw [if_neg hid, balancesOf_retain hbalances hid]
        cases hrow : db.accounts.find id with
        | none =>
          have hnone : db'.accounts.find id = none := by
            rw [haccounts, Table.find_retain, hrow]
            rfl
          rw [hnone]
        | some row => rw [hkept id row hid hrow]
    · intro b hb
      rw [hbalances] at hb
      obtain ⟨hmem, hne⟩ := List.mem_filter.mp hb
      obtain ⟨row, hrow⟩ := Option.isSome_iff_exists.mp (howned b hmem)
      rw [hkept _ row (by simpa using hne) hrow]
      rfl
  | ChangePubKey upd =>
    obtain ⟨haccounts, hbalances⟩ :
        db'.accounts = db.accounts.modify upd.accountId (fun row =>
          { row with lastBlock := upd.blockNumber, nonce := upd.newNonce,
                     pubkeyHash := upd.newPubkeyHash }) ∧
        db'.balances = db.balances := by
      cases h
      exact ⟨rfl, rfl⟩
    constructor
    · refine Finmap.ext_lookup fun id => ?_
      rw [lookup_applyUpdates_single, lookup_storedAccounts, lookup_storedAccounts,
        lookup_storedAccounts, haccounts, Table.find_modify (by intro row; rfl),
        balancesOf_congr hbalances]
      show _ = if id = upd.accountId then _ else _
      by_cases hid : id = upd.accountId
      · subst hid
        rw [if_pos rfl, if_pos rfl]
        show _ = Account.applyUpdate (Option.map _ (db.accounts.find upd.accountId)) _
        cases db.accounts.find upd.accountId <;> rfl
      · rw [if_neg hid, if_neg hid]
    · refine howned.mono hbalances fun id hid => ?_
      rw [haccounts, find_modify_isSome (by intro row; rfl)]
      exact hid

/-- The tables outside the snapshot agree. -/
structure UpdateFrame (db db' : Db) : Prop where
  entries : db'.entries = db.entries
  blocks : db'.blocks = db.blocks
  operations : db'.operations = db.operations
  accountTreeCache : db'.accountTreeCache = db.accountTreeCache

theorem applyDiff_frame {diff : StorageAccountDiff} (h : db.applyDiff diff = some db') :
    UpdateFrame db db' := by
  cases diff with
  | BalanceUpdate upd =>
    simp only [applyDiff] at h
    split at h
    next => cases h
    next =>
      cases h
      exact ⟨rfl, rfl, rfl, rfl⟩
  | Create upd =>
    obtain ⟨accounts, -, h⟩ := Option.bind_eq_some_iff.mp h
    cases h
    exact ⟨rfl, rfl, rfl, rfl⟩
  | Delete upd =>
    cases h
    exact ⟨rfl, rfl, rfl, rfl⟩
  | ChangePubKey upd =>
    cases h
    exact ⟨rfl, rfl, rfl, rfl⟩

theorem applyUpdates_cons (accounts : AccountMap) (u : AccountId × AccountUpdate)
    (us : AccountUpdates) :
    applyUpdates accounts (u :: us) = applyUpdates (applyUpdates accounts [u]) us := rfl

theorem applyUpdates_append (accounts : AccountMap) (us vs : AccountUpdates) :
    applyUpdates accounts (us ++ vs) = applyUpdates (applyUpdates accounts us) vs :=
  List.foldl_append

/-- Updates applied in turn. -/
theorem applyDiffs_spec {diffs : List StorageAccountDiff} (h : diffs.foldlM applyDiff db = some db')
    (howned : db.Owned) :
    db'.storedAccounts = applyUpdates db.storedAccounts (diffs.map StorageAccountDiff.into) ∧
      db'.Owned ∧ UpdateFrame db db' := by
  induction diffs generalizing db with
  | nil =>
    obtain rfl : db = db' := Option.some.inj h
    exact ⟨rfl, howned, rfl, rfl, rfl, rfl⟩
  | cons diff diffs ih =>
    obtain ⟨db₁, h₁, hrest⟩ := Option.bind_eq_some_iff.mp h
    obtain ⟨hstored₁, howned₁⟩ := applyDiff_spec h₁ howned
    have hframe₁ := applyDiff_frame h₁
    obtain ⟨hstored, howned', hframe⟩ := ih hrest howned₁
    refine ⟨?_, howned', hframe.1.trans hframe₁.1, hframe.2.trans hframe₁.2,
      hframe.3.trans hframe₁.3, hframe.4.trans hframe₁.4⟩
    rw [hstored, hstored₁, List.map_cons, ← applyUpdates_cons]

/-- Applying the updates of a block: those of its segment, in their order. -/
theorem applyStateUpdate_spec {n : BlockNumber} {segments : List AccountUpdates}
    (h : db.applyStateUpdate n = some db') (howned : db.Owned)
    (hlog : db.entries.Perm (numbered 0 segments)) :
    db'.storedAccounts = applyUpdates db.storedAccounts (segments.getD n.toNat []) ∧
      db'.Owned ∧ UpdateFrame db db' := by
  have hspec := applyDiffs_spec h howned
  rw [map_into_sort before_numbered hlog, filter_segment, map_item_slice] at hspec
  exact hspec

end Snapshot

/-! ## Differences -/

section Difference

variable {db : Db} {segments : List AccountUpdates}

/-- The greatest number among the rows of a range of blocks. -/
theorem max?_accountDiff (hlog : db.entries.Perm (numbered 0 segments)) (p : Nat → Bool) :
    ((db.accountDiff p).map StorageAccountDiff.blockNumber).max? =
      (((numbered 0 segments).filter fun e => p e.segment).map Entry.segment).max? := by
  have hmap : (db.accountDiff p).map StorageAccountDiff.blockNumber =
      ((db.accountDiff p).map StorageAccountDiff.entry).map Entry.segment := by
    rw [List.map_map]
    rfl
  rw [hmap, map_entry_accountDiff]
  refine Option.ext fun n => ?_
  rw [List.max?_eq_some_iff, List.max?_eq_some_iff]
  have hmem : ∀ m, m ∈ (db.entries.filter fun e => p e.segment).map Entry.segment ↔
      m ∈ ((numbered 0 segments).filter fun e => p e.segment).map Entry.segment :=
    fun m => ((hlog.filter _).map _).mem_iff
  simp only [hmem]

/-- The difference from a block to a later one: the updates of the blocks behind
it, and the last of these that has any. -/
theorem loadStateDiff_forward (hlog : db.entries.Perm (numbered 0 segments)) {a b : BlockNumber}
    (hab : a ≤ b) :
    db.loadStateDiff a (some b) =
      if ((segments.take (b.toNat + 1)).drop (a.toNat + 1)).flatten ≠ [] then
        some (UInt32.ofNat ((((numbered (a.toNat + 1)
          ((segments.take (b.toNat + 1)).drop (a.toNat + 1))).map Entry.segment).max?).getD 0),
          ((segments.take (b.toNat + 1)).drop (a.toNat + 1)).flatten)
      else none := by
  have hmin : min a b = a := if_pos hab
  have hmax : max a b = b := if_pos hab
  unfold loadStateDiff
  simp only [hmin, hmax, hab, decide_true, if_true]
  rw [map_into_sort before_numbered hlog, max?_accountDiff hlog, filter_numbered (UInt32.le_iff_toNat_le.mp hab),
    map_item_numbered]

/-- The difference to an earlier block is the reversed difference from it. -/
theorem loadStateDiff_backward {a b number : BlockNumber} {us : AccountUpdates} (hba : b < a)
    (h : db.loadStateDiff b (some a) = some (number, us)) :
    db.loadStateDiff a (some b) = some (b, reverseUpdates us) := by
  have hle : b ≤ a := UInt32.le_of_lt hba
  have hnot : ¬ a ≤ b := UInt32.not_le.mpr hba
  have hmin : min b a = b := if_pos hle
  have hmax : max b a = a := if_pos hle
  have hmin' : min a b = b := if_neg hnot
  have hmax' : max a b = a := if_neg hnot
  unfold loadStateDiff at h ⊢
  simp only [hmin, hmax, hle, decide_true, if_true] at h
  simp only [hmin', hmax', hnot, decide_false, Bool.false_eq_true, if_false]
  obtain ⟨hne, h⟩ := Option.ite_none_right_eq_some.mp h
  obtain ⟨-, rfl⟩ := Prod.mk.inj (Option.some.inj h)
  rw [if_pos]
  intro hnil
  unfold reverseUpdates at hnil
  rw [List.map_eq_nil_iff, List.reverse_eq_nil_iff] at hnil
  exact hne hnil

end Difference

end Db

end ZkSync
