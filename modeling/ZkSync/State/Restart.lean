import ZkSync.State.Atomicity

/-!
# Fresh account ids across restarts

The server stores every update it emits. When it restarts, it loads the account
map the stored updates make of the first one. The free account id is the number
of items in the tree, so it is free only as long as the ids have no gap.

A failed batch that created an account makes one: the tree keeps a default leaf
at the id, nothing is stored, and the next account is created one id further.
After a restart the number of accounts is the id of that account
(`restart_collides`). With such batches left out — and with them the id after
the last one — ids have no gap in any run (`fresh_ids_of_run`).
-/

namespace ZkSync

/-- The updates a step emits. -/
def Event.updates : Event → AccountUpdates
  | .priorityOp _ r => r.updates
  | .collectFee _ _ us => us
  | e => updatesOf e.committed

theorem updates_batch (txs : List SignedZkSyncTx) (results : BatchResults) :
    (Event.batch txs results).updates = updatesOf (succeeded txs results) := rfl

/-- The running state, and the account map the emitted updates make. -/
structure Server where
  state : ZkSyncState
  stored : AccountMap

/-- The server takes a step and stores its updates, or restarts (`none`) and
loads what is stored. -/
inductive ServerStep (env : Env) : Server → Option Event → Server → Prop
  | step {s s' : ZkSyncState} {stored : AccountMap} {e : Event} (h : Step env s e s') :
      ServerStep env ⟨s, stored⟩ (some e) ⟨s', applyUpdates stored e.updates⟩
  | restart {s : ZkSyncState} {accounts : AList fun _ : AccountId => Account} {stored : AccountMap}
      (block : BlockNumber) (loaded : accounts.toFinmap = stored) :
      ServerStep env ⟨s, stored⟩ none ⟨ZkSyncState.fromAccMap env.hasher accounts block, stored⟩

/-- The index holds exactly the addresses of the accounts. -/
def IndexExact (s : ZkSyncState) : Prop :=
  ∀ address id, s.accountIdByAddress.lookup address = some id ↔
    ∃ a, s.getAccount id = some a ∧ a.address = address

/-- Ids are fresh: the index is exact, and no account is at the free id. -/
structure FreshIds (s : ZkSyncState) : Prop where
  index : IndexExact s
  free : s.getAccount s.getFreeAccountId = none

/-- The ids are `0` to `n - 1`. -/
structure Gapless (m : Ledger) (n : Nat) : Prop where
  lt : n < 2 ^ 32
  ids : ∀ id, (m id).isSome ↔ id.toNat < n

/-- The step leaves no gap: a batch that fails created no account before, and a
deposit does not create the account of the last id. -/
def LeavesNoGap (env : Env) (s : ZkSyncState) : Event → Prop
  | .batch txs _ =>
    let executed := executedBefore env s (txs.map (·.tx))
    executed ≠ txs.map (·.tx) → ∀ t, .Transfer t ∈ executed →
      (s.accountIdByAddress.lookup t.toAddress).isSome
  | .priorityOp (.Deposit op) _ =>
    s.accountIdByAddress.lookup op.toAddress = none → s.getFreeAccountId.toNat + 1 < 2 ^ 32
  | _ => True

/-! ## The free id -/

section Free

variable {env : Env} {s s' : ZkSyncState} {n : Nat}

/-- Without gaps the free id is the number of accounts. -/
theorem toNat_getFreeAccountId (h : Gapless s.getAccount n) : s.getFreeAccountId.toNat = n := by
  have hkeys : s.balanceTree.tree.items.keys = Finset.range n := by
    ext i
    rw [Finmap.mem_keys, AccountTree.mem_items, Finset.mem_range]
    refine ⟨fun ⟨hlt, hsome⟩ => ?_, fun hlt => ⟨lt_trans hlt h.lt, (h.ids _).mpr ?_⟩⟩
    · have := (h.ids _).mp hsome
      rwa [UInt32.toNat_ofNat_of_lt' hlt] at this
    · rwa [UInt32.toNat_ofNat_of_lt' (lt_trans hlt h.lt)]
  unfold ZkSyncState.getFreeAccountId Finmap.size
  rw [hkeys, Finset.card_range]
  exact UInt32.toNat_ofNat_of_lt' h.lt

/-- Without gaps the free id is free. -/
theorem Gapless.free (h : Gapless s.getAccount n) : s.getAccount s.getFreeAccountId = none := by
  cases ha : s.getAccount s.getFreeAccountId with
  | none => rfl
  | some a =>
    have hlt := (h.ids s.getFreeAccountId).mp (by rw [ha]; rfl)
    rw [toNat_getFreeAccountId h] at hlt
    exact absurd hlt (Nat.lt_irrefl n)

/-- What the ids rely on. -/
structure NoGap (s : ZkSyncState) : Prop where
  index : IndexExact s
  ids : ∃ n, Gapless s.getAccount n

/-- So it is free. -/
theorem NoGap.fresh (h : NoGap s) : FreshIds s := by
  obtain ⟨n, hn⟩ := h.ids
  exact ⟨h.index, hn.free⟩

/-- Writing over an account of the same address. -/
theorem IndexExact.over (h : IndexExact s) {id : AccountId} {a a' : Account}
    (ha : s.getAccount id = some a) (hadr : a'.address = a.address) :
    IndexExact (s.insertAccount id a') := by
  intro address id'
  have hidx : s.accountIdByAddress.lookup a.address = some id := (h _ _).mpr ⟨a, ha, rfl⟩
  have hsame : (s.insertAccount id a').accountIdByAddress.lookup address =
      s.accountIdByAddress.lookup address := by
    rw [ZkSyncState.lookup_insertAccount, hadr]
    split
    next he => rw [he, hidx]
    next => rfl
  rw [hsame, h]
  by_cases hid : id' = id
  · subst hid
    rw [ZkSyncState.getAccount_insertAccount_self, ha]
    simp [hadr]
  · rw [ZkSyncState.getAccount_insertAccount_of_ne _ _ _ hid]

/-- Creating an account of a new address at an id that is free. -/
theorem IndexExact.create (h : IndexExact s) {id : AccountId} {a : Account}
    (hfree : s.getAccount id = none) (hadr : s.accountIdByAddress.lookup a.address = none) :
    IndexExact (s.insertAccount id a) := by
  intro address id'
  rw [ZkSyncState.lookup_insertAccount]
  by_cases hid : id' = id
  · subst hid
    rw [ZkSyncState.getAccount_insertAccount_self]
    by_cases he : address = a.address
    · simp [he]
    · rw [if_neg he, h, hfree]
      simp [Ne.symm he]
  · rw [ZkSyncState.getAccount_insertAccount_of_ne _ _ _ hid, ← h]
    by_cases he : address = a.address
    · rw [if_pos he, he, hadr]
      simp [Ne.symm hid]
    · rw [if_neg he]

/-- Writing over an account of the same address. -/
theorem NoGap.over (h : NoGap s) {id : AccountId} {a a' : Account} (ha : s.getAccount id = some a)
    (hadr : a'.address = a.address) : NoGap (s.insertAccount id a') where
  index := h.index.over ha hadr
  ids := by
    obtain ⟨n, hlt, hids⟩ := h.ids
    refine ⟨n, hlt, fun id' => ?_⟩
    rw [← hids]
    by_cases hid : id' = id
    · subst hid
      rw [ZkSyncState.getAccount_insertAccount_self, ha]
      exact Iff.rfl
    · rw [ZkSyncState.getAccount_insertAccount_of_ne _ _ _ hid]

/-- Creating an account at the free id, which is not the last one. -/
theorem NoGap.create (h : NoGap s) {a : Account}
    (hadr : s.accountIdByAddress.lookup a.address = none)
    (hlast : s.getFreeAccountId.toNat + 1 < 2 ^ 32) :
    NoGap (s.insertAccount s.getFreeAccountId a) := by
  obtain ⟨n, hn⟩ := h.ids
  have hfree := hn.free
  have hto := toNat_getFreeAccountId hn
  refine ⟨h.index.create hfree hadr, n + 1, by rw [← hto]; exact hlast, fun id => ?_⟩
  by_cases hid : id = s.getFreeAccountId
  · subst hid
    rw [ZkSyncState.getAccount_insertAccount_self, hto]
    simp
  · have hne : id.toNat ≠ n := fun he => hid (UInt32.toNat_inj.mp (he.trans hto.symm))
    rw [ZkSyncState.getAccount_insertAccount_of_ne _ _ _ hid, hn.ids]
    omega

end Free

/-! ## Steps -/

section Steps

variable {env : Env} {s s' : ZkSyncState}

/-- Below the bound of the contract ids do not wrap. -/
theorem maxAccountId_lt {id : AccountId} (h : id ≤ maxAccountId) : id.toNat + 1 < 2 ^ 32 := by
  have hle := UInt32.le_iff_toNat_le.mp h
  have hmax : maxAccountId.toNat = 16777215 := rfl
  omega

/-- Writing over two accounts, which may be one. -/
theorem IndexExact.over_two (h : IndexExact s) {i j : AccountId} {a b a' b' : Account}
    (ha : s.getAccount i = some a) (hb : s.getAccount j = some b) (hadr : a'.address = a.address)
    (hadr' : b'.address = b.address) : IndexExact ((s.insertAccount i a').insertAccount j b') := by
  by_cases hij : j = i
  · subst hij
    rw [ha] at hb
    obtain rfl := Option.some.inj hb
    exact (h.over ha hadr).over (s.getAccount_insertAccount_self j a') (hadr'.trans hadr.symm)
  · exact (h.over ha hadr).over (by rw [s.getAccount_insertAccount_of_ne i a' hij, hb]) hadr'

/-- Transactions keep the index exact. -/
theorem TxEffect.indexExact {tx : ZkSyncTx} {r : OpSuccess} (h : TxEffect env s tx r s')
    (hs : IndexExact s) : IndexExact s' := by
  cases h with
  | transfer sender _ _ targetAccount => exact hs.over_two sender.account targetAccount rfl rfl
  | transferToSelf sender => exact hs.over sender.account rfl
  | @transferToNew t a sender _ target free =>
    have ne : s.getFreeAccountId ≠ t.accountId := by
      intro h
      rw [h, sender.account] at free
      cases free
    have hown : s.accountIdByAddress.lookup a.address = some t.accountId :=
      (hs _ _).mpr ⟨a, sender.account, rfl⟩
    -- the sender is written first, which does not move the index
    have hover : IndexExact (s.insertAccount t.accountId (a.debit t.token (t.amount + t.fee))) :=
      hs.over sender.account rfl
    refine hover.create (by rw [ZkSyncState.getAccount_insertAccount_of_ne _ _ _ ne, free]) ?_
    show (s.insertAccount t.accountId _).accountIdByAddress.lookup t.toAddress = none
    rw [ZkSyncState.lookup_insertAccount, Account.debit_address, if_neg, target]
    intro he
    rw [he, hown] at target
    cases target
  | withdraw sender => exact hs.over sender.account rfl
  | changePubKey _ account => exact hs.over account rfl
  | forcedExit account _ _ _ targetAccount => exact hs.over_two account targetAccount rfl rfl

/-- So does a row of them. -/
theorem indexExact_of_txRun {es : List Executed} (h : Run (TxStep env) s es s')
    (hs : IndexExact s) : IndexExact s' := by
  induction h with
  | nil => exact hs
  | cons hstep _ ih => exact ih ((executeTx_effect hstep).indexExact hs)

/-- So do priority operations. -/
theorem PriorityEffect.indexExact {op : ZkSyncPriorityOp} {r : OpSuccess}
    (h : PriorityEffect s op r s') (hs : IndexExact s) : IndexExact s' := by
  cases h with
  | deposit _ _ account => exact hs.over account rfl
  | depositToNew _ target free => exact hs.create free target
  | fullExit _ account _ => exact hs.over account rfl
  | fullExitRefused => exact hs

/-- The index stays exact when accounts with the same addresses are at the same ids. -/
theorem IndexExact.congr (h : IndexExact s) (hidx : s'.accountIdByAddress = s.accountIdByAddress)
    (hrel : ∀ id, Option.Rel Account.Equiv (s'.getAccount id) (s.getAccount id)) :
    IndexExact s' := by
  intro address id
  rw [hidx, h]
  refine ⟨fun ⟨a, ha, hadr⟩ => ?_, fun ⟨a', ha', hadr⟩ => ?_⟩
  · obtain ⟨a', ha', he⟩ := rel_some (hrel id) ha
    exact ⟨a', ha', he.address.trans hadr⟩
  · cases ha : s.getAccount id with
    | none =>
      rw [rel_none (hrel id) ha] at ha'
      cases ha'
    | some a =>
      obtain ⟨b, hb, he⟩ := rel_some (hrel id) ha
      rw [ha'] at hb
      obtain rfl := Option.some.inj hb
      exact ⟨a, rfl, he.address.symm.trans hadr⟩

/-- Initiators of forced exits are in an exact index. -/
theorem IndexExact.initiator (h : IndexExact s) {id : AccountId} {address : Address}
    (hadr : Ledger.addressOf s.getAccount id = some address) :
    s.accountIdByAddress.lookup address = some id := by
  obtain ⟨a, ha, hto⟩ := Option.map_eq_some_iff.mp hadr
  exact (h _ _).mpr ⟨a, ha, hto⟩

/-- Writing over two accounts, which may be one. -/
theorem NoGap.over_two (h : NoGap s) {i j : AccountId} {a b a' b' : Account}
    (ha : s.getAccount i = some a) (hb : s.getAccount j = some b) (hadr : a'.address = a.address)
    (hadr' : b'.address = b.address) : NoGap ((s.insertAccount i a').insertAccount j b') := by
  by_cases hij : j = i
  · subst hij
    rw [ha] at hb
    obtain rfl := Option.some.inj hb
    exact (h.over ha hadr).over (s.getAccount_insertAccount_self j a') (hadr'.trans hadr.symm)
  · exact (h.over ha hadr).over (by rw [s.getAccount_insertAccount_of_ne i a' hij, hb]) hadr'

/-- A transaction creates at the first free id, so it leaves no gap. -/
theorem TxEffect.noGap {tx : ZkSyncTx} {r : OpSuccess} (h : TxEffect env s tx r s')
    (hs : NoGap s) : NoGap s' := by
  cases h with
  | transfer sender _ _ targetAccount => exact hs.over_two sender.account targetAccount rfl rfl
  | transferToSelf sender => exact hs.over sender.account rfl
  | @transferToNew t a sender _ target free target_le =>
    have ne : s.getFreeAccountId ≠ t.accountId := by
      intro h
      rw [h, sender.account] at free
      cases free
    -- the sender is written first, which moves neither the free id nor the index
    have hover : NoGap (s.insertAccount t.accountId (a.debit t.token (t.amount + t.fee))) :=
      hs.over sender.account rfl
    have hfree : (s.insertAccount t.accountId
        (a.debit t.token (t.amount + t.fee))).getFreeAccountId = s.getFreeAccountId := by
      unfold ZkSyncState.getFreeAccountId
      rw [ZkSyncState.size_insertAccount_of_some _ _ _ sender.account]
    have hidx : (s.insertAccount t.accountId
        (a.debit t.token (t.amount + t.fee))).accountIdByAddress.lookup t.toAddress = none := by
      have hown : s.accountIdByAddress.lookup a.address = some t.accountId :=
        (hs.index _ _).mpr ⟨a, sender.account, rfl⟩
      rw [ZkSyncState.lookup_insertAccount, Account.debit_address, if_neg, target]
      intro he
      rw [he, hown] at target
      cases target
    have hnew := hover.create (a := (Account.defaultWithAddress t.toAddress).addBalance t.token
      t.amount) hidx (by rw [hfree]; exact maxAccountId_lt target_le)
    rwa [hfree] at hnew
  | withdraw sender => exact hs.over sender.account rfl
  | changePubKey _ account => exact hs.over account rfl
  | forcedExit account _ _ _ targetAccount => exact hs.over_two account targetAccount rfl rfl

/-- Nor does a row of them. -/
theorem noGap_of_txRun {es : List Executed} (h : Run (TxStep env) s es s') (hs : NoGap s) :
    NoGap s' := by
  induction h with
  | nil => exact hs
  | cons hstep _ ih => exact ih ((executeTx_effect hstep).noGap hs)

/-- A batch that is undone, and created no account. -/
theorem noGap_of_undo (hz : env.NoZeroSigner) (hr : Indexed s) {es : List Executed}
    {s₁ : ZkSyncState} (h : Run (TxStep env) s es s₁)
    (hundo : s₁.applyAccountUpdates (reverseUpdates (updatesOf es)) = .ok s')
    (hno : NoCreate (updatesOf es)) (hs : NoGap s) : NoGap s' := by
  have hrel := (kept_of_batch hz h hundo hno).restored (undo_restores hz h hundo)
  have hidx : s'.accountIdByAddress = s.accountIdByAddress := by
    exact (index_restored_iff hz hr h hno hundo).mpr fun pre fx post address _ hadr _ =>
      hs.index.initiator hadr
  refine ⟨hs.index.congr hidx hrel, ?_⟩
  obtain ⟨n, hlt, hids⟩ := hs.ids
  exact ⟨n, hlt, fun id => (rel_isSome (hrel id)).trans (hids id)⟩

/-- Nor does a deposit, unless it was given an id beyond the accounts. -/
theorem PriorityEffect.noGap {op : ZkSyncPriorityOp} {r : OpSuccess} (h : PriorityEffect s op r s')
    (hs : NoGap s) (hgap : LeavesNoGap env s (.priorityOp op r)) : NoGap s' := by
  cases h with
  | deposit _ _ account => exact hs.over account rfl
  | depositToNew _ target _ => exact hs.create target (hgap target)
  | fullExit _ account _ => exact hs.over account rfl
  | fullExitRefused => exact hs

/-- Each step that leaves no gap keeps the state without one. -/
theorem Step.noGap (hz : env.NoZeroSigner) {e : Event} (h : Step env s e s') (hs : NoGap s)
    (hgap : LeavesNoGap env s e) : NoGap s' := by
  have hr : Indexed s := fun address id hid => (hs.index address id).mp hid
  cases h with
  | txOk h => exact (executeTx_effect h).noGap hs
  | txFailed h => exact hs
  | batch h =>
    cases executeTxsBatch_outcome h with
    | done _ run => exact noGap_of_txRun run hs
    | undone batch run fails undo =>
      simp only [LeavesNoGap, batch, executedBefore_of_run run fails] at hgap
      exact noGap_of_undo hz hr run undo
        (noCreate_of_recipients run (hgap fun h => by simpa using congrArg List.length h)) hs
  | priorityOp h => exact (executePriorityOp_effect h).noGap hs hgap
  | collectFee h =>
    obtain ⟨a, a', ha, hc, rfl, -, -⟩ := collectFee_effect h
    exact hs.over ha hc.address
  | rootHash h =>
    refine ⟨?_, ?_⟩
    · unfold IndexExact
      rw [getAccount_of_rootHash h, index_of_rootHash h]
      exact hs.index
    · rw [getAccount_of_rootHash h]
      exact hs.ids

end Steps

/-! ## The stored accounts -/

/-- The stored accounts are those of the state up to explicit zeros. -/
def StoredOk (σ : Server) : Prop :=
  ∀ id, Option.Rel Account.Equiv (σ.stored.lookup id) (σ.state.getAccount id)

section Stored

variable {env : Env} {s s' : ZkSyncState}

/-- An update does the same to equivalent accounts. -/
theorem applyUpdate_rel {o o' : Option Account} (h : Option.Rel Account.Equiv o' o)
    (update : AccountUpdate) :
    Option.Rel Account.Equiv (Account.applyUpdate o' update) (Account.applyUpdate o update) := by
  cases h with
  | none => cases update <;> first | exact .none | exact .some (Account.Equiv.refl _)
  | @some a' a he =>
    cases update with
    | Create address nonce => exact .some he
    | Delete address nonce => exact .none
    | UpdateBalance oldNonce newNonce upd =>
      obtain ⟨token, oldBalance, newBalance⟩ := upd
      refine .some ⟨he.pubKeyHash, he.address, rfl, fun token' => ?_⟩
      have h' := Account.getBalance_setBalance a' token token' newBalance
      have h := Account.getBalance_setBalance a token token' newBalance
      rw [he.balance] at h'
      exact h'.trans h.symm
    | ChangePubKeyHash oldPubKeyHash newPubKeyHash oldNonce newNonce =>
      exact .some ⟨rfl, he.address, rfl, he.balance⟩

/-- So do any updates. -/
theorem apply_rel {m m' : Ledger} (h : ∀ id, Option.Rel Account.Equiv (m' id) (m id))
    (us : AccountUpdates) (id : AccountId) :
    Option.Rel Account.Equiv (m'.apply us id) (m.apply us id) := by
  unfold Ledger.apply
  induction us generalizing m m' with
  | nil => exact h id
  | cons u us ih =>
    refine ih fun id' => ?_
    dsimp only
    rw [Function.update_apply, Function.update_apply]
    split
    · exact applyUpdate_rel (h u.1) u.2
    · exact h id'

/-- Storing the updates of a run follows the accounts. -/
theorem storedOk_of_run {stored : AccountMap} {us : AccountUpdates} (h : StoredOk ⟨s, stored⟩)
    (hrun : Run Ledger.Step s.getAccount us s'.getAccount) :
    StoredOk ⟨s', applyUpdates stored us⟩ := by
  intro id
  have hmap := congrFun (Ledger.lookup_applyUpdates stored us) id
  dsimp only at hmap ⊢
  rw [hmap, ← Ledger.apply_of_run hrun]
  exact apply_rel h us id

/-- What is stored follows the state. -/
theorem Step.storedOk (hz : env.NoZeroSigner) {stored : AccountMap} {e : Event}
    (h : Step env s e s') (hgap : LeavesNoGap env s e)
    (hst : StoredOk ⟨s, stored⟩) : StoredOk ⟨s', applyUpdates stored e.updates⟩ := by
  cases h with
  | txOk h =>
    have hrun := ledgerRun_of_run hz (Run.single (e := (_, _)) h : Run (TxStep env) _ _ _)
    exact storedOk_of_run hst hrun
  | txFailed h => exact hst
  | batch h =>
    -- a batch that fails undoes its updates, and stores none
    cases executeTxsBatch_outcome h with
    | done batch run =>
      rw [updates_batch, succeeded_ok batch]
      exact storedOk_of_run hst (ledgerRun_of_run hz run)
    | undone batch run fails undo =>
      rw [updates_batch, succeeded_error]
      simp only [LeavesNoGap, batch, executedBefore_of_run run fails] at hgap
      have hno := noCreate_of_recipients run
        (hgap fun h => by simpa using congrArg List.length h)
      have hrel := (kept_of_batch hz run undo hno).restored (undo_restores hz run undo)
      intro id
      cases ha : s.getAccount id with
      | none =>
        show Option.Rel Account.Equiv (stored.lookup id) (s'.getAccount id)
        rw [rel_none (hst id) ha, rel_none (hrel id) ha]
        exact .none
      | some a =>
        obtain ⟨b, hb, hbe⟩ := rel_some (hst id) ha
        obtain ⟨a', ha', hae⟩ := rel_some (hrel id) ha
        show Option.Rel Account.Equiv (stored.lookup id) (s'.getAccount id)
        have hb' : stored.lookup id = some b := hb
        rw [hb', ha']
        exact .some (hbe.trans hae.symm)
  | priorityOp h => exact storedOk_of_run hst (executePriorityOp_effect h).run
  | collectFee h =>
    obtain ⟨a, a', -, -, -, -, hrun⟩ := collectFee_effect h
    exact storedOk_of_run hst hrun
  | rootHash h =>
    intro id
    have hget : s'.getAccount = s.getAccount := getAccount_of_rootHash h
    show Option.Rel Account.Equiv (stored.lookup id) (s'.getAccount id)
    rw [hget]
    exact hst id

end Stored

/-! ## Loading -/

section Loading

variable {accounts : AList fun _ : AccountId => Account}

/-- Entries written one by one, none of them over another. -/
theorem getAccount_foldl_insertAccount :
    ∀ (entries : List (Sigma fun _ : AccountId => Account)) (s : ZkSyncState),
      entries.NodupKeys → (∀ entry ∈ entries, s.getAccount entry.1 = none) →
      ∀ id, (entries.foldl (fun s entry => s.insertAccount entry.1 entry.2) s).getAccount id =
        (entries.dlookup id).or (s.getAccount id) := by
  intro entries
  induction entries with
  | nil => exact fun s _ _ id => rfl
  | cons entry entries ih =>
    intro s hnd hfree id
    obtain ⟨hnot, hnd⟩ := List.nodupKeys_cons.mp hnd
    rw [List.foldl_cons, ih _ hnd fun entry' he => ?_]
    · by_cases hid : id = entry.1
      · subst hid
        rw [List.dlookup_eq_none.mpr hnot, List.dlookup_cons_eq,
          ZkSyncState.getAccount_insertAccount_self]
        rfl
      · rw [List.dlookup_cons_ne _ _ hid, ZkSyncState.getAccount_insertAccount_of_ne _ _ _ hid]
    · have hne : entry'.1 ≠ entry.1 := fun h => hnot (h ▸ List.mem_keys_of_mem he)
      rw [ZkSyncState.getAccount_insertAccount_of_ne _ _ _ hne]
      exact hfree _ (List.mem_cons_of_mem _ he)

/-- A loaded state has the accounts that were loaded. -/
theorem getAccount_fromAccMap (H : Hasher Fr) (accounts : AList fun _ : AccountId => Account)
    (block : BlockNumber) (id : AccountId) :
    (ZkSyncState.fromAccMap H accounts block).getAccount id = accounts.lookup id := by
  unfold ZkSyncState.fromAccMap
  rw [getAccount_foldl_insertAccount _ _ accounts.nodupKeys fun _ _ => rfl]
  exact Option.or_none

/-- Accounts at distinct addresses load with an exact index. -/
theorem indexExact_fromAccMap (H : Hasher Fr) (block : BlockNumber)
    (hdistinct : ∀ id id' a a', accounts.lookup id = some a → accounts.lookup id' = some a' →
      a.address = a'.address → id = id') :
    IndexExact (ZkSyncState.fromAccMap H accounts block) := by
  intro address id
  refine ⟨fun h => indexed_fromAccMap H accounts block address id h, fun ⟨a, ha, hadr⟩ => ?_⟩
  obtain ⟨id', hid'⟩ := Option.isSome_iff_exists.mp
    (located_fromAccMap H accounts block id a ha trivial)
  obtain ⟨a', ha', hadr'⟩ := indexed_fromAccMap H accounts block _ id' hid'
  rw [getAccount_fromAccMap] at ha ha'
  obtain rfl := hdistinct id id' a a' ha ha' hadr'.symm
  rw [← hadr, hid']

/-- Accounts at distinct addresses, at the first ids, load without a gap. -/
theorem noGap_fromAccMap (H : Hasher Fr) (block : BlockNumber) {n : Nat}
    (hids : Gapless (fun id => accounts.lookup id) n)
    (hdistinct : ∀ id id' a a', accounts.lookup id = some a → accounts.lookup id' = some a' →
      a.address = a'.address → id = id') :
    NoGap (ZkSyncState.fromAccMap H accounts block) where
  index := indexExact_fromAccMap H block hdistinct
  ids := ⟨n, hids.lt, fun id => by rw [getAccount_fromAccMap]; exact hids.ids id⟩

end Loading

/-! ## Runs -/

section Runs

variable {env : Env}

/-- What every state of the server keeps. -/
structure ServerOk (σ : Server) : Prop where
  noGap : NoGap σ.state
  stored : StoredOk σ

/-- A restart finds what was stored, so the invariant survives it. -/
theorem ServerStep.ok (hz : env.NoZeroSigner) {σ σ' : Server} {e : Option Event}
    (h : ServerStep env σ e σ') (hgap : ∀ x, e = some x → LeavesNoGap env σ.state x)
    (hσ : ServerOk σ) : ServerOk σ' := by
  cases h with
  | step h =>
    exact ⟨h.noGap hz hσ.noGap (hgap _ rfl), h.storedOk hz (hgap _ rfl) hσ.stored⟩
  | @restart s accounts stored block loaded =>
    have hlookup : ∀ id, accounts.lookup id = stored.lookup id := fun id => by
      rw [← loaded, Finmap.lookup_toFinmap]
    have hrel : ∀ id, Option.Rel Account.Equiv (accounts.lookup id) (s.getAccount id) := fun id => by
      rw [hlookup]
      exact hσ.stored id
    obtain ⟨n, hlt, hids⟩ := hσ.noGap.ids
    -- two loaded accounts of one address were one in the index
    have howner : ∀ id a, accounts.lookup id = some a →
        s.accountIdByAddress.lookup a.address = some id := by
      intro id a ha
      have hsome := (rel_isSome (hrel id)).mp (by rw [ha]; rfl)
      obtain ⟨b, hb⟩ := Option.isSome_iff_exists.mp hsome
      obtain ⟨a', ha', he⟩ := rel_some (hrel id) hb
      rw [ha] at ha'
      obtain rfl := Option.some.inj ha'
      exact (hσ.noGap.index _ _).mpr ⟨b, hb, he.address.symm⟩
    refine ⟨noGap_fromAccMap _ block ⟨hlt, fun id => (rel_isSome (hrel id)).trans (hids id)⟩
      fun id id' a a' ha ha' hadr => ?_, fun id => ?_⟩
    · have h1 := howner id a ha
      rw [hadr, howner id' a' ha'] at h1
      exact (Option.some.inj h1).symm
    · show Option.Rel Account.Equiv (stored.lookup id)
        ((ZkSyncState.fromAccMap env.hasher accounts block).getAccount id)
      rw [getAccount_fromAccMap, hlookup]
      cases stored.lookup id with
      | none => exact .none
      | some a => exact .some (Account.Equiv.refl a)

/-- A transfer creates its receiver where nobody is. -/
theorem FreshIds.transferToNew {s : ZkSyncState} (h : FreshIds s) {t : Transfer}
    {op : TransferToNewOp} (hop : Transfer.createOp env s t = .ok (.TransferToNew op)) :
    s.getAccount op.toId = none := by
  obtain ⟨-, -, -, ⟨j, b, -, -, he⟩ | ⟨-, he⟩⟩ := Transfer.createOp_eq_ok hop
  · cases he
  · cases he
    exact h.free

/-- A deposit goes to the account of its address, or to a new one. -/
theorem FreshIds.deposit {s : ZkSyncState} (h : FreshIds s) {d : Deposit} {op : DepositOp}
    (hop : Deposit.createOp s d = .ok op) :
    (∀ a, s.getAccount op.accountId = some a → a.address = d.toAddress) ∧
    (s.accountIdByAddress.lookup d.toAddress = none → s.getAccount op.accountId = none) := by
  obtain ⟨-, i, rfl, ⟨b, hidx, hb⟩ | ⟨hnone, rfl⟩⟩ := Deposit.createOp_eq_ok hop
  · obtain ⟨c, hc, hadr⟩ := (h.index _ _).mp hidx
    refine ⟨fun a ha => ?_, fun hnone => ?_⟩
    · have ha' : s.getAccount i = some a := ha
      rw [hc] at ha'
      obtain rfl := Option.some.inj ha'
      exact hadr
    · rw [hnone] at hidx
      cases hidx
  · refine ⟨fun a ha => ?_, fun _ => h.free⟩
    have ha' : s.getAccount s.getFreeAccountId = some a := ha
    rw [h.free] at ha'
    cases ha'

/-- Fresh ids across restarts. Load accounts at distinct addresses at the first
ids; run and restart the server at will, with no step that leaves a gap. Then
in every state ids are fresh: the account a transfer or a deposit creates is
created at a free id, and a deposit credits no account of another address. -/
theorem fresh_ids_of_run (hz : env.NoZeroSigner) {accounts : AList fun _ : AccountId => Account}
    {n : Nat} (hids : Gapless (fun id => accounts.lookup id) n)
    (hdistinct : ∀ id id' a a', accounts.lookup id = some a → accounts.lookup id' = some a' →
      a.address = a'.address → id = id') (block : BlockNumber) {tr : List (Option Event)}
    {σ : Server} (hrun : Run (fun σ e σ' => ServerStep env σ e σ' ∧
        ∀ x, e = some x → LeavesNoGap env σ.state x)
      ⟨ZkSyncState.fromAccMap env.hasher accounts block, accounts.toFinmap⟩ tr σ) :
    FreshIds σ.state ∧
    (∀ t op, Transfer.createOp env σ.state t = .ok (.TransferToNew op) →
      σ.state.getAccount op.toId = none) ∧
    (∀ d op, Deposit.createOp σ.state d = .ok op →
      (∀ a, σ.state.getAccount op.accountId = some a → a.address = d.toAddress) ∧
      (σ.state.accountIdByAddress.lookup d.toAddress = none →
        σ.state.getAccount op.accountId = none)) := by
  have hstart : ServerOk
      ⟨ZkSyncState.fromAccMap env.hasher accounts block, accounts.toFinmap⟩ := by
    refine ⟨noGap_fromAccMap _ block hids hdistinct, fun id => ?_⟩
    show Option.Rel Account.Equiv (accounts.toFinmap.lookup id)
      ((ZkSyncState.fromAccMap env.hasher accounts block).getAccount id)
    rw [getAccount_fromAccMap, Finmap.lookup_toFinmap]
    cases accounts.lookup id with
    | none => exact .none
    | some a => exact .some (Account.Equiv.refl a)
  have hok := hrun.invariant (fun _ _ _ hσ h => h.1.ok hz h.2 hσ) hstart
  have hfresh := hok.noGap.fresh
  exact ⟨hfresh, fun _ _ => hfresh.transferToNew, fun _ _ => hfresh.deposit⟩

end Runs

/-! ## A gap -/

/-- The one account of the sample state, as it is stored. -/
def sampleStored : AList fun _ : AccountId => Account := AList.singleton 0 sampleAccount

/-- The ids begin at zero. -/
theorem sampleStored_gapless : Gapless (fun id => sampleStored.lookup id) 1 := by
  refine ⟨by decide, fun id => ?_⟩
  show (List.dlookup id [(⟨0, sampleAccount⟩ : Sigma fun _ : AccountId => Account)]).isSome ↔
    id.toNat < 1
  by_cases hid : id = 0
  · subst hid
    exact ⟨fun _ => by decide, fun _ => rfl⟩
  · rw [List.dlookup_cons_ne _ (⟨0, sampleAccount⟩ : Sigma fun _ : AccountId => Account) hid,
      List.dlookup_nil]
    refine ⟨fun h => absurd h (by decide), fun h => absurd (UInt32.toNat_inj.mp ?_) hid⟩
    show id.toNat = 0
    omega

/-- One account has one address. -/
theorem sampleStored_distinct (id id' : AccountId) (a a' : Account)
    (h : sampleStored.lookup id = some a) (h' : sampleStored.lookup id' = some a')
    (_ : a.address = a'.address) : id = id' := by
  have hlt := (sampleStored_gapless.ids id).mp (by rw [h]; rfl)
  have hlt' := (sampleStored_gapless.ids id').mp (by rw [h']; rfl)
  exact UInt32.toNat_inj.mp (by omega)

/-- A deposit of five units to an address. -/
def sampleDeposit (toAddress : Address) : Deposit :=
  { fromAddress := 9, token := 0, amount := 5, toAddress := toAddress }

/-- The account the deposit creates at an address. -/
def sampleDeposited (toAddress : Address) : Account :=
  (Account.defaultWithAddress toAddress).addBalance 0 5

/-- What the deposit to address 3 reports after the failed batch. -/
def sampleDepositSuccess : OpSuccess where
  fee := none
  updates := [(2, .Create 3 0), (2, .UpdateBalance 0 0 (0, 0, 5))]
  executedOp := .Deposit ⟨sampleDeposit 3, 2⟩

/-- What is stored after it. -/
def sampleStoredAfter : AList fun _ : AccountId => Account :=
  ⟨[⟨2, sampleDeposited 3⟩, ⟨0, sampleAccount⟩], by show [(2 : AccountId), 0].Nodup; decide⟩

/-- A failed batch that created an account, a deposit and a restart. Ids 0 and
2 are taken and the free id is 2: the next deposit, to address 4, credits the
account of address 3. -/
theorem restart_collides :
    Gapless (fun id => sampleStored.lookup id) 1 ∧
    Run (ServerStep (Env.signedBy 1))
      ⟨ZkSyncState.fromAccMap (Env.signedBy 1).hasher sampleStored 0, sampleStored.toFinmap⟩
      [some (.batch sampleBatch
          (List.replicate 2 (.error (batchErrorMsg 1 "Nonce mismatch")))),
        some (.priorityOp (.Deposit (sampleDeposit 3)) sampleDepositSuccess), none]
      ⟨ZkSyncState.fromAccMap (Env.signedBy 1).hasher sampleStoredAfter 0,
        sampleStoredAfter.toFinmap⟩ ∧
    ¬ FreshIds (ZkSyncState.fromAccMap (Env.signedBy 1).hasher sampleStoredAfter 0) ∧
    Deposit.createOp (ZkSyncState.fromAccMap (Env.signedBy 1).hasher sampleStoredAfter 0)
      (sampleDeposit 4) = .ok ⟨sampleDeposit 4, 2⟩ ∧
    (ZkSyncState.fromAccMap (Env.signedBy 1).hasher sampleStoredAfter 0).getAccount 2 =
      some (sampleDeposited 3) := by
  have hdeposit : sampleStateUndone.executePriorityOp (.Deposit (sampleDeposit 3)) =
      .ok (sampleDepositSuccess, sampleStateUndone.insertAccount 2 (sampleDeposited 3)) := rfl
  refine ⟨sampleStored_gapless, .cons (.step (.batch sampleBatch_fails)) (.cons
    (.step (.priorityOp hdeposit)) (.cons (.restart 0 rfl) (.nil _))), fun h => ?_, rfl, rfl⟩
  have hfree : some (sampleDeposited 3) = none := h.free
  cases hfree

/-- A transfer that creates an account, and a restart: the ids of the restarted server are
fresh. -/
theorem fresh_ids_of_run_transferToNew : ∃ s : ZkSyncState,
    Run (fun σ e σ' => ServerStep (Env.signedBy 1) σ e σ' ∧
        ∀ x, e = some x → LeavesNoGap (Env.signedBy 1) σ.state x)
      ⟨ZkSyncState.fromAccMap (Env.signedBy 1).hasher sampleStored 0, sampleStored.toFinmap⟩
      [some (.tx (.Transfer (sampleTransfer 2 0)) (.ok sampleSuccess)), none]
      ⟨s, applyUpdates sampleStored.toFinmap sampleSuccess.updates⟩ ∧
    FreshIds s ∧
    (∀ t op, Transfer.createOp (Env.signedBy 1) s t = .ok (.TransferToNew op) →
      s.getAccount op.toId = none) ∧
    (∀ d op, Deposit.createOp s d = .ok op →
      (∀ a, s.getAccount op.accountId = some a → a.address = d.toAddress) ∧
      (s.accountIdByAddress.lookup d.toAddress = none → s.getAccount op.accountId = none)) := by
  have hstep : ServerStep (Env.signedBy 1)
      ⟨ZkSyncState.fromAccMap (Env.signedBy 1).hasher sampleStored 0, sampleStored.toFinmap⟩
      (some (.tx (.Transfer (sampleTransfer 2 0)) (.ok sampleSuccess)))
      ⟨sampleStateAfter, applyUpdates sampleStored.toFinmap sampleSuccess.updates⟩ :=
    .step (.txOk sampleState_executeTx)
  obtain ⟨accounts, hloaded⟩ : ∃ accounts : AList fun _ : AccountId => Account,
      accounts.toFinmap = applyUpdates sampleStored.toFinmap sampleSuccess.updates :=
    Finmap.induction_on (applyUpdates sampleStored.toFinmap sampleSuccess.updates)
      fun accounts => ⟨accounts, rfl⟩
  have hrun : Run (fun σ e σ' => ServerStep (Env.signedBy 1) σ e σ' ∧
        ∀ x, e = some x → LeavesNoGap (Env.signedBy 1) σ.state x)
      ⟨ZkSyncState.fromAccMap (Env.signedBy 1).hasher sampleStored 0, sampleStored.toFinmap⟩
      [some (.tx (.Transfer (sampleTransfer 2 0)) (.ok sampleSuccess)), none]
      ⟨ZkSyncState.fromAccMap (Env.signedBy 1).hasher accounts 0,
        applyUpdates sampleStored.toFinmap sampleSuccess.updates⟩ :=
    .cons ⟨hstep, fun x hx => by cases hx; trivial⟩
      (.single ⟨.restart 0 hloaded, fun x hx => by cases hx⟩)
  exact ⟨_, hrun, fresh_ids_of_run (noZeroSigner_signedBy (by decide)) sampleStored_gapless
    sampleStored_distinct 0 hrun⟩

end ZkSync
