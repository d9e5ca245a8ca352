import Mathlib.Logic.Relation
import ZkSync.State.System

/-!
# What every step keeps

Whatever the state machine does, it does by `Write`s: it inserts an account at
a free id or over an account of the same address, it removes an account, or it
hashes the tree. `Step.writes` says so of every step, batches and their undoing
included. What a write keeps is then kept by every run:

* `reachable_indexed` — an address in the index leads to an account that lives
  at this address;
* `reachable_hashed` — the hashes the tree has stored are those of its items,
  so the root hash is that of the full tree (`rootHash_eq_fullRoot`);
* `Writes.occupied` — an occupied id stays occupied.
-/

namespace ZkSync

/-- What a single write may do. -/
inductive Write (H : Hasher Fr) (s : ZkSyncState) : ZkSyncState → Prop
  | insert {id : AccountId} {account : Account}
      (keeps : ∀ a, s.getAccount id = some a → a.address = account.address) :
      Write H s (s.insertAccount id account)
  | remove (id : AccountId) : Write H s (s.removeAccount id)
  | hash {hash : Fr} {s' : ZkSyncState} (h : s.rootHash H = .ok (hash, s')) : Write H s s'

/-- Any number of writes. -/
abbrev Writes (H : Hasher Fr) : ZkSyncState → ZkSyncState → Prop :=
  Relation.ReflTransGen (Write H)

/-- Every address in the index leads to an account at this address. -/
def Indexed (s : ZkSyncState) : Prop :=
  ∀ address id, s.accountIdByAddress.lookup address = some id →
    ∃ a, s.getAccount id = some a ∧ a.address = address

section Writes

variable {env : Env} {H : Hasher Fr} {s s' : ZkSyncState}

/-- Removing an account leaves the empty one at its id. -/
theorem getAccount_removeAccount {id : AccountId} {a : Account} (h : s.getAccount id = some a) :
    (s.removeAccount id).getAccount = Function.update s.getAccount id (some Account.default) := by
  unfold ZkSyncState.removeAccount
  rw [h]
  exact s.balanceTree.get_insert id _

/-- The index forgets its address. -/
theorem lookup_removeAccount {id : AccountId} {a : Account} (h : s.getAccount id = some a)
    (address : Address) : (s.removeAccount id).accountIdByAddress.lookup address =
      if address = a.address then none else s.accountIdByAddress.lookup address := by
  unfold ZkSyncState.removeAccount
  rw [h]
  exact Finmap.lookup_erase_if _ _ _

/-- Nothing happens where no account is. -/
theorem removeAccount_of_none {id : AccountId} (h : s.getAccount id = none) :
    s.removeAccount id = s := by
  unfold ZkSyncState.removeAccount
  rw [h]

theorem index_of_rootHash {hash : Fr} (h : s.rootHash H = .ok (hash, s')) :
    s'.accountIdByAddress = s.accountIdByAddress := by
  unfold ZkSyncState.rootHash at h
  rw [Outcome.bind_eq_ok] at h
  obtain ⟨p, -, h⟩ := h
  cases h
  rfl

/-- An account that is written is found by its address. -/
theorem indexed_insertAccount {id : AccountId} {account : Account} (h : Indexed s)
    (keeps : ∀ a, s.getAccount id = some a → a.address = account.address) :
    Indexed (s.insertAccount id account) := by
  intro address id' hl
  rw [ZkSyncState.lookup_insertAccount] at hl
  by_cases hid : id' = id
  · subst hid
    refine ⟨account, s.getAccount_insertAccount_self id' account, ?_⟩
    split at hl
    next hadr => exact hadr.symm
    next =>
      obtain ⟨a, ha, hadr⟩ := h address id' hl
      rw [← keeps a ha, hadr]
  · rw [ZkSyncState.getAccount_insertAccount_of_ne s id account hid]
    split at hl
    next => exact absurd (Option.some.inj hl).symm hid
    next => exact h address id' hl

/-- A removed account is found no more. -/
theorem indexed_removeAccount (id : AccountId) (h : Indexed s) : Indexed (s.removeAccount id) := by
  cases ha : s.getAccount id with
  | none =>
    rw [removeAccount_of_none ha]
    exact h
  | some a =>
    intro address id' hl
    rw [lookup_removeAccount ha] at hl
    split at hl
    next => cases hl
    next hne =>
      obtain ⟨b, hb, hadr⟩ := h address id' hl
      rw [getAccount_removeAccount ha]
      by_cases hid : id' = id
      · subst hid
        rw [ha] at hb
        obtain rfl := Option.some.inj hb
        exact absurd hadr.symm hne
      · exact ⟨b, by rw [Function.update_of_ne hid, hb], hadr⟩

/-- A write keeps the index right. -/
theorem Write.indexed (h : Write H s s') (hs : Indexed s) : Indexed s' := by
  cases h with
  | insert keeps => exact indexed_insertAccount hs keeps
  | remove id => exact indexed_removeAccount id hs
  | hash h =>
    unfold Indexed
    rw [index_of_rootHash h, getAccount_of_rootHash h]
    exact hs

/-- A write frees no id. -/
theorem Write.occupied (h : Write H s s') {id : AccountId} (ha : (s.getAccount id).isSome) :
    (s'.getAccount id).isSome := by
  cases h with
  | @insert id' account _ =>
    rw [ZkSyncState.getAccount_insertAccount, Function.update_apply]
    split
    next => rfl
    next => exact ha
  | remove id' =>
    cases ha' : s.getAccount id' with
    | none =>
      rw [removeAccount_of_none ha']
      exact ha
    | some a =>
      rw [getAccount_removeAccount ha', Function.update_apply]
      split
      next => rfl
      next => exact ha
  | hash h =>
    rw [getAccount_of_rootHash h]
    exact ha

/-- So do any writes. -/
theorem Writes.indexed (h : Writes H s s') (hs : Indexed s) : Indexed s' := by
  induction h with
  | refl => exact hs
  | tail _ hw ih => exact Write.indexed hw ih

/-- An id that is taken stays taken. -/
theorem Writes.occupied (h : Writes H s s') {id : AccountId} (ha : (s.getAccount id).isSome) :
    (s'.getAccount id).isSome := by
  induction h with
  | refl => exact ha
  | tail _ hw ih => exact Write.occupied hw ih

theorem Write.blockNumber (h : Write H s s') :
    s'.blockNumber = s.blockNumber := by
  cases h with
  | insert => rfl
  | remove id =>
    unfold ZkSyncState.removeAccount
    split <;> rfl
  | hash h =>
    unfold ZkSyncState.rootHash at h
    rw [Outcome.bind_eq_ok] at h
    obtain ⟨_, -, h⟩ := h
    cases h
    rfl

theorem Writes.blockNumber (h : Writes H s s') :
    s'.blockNumber = s.blockNumber := by
  induction h with
  | refl => rfl
  | tail _ hw ih => rw [Write.blockNumber hw, ih]

/-! ## Operations are writes -/

/-- Writing over an account of the same address. -/
theorem write_over {id : AccountId} {a account : Account} (ha : s.getAccount id = some a)
    (hadr : a.address = account.address) : Write H s (s.insertAccount id account) :=
  .insert fun a' ha' => by
    rw [ha] at ha'
    obtain rfl := Option.some.inj ha'
    exact hadr

/-- A new account is written at an id that is free. -/
theorem write_free {id : AccountId} {account : Account} (h : s.getAccount id = none) :
    Write H s (s.insertAccount id account) :=
  .insert fun a ha => by
    rw [h] at ha
    cases ha

/-- Writing over two accounts, which may be one. -/
theorem writes_over_two {i j : AccountId} {a b a' b' : Account} (ha : s.getAccount i = some a)
    (hb : s.getAccount j = some b) (hadr : a.address = a'.address)
    (hadr' : b.address = b'.address) : Writes H s ((s.insertAccount i a').insertAccount j b') := by
  refine .tail (.single (write_over ha hadr)) (.insert fun c hc => ?_)
  by_cases hij : j = i
  · subst hij
    rw [s.getAccount_insertAccount_self] at hc
    obtain rfl := Option.some.inj hc
    rw [ha] at hb
    obtain rfl := Option.some.inj hb
    rw [← hadr, hadr']
  · rw [s.getAccount_insertAccount_of_ne i a' hij, hb] at hc
    obtain rfl := Option.some.inj hc
    exact hadr'

/-- All that a transaction does is writing accounts. -/
theorem TxEffect.writes {tx : ZkSyncTx} {r : OpSuccess} (h : TxEffect env s tx r s') :
    Writes H s s' := by
  cases h with
  | transfer sender _ _ targetAccount => exact writes_over_two sender.account targetAccount rfl rfl
  | transferToSelf sender => exact .single (write_over sender.account rfl)
  | @transferToNew tx a sender _ _ free =>
    have hfrom : Write H s (s.insertAccount tx.accountId (a.debit tx.token (tx.amount + tx.fee))) :=
      write_over sender.account rfl
    refine .tail (.single hfrom) (write_free ?_)
    have ne : s.getFreeAccountId ≠ tx.accountId := by
      intro h
      rw [h, sender.account] at free
      cases free
    rw [s.getAccount_insertAccount_of_ne _ _ ne, free]
  | withdraw sender => exact .single (write_over sender.account rfl)
  | changePubKey _ account => exact .single (write_over account rfl)
  | forcedExit account _ _ _ targetAccount => exact writes_over_two account targetAccount rfl rfl

/-- All that a priority operation does is writing accounts. -/
theorem PriorityEffect.writes {op : ZkSyncPriorityOp} {r : OpSuccess}
    (h : PriorityEffect s op r s') : Writes H s s' := by
  cases h with
  | deposit _ _ account => exact .single (write_over account rfl)
  | depositToNew _ _ free => exact .single (write_free free)
  | fullExit _ account => exact .single (write_over account rfl)
  | fullExitRefused => exact .refl

/-- Updates that delete no account. -/
def NoDelete (us : AccountUpdates) : Prop :=
  ∀ u ∈ us, ∀ address nonce, u.2 ≠ .Delete address nonce

/-- No transaction deletes an account. -/
theorem TxEffect.noDelete {tx : ZkSyncTx} {r : OpSuccess} (h : TxEffect env s tx r s') :
    NoDelete r.updates := by
  intro u hu address nonce he
  cases h <;>
    simp only [List.mem_cons, List.not_mem_nil, or_false, debitUpdate, creditUpdate] at hu <;>
    rcases hu with rfl | rfl | rfl <;> cases he

/-- Executed transactions delete nothing. -/
theorem noDelete_updatesOf {es : List Executed} (h : Run (TxStep env) s es s') :
    NoDelete (updatesOf es) := by
  induction h with
  | nil => exact fun _ hu => absurd hu List.not_mem_nil
  | cons hstep _ ih =>
    intro u hu
    unfold updatesOf at hu
    rw [List.flatMap_cons, List.mem_append] at hu
    rcases hu with hu | hu
    · exact (executeTx_effect hstep).noDelete u hu
    · exact ih u hu

/-- The reverse of a list that deletes nothing creates nothing. -/
theorem NoDelete.reverse {us : AccountUpdates} (h : NoDelete us) :
    NoCreate (reverseUpdates us) := by
  intro u hu address nonce he
  obtain ⟨v, hv, rfl⟩ := List.mem_map.mp hu
  refine h v (List.mem_reverse.mp hv) address nonce ?_
  rw [← AccountUpdate.reversedUpdate_reversedUpdate v.2]
  exact congrArg AccountUpdate.reversedUpdate he

/-- An update that creates nothing is applied by a write. -/
theorem applyAccountUpdate_write {id : AccountId} {update : AccountUpdate}
    (hc : ∀ address nonce, update ≠ .Create address nonce)
    (h : s.applyAccountUpdate id update = .ok s') : Write H s s' := by
  cases update with
  | Create address nonce => exact absurd rfl (hc address nonce)
  | Delete address nonce =>
    simp only [ZkSyncState.applyAccountUpdate, Outcome.bind_eq_ok] at h
    obtain ⟨a, -, _, -, _, -, h⟩ := h
    cases h
    exact .remove id
  | UpdateBalance oldNonce newNonce upd =>
    simp only [ZkSyncState.applyAccountUpdate, Outcome.bind_eq_ok, Outcome.expect_eq_ok] at h
    obtain ⟨a, ha, _, -, _, -, h⟩ := h
    cases h
    exact write_over ha rfl
  | ChangePubKeyHash oldPubKeyHash newPubKeyHash oldNonce newNonce =>
    simp only [ZkSyncState.applyAccountUpdate, Outcome.bind_eq_ok, Outcome.expect_eq_ok] at h
    obtain ⟨a, ha, _, -, _, -, h⟩ := h
    cases h
    exact write_over ha rfl

/-- Undoing what created no account only writes accounts. -/
theorem applyAccountUpdates_writes {us : AccountUpdates} (hc : NoCreate us)
    (h : s.applyAccountUpdates us = .ok s') : Writes H s s' := by
  induction us generalizing s with
  | nil =>
    cases h
    exact .refl
  | cons u us ih =>
    obtain ⟨id, update⟩ := u
    unfold ZkSyncState.applyAccountUpdates at h
    rw [Outcome.bind_eq_ok] at h
    obtain ⟨s₁, h₁, h⟩ := h
    exact .head (applyAccountUpdate_write (hc _ List.mem_cons_self) h₁)
      (ih (fun v hv => hc v (List.mem_cons_of_mem _ hv)) h)

/-- A run of transactions only writes. -/
theorem writes_of_run {es : List Executed} (h : Run (TxStep env) s es s') : Writes H s s' :=
  Run.rel (R := Writes H) (fun _ => .refl) (fun _ _ _ h h' => h.trans h')
    (fun _ _ _ h => (executeTx_effect h).writes) h

/-- Every step is a sequence of writes. -/
theorem Step.writes {e : Event} (h : Step env s e s') : Writes env.hasher s s' := by
  cases h with
  | txOk h => exact (executeTx_effect h).writes
  | txFailed h => exact .refl
  | batch h =>
    cases executeTxsBatch_outcome h with
    | done _ run => exact writes_of_run run
    | undone _ run _ undo =>
      exact (writes_of_run run).trans
        (applyAccountUpdates_writes (noDelete_updatesOf run).reverse undo)
  | priorityOp h => exact (executePriorityOp_effect h).writes
  | collectFee h =>
    obtain ⟨a, a', ha, hc, rfl, -, -⟩ := collectFee_effect h
    exact .single (write_over ha hc.address.symm)
  | rootHash h => exact .single (.hash h)

/-- So does any run of the state. -/
theorem writes_of_steps {tr : List Event} (h : Run (Step env) s tr s') : Writes env.hasher s s' :=
  Run.rel (R := Writes env.hasher) (fun _ => .refl) (fun _ _ _ h h' => h.trans h') (fun _ _ _ h => h.writes)
    h

end Writes

/-! ## The stored hashes -/

/-- The hashes stored in the tree are those of its items. -/
def Hashed (H : Hasher Fr) (s : ZkSyncState) : Prop :=
  s.balanceTree.tree.HashOk (accountParams H)

section Hashes

variable {H : Hasher Fr} {s s' : ZkSyncState}

theorem hashed_insert (hs : Hashed H s) (id : AccountId) (account : Account) :
    (s.balanceTree.insert id account).tree.HashOk (accountParams H) :=
  SparseMerkleTree.hashOk_insert s.balanceTree.ok hs (s.balanceTree.id_lt_capacity id)
    (s.balanceTree.insert_tree id account)

/-- A successful root hash, read in the tree. -/
theorem rootHash_eq_ok {hash : Fr} (h : s.rootHash H = .ok (hash, s')) :
    SparseMerkleTree.rootHash (accountParams H) s.balanceTree.tree =
      .ok (hash, s'.balanceTree.tree) := by
  unfold ZkSyncState.rootHash at h
  rw [Outcome.bind_eq_ok] at h
  obtain ⟨⟨hash', t⟩, ht, h⟩ := h
  cases h
  unfold AccountTree.rootHash at ht
  split at ht
  next hash'' tree hroot =>
    cases ht
    exact hroot
  next => cases ht

/-- A write drops the hashes that it makes wrong. -/
theorem Write.hashed (h : Write H s s') (hs : Hashed H s) : Hashed H s' := by
  cases h with
  | insert => exact hashed_insert hs _ _
  | remove id =>
    cases ha : s.getAccount id with
    | none =>
      rw [removeAccount_of_none ha]
      exact hs
    | some a =>
      unfold Hashed ZkSyncState.removeAccount
      rw [ha]
      exact hashed_insert hs _ _
  | hash h => exact SparseMerkleTree.rootHash_hashOk s.balanceTree.ok hs (rootHash_eq_ok h)

/-- So the hashes that are left are right. -/
theorem Writes.hashed (h : Writes H s s') (hs : Hashed H s) : Hashed H s' := by
  induction h with
  | refl => exact hs
  | tail _ hw ih => exact Write.hashed hw ih

/-- The root hash is that of the full tree over the accounts. -/
theorem rootHash_eq_fullRoot (hs : Hashed H s) :
    Prod.fst <$> s.rootHash H = SparseMerkleTree.fullRoot (accountParams H) accountTreeDepth
      s.balanceTree.tree.items := by
  rw [← s.balanceTree.depth, ← SparseMerkleTree.rootHash_eq s.balanceTree.ok hs]
  unfold ZkSyncState.rootHash AccountTree.rootHash
  split
  next hash tree hroot => exact (congrArg (Prod.fst <$> ·) hroot).symm
  next e hroot => exact (congrArg (Prod.fst <$> ·) hroot).symm

end Hashes

/-! ## Loading -/

section Loading

variable {env : Env} {s : ZkSyncState}

/-- Loading accounts, entry by entry. -/
theorem foldl_insertAccount_writes {H : Hasher Fr} :
    ∀ (entries : List (Sigma fun _ : AccountId => Account)) (s : ZkSyncState),
      entries.NodupKeys → (∀ entry ∈ entries, s.getAccount entry.1 = none) →
      Writes H s (entries.foldl (fun s entry => s.insertAccount entry.1 entry.2) s) := by
  intro entries
  induction entries with
  | nil => exact fun s _ _ => .refl
  | cons entry entries ih =>
    intro s hnd hfree
    obtain ⟨hnot, hnd⟩ := List.nodupKeys_cons.mp hnd
    refine .head (write_free (hfree _ List.mem_cons_self)) (ih _ hnd fun entry' he => ?_)
    have hne : entry'.1 ≠ entry.1 := fun h => hnot (h ▸ List.mem_keys_of_mem he)
    rw [ZkSyncState.getAccount_insertAccount_of_ne _ _ _ hne]
    exact hfree _ (List.mem_cons_of_mem _ he)

/-- Loading accounts is writing them one by one. -/
theorem writes_fromAccMap (H : Hasher Fr) (accounts : AList fun _ : AccountId => Account)
    (block : BlockNumber) : Writes H { ZkSyncState.empty H with blockNumber := block }
      (ZkSyncState.fromAccMap H accounts block) :=
  foldl_insertAccount_writes _ _ accounts.nodupKeys fun _ _ => rfl

/-- Reachable from a loaded account map. -/
def Reachable (env : Env) (s : ZkSyncState) : Prop :=
  ∃ (accounts : AList fun _ : AccountId => Account) (block : BlockNumber) (tr : List Event),
    Run (Step env) (ZkSyncState.fromAccMap env.hasher accounts block) tr s

/-- A loaded state has the right index. -/
theorem indexed_fromAccMap (H : Hasher Fr) (accounts : AList fun _ : AccountId => Account)
    (block : BlockNumber) : Indexed (ZkSyncState.fromAccMap H accounts block) := by
  refine Writes.indexed (writes_fromAccMap H accounts block) fun address id h => ?_
  cases h

/-- Its tree has no wrong hash. -/
theorem hashed_fromAccMap (H : Hasher Fr) (accounts : AList fun _ : AccountId => Account)
    (block : BlockNumber) : Hashed H (ZkSyncState.fromAccMap H accounts block) :=
  Writes.hashed (writes_fromAccMap H accounts block)
    (SparseMerkleTree.hashOk_new _ _ (by decide))

/-- In every reachable state the index leads to accounts at their addresses. -/
theorem reachable_indexed (h : Reachable env s) : Indexed s := by
  obtain ⟨accounts, block, tr, hrun⟩ := h
  exact (writes_of_steps hrun).indexed (indexed_fromAccMap _ accounts block)

/-- In every reachable state the stored hashes are right. -/
theorem reachable_hashed (h : Reachable env s) : Hashed env.hasher s := by
  obtain ⟨accounts, block, tr, hrun⟩ := h
  exact (writes_of_steps hrun).hashed (hashed_fromAccMap _ accounts block)

end Loading

theorem reachable_sampleState : Reachable (Env.signedBy 1) sampleState := ⟨_, _, [], .nil _⟩

end ZkSync
