import ZkSync.Lib.Related
import ZkSync.State.Execute

/-!
# States that behave alike

What a call of the state machine does depends on the accounts up to explicit
zero balances, on the index and on the number of items, and on nothing else of
the tree: not on the shape of its nodes, and not on its cache. Two states that
agree on these are `Alike`; every call on them fails in the same way or returns
the same result, and leaves them alike. So asking for a root hash between two
calls, or loading the accounts into a new tree, changes no later result.
-/

namespace ZkSync

open Outcome (Related)

/-- States with the same accounts up to the order of their balances, and the same index. -/
structure Alike (s s' : ZkSyncState) : Prop where
  accounts : ∀ id, Option.Rel Account.Equiv (s.getAccount id) (s'.getAccount id)
  index : s'.accountIdByAddress = s.accountIdByAddress
  size : s'.balanceTree.tree.items.size = s.balanceTree.tree.items.size

/-! ## Accounts -/

namespace Account.Equiv

variable {a b : Account}

/-- A balance that is set hides what the two accounts had in it. -/
theorem setBalance (h : a.Equiv b) (token : TokenId) (amount : Nat) :
    (a.setBalance token amount).Equiv (b.setBalance token amount) where
  pubKeyHash := h.pubKeyHash
  address := h.address
  nonce := h.nonce
  balance := fun token' => by rw [getBalance_setBalance, getBalance_setBalance, h.balance]

theorem addBalance (h : a.Equiv b) (token : TokenId) (amount : Nat) :
    (a.addBalance token amount).Equiv (b.addBalance token amount) := by
  unfold Account.addBalance
  rw [h.balance]
  exact h.setBalance token _

/-- A debit fails in both accounts or in none. -/
theorem subBalance (h : a.Equiv b) (token : TokenId) (amount : Nat) :
    Related Account.Equiv (a.subBalance token amount) (b.subBalance token amount) := by
  unfold Account.subBalance
  rw [h.balance]
  exact .same _ fun _ => .ok (h.setBalance token _)

theorem withNonce (h : a.Equiv b) (nonce : Nonce) :
    Account.Equiv { a with nonce := nonce } { b with nonce := nonce } :=
  ⟨h.pubKeyHash, h.address, rfl, h.balance⟩

end Account.Equiv

namespace Alike

variable {s s' s'' : ZkSyncState}

theorem refl (s : ZkSyncState) : Alike s s where
  accounts := fun id => by
    cases s.getAccount id with
    | none => exact .none
    | some a => exact .some (Account.Equiv.refl a)
  index := rfl
  size := rfl

theorem trans (h : Alike s s') (h' : Alike s' s'') : Alike s s'' where
  accounts := fun id => by
    have h1 := h.accounts id
    have h2 := h'.accounts id
    generalize s.getAccount id = o at h1 ⊢
    generalize s'.getAccount id = o' at h1 h2
    generalize s''.getAccount id = o'' at h2 ⊢
    cases h1 with
    | none =>
      cases h2
      exact .none
    | some h1 =>
      cases h2 with
      | some h2 => exact .some (h1.trans h2)
  index := h'.index.trans h.index
  size := h'.size.trans h.size

/-- The free id is found by the ids alone. -/
theorem freeId (h : Alike s s') : s'.getFreeAccountId = s.getFreeAccountId := by
  unfold ZkSyncState.getFreeAccountId
  rw [h.size]

theorem getAccount_none (h : Alike s s') (id : AccountId) :
    s'.getAccount id = none ↔ s.getAccount id = none := by
  rw [← Option.not_isSome_iff_eq_none, ← Option.not_isSome_iff_eq_none,
    rel_isSome (h.accounts id)]

/-- Writing like accounts at the same id. -/
theorem insert (h : Alike s s') {a a' : Account} (ha : a.Equiv a') (id : AccountId) :
    Alike (s.insertAccount id a) (s'.insertAccount id a') where
  accounts := fun id' => by
    rw [ZkSyncState.getAccount_insertAccount, ZkSyncState.getAccount_insertAccount,
      Function.update_apply, Function.update_apply]
    split
    · exact .some ha
    · exact h.accounts id'
  index := by
    show s'.accountIdByAddress.insert a'.address id = s.accountIdByAddress.insert a.address id
    rw [h.index, ha.address]
  size := by
    cases hid : s.getAccount id with
    | none =>
      rw [s.size_insertAccount_of_none id a hid,
        s'.size_insertAccount_of_none id a' ((h.getAccount_none id).mpr hid), h.size]
    | some b =>
      obtain ⟨b', hb'⟩ := Option.isSome_iff_exists.mp
        ((rel_isSome (h.accounts id)).mp (by rw [hid]; rfl))
      rw [s.size_insertAccount_of_some id a hid, s'.size_insertAccount_of_some id a' hb', h.size]

/-- Writing back what is there. -/
theorem of_insert_same {id : AccountId} {a : Account} (ha : s.getAccount id = some a)
    (hi : s.accountIdByAddress.lookup a.address = some id) : Alike s (s.insertAccount id a) where
  accounts := fun id' => by
    rw [ZkSyncState.getAccount_insertAccount, ← ha, Function.update_eq_self]
    exact (refl s).accounts id'
  index := Finmap.insert_of_lookup hi
  size := s.size_insertAccount_of_some id a ha

/-- The entry of the index and the account behind it. -/
def Found (r r' : AccountId × Account) : Prop := r.1 = r'.1 ∧ r.2.Equiv r'.2

/-- An address finds alike accounts at one id, or the same error. -/
theorem getAccountByAddress (h : Alike s s') (address : Address) :
    Related (Option.Rel Found) (s.getAccountByAddress address) (s'.getAccountByAddress address) := by
  unfold ZkSyncState.getAccountByAddress
  rw [h.index]
  cases s.accountIdByAddress.lookup address with
  | none => exact .ok .none
  | some id =>
    exact (Outcome.related_expect (h.accounts id) _).bind fun a a' ha => .ok (.some ⟨rfl, ha⟩)

end Alike

/-! ## Handlers -/

/-- The same result, and states alike. -/
def SameResult {α : Type} (r r' : α × ZkSyncState) : Prop := r.1 = r'.1 ∧ Alike r.2 r'.2

section Handlers

variable {env : Env} {s s' : ZkSyncState}

open Outcome (related_expect related_okOrElse)

/-- What a handler makes of `createOp` and `applyOp`. -/
theorem related_applyTx {α : Type} {create create' : Outcome α} {apply apply' : α → Outcome Applied}
    (result : α → Option CollectedFee → AccountUpdates → OpSuccess)
    (hc : Related Eq create create') (ha : ∀ op, Related SameResult (apply op) (apply' op)) :
    Related SameResult
      (create >>= fun op => apply op >>= fun r => .ok (result op r.1.1 r.1.2, r.2))
      (create' >>= fun op => apply' op >>= fun r => .ok (result op r.1.1 r.1.2, r.2)) := by
  refine hc.bind fun op op' he => ?_
  subst he
  refine (ha op).bind fun r r' hr => .ok ⟨?_, hr.2⟩
  rw [hr.1]

/-- The operation that a deposit becomes depends on the ids and addresses only. -/
theorem Deposit.related_createOp (h : Alike s s') (op : Deposit) :
    Related Eq (Deposit.createOp s op) (Deposit.createOp s' op) := by
  refine .same _ fun _ => ?_
  refine (h.getAccountByAddress _).bind fun r r' hr => ?_
  cases hr with
  | none => exact .ok (by rw [h.freeId])
  | some hr => exact .ok (by simp only [hr.1])

/-- A deposit leaves alike states alike and reports the same. -/
theorem Deposit.related (h : Alike s s') (op : Deposit) :
    Related SameResult (Deposit.applyTx s op) (Deposit.applyTx s' op) := by
  refine related_applyTx (fun op fee updates => ⟨fee, updates, .Deposit op⟩)
    (related_createOp h op) fun op => ?_
  unfold Deposit.applyOp
  have hid := h.accounts op.accountId
  generalize s.getAccount op.accountId = o at hid
  generalize s'.getAccount op.accountId = o' at hid
  cases hid with
  | none => exact .ok ⟨rfl, h.insert (Account.Equiv.refl _) _⟩
  | some ha =>
    refine .ok ⟨?_, h.insert (ha.addBalance _ _) _⟩
    simp only [ha.nonce, ha.balance, (ha.addBalance _ _).balance]

/-- The account of a full or forced exit, if it has the address. -/
theorem related_exitBalance (h : Alike s s') (id : AccountId) (address : Address)
    (token : TokenId) :
    ((s.getAccount id).filter fun a => a.address = address).map (·.getBalance token) =
      ((s'.getAccount id).filter fun a => a.address = address).map (·.getBalance token) := by
  have hid := h.accounts id
  generalize s.getAccount id = o at hid
  generalize s'.getAccount id = o' at hid
  cases hid with
  | none => rfl
  | some ha =>
    rw [Option.filter_some, Option.filter_some, ha.address]
    split
    · rw [Option.map_some, Option.map_some, ha.balance]
    · rfl

theorem FullExit.related_createOp (h : Alike s s') (op : FullExit) :
    Related Eq (FullExit.createOp s op) (FullExit.createOp s' op) := by
  refine .same _ fun _ => ?_
  rw [related_exitBalance h]
  exact .ok rfl

/-- A full exit takes the same balance from both. -/
theorem FullExit.related (h : Alike s s') (op : FullExit) :
    Related SameResult (FullExit.applyTx s op) (FullExit.applyTx s' op) := by
  refine related_applyTx (fun op fee updates => ⟨fee, updates, .FullExit op⟩)
    (related_createOp h op) fun op => ?_
  unfold FullExit.applyOp
  split
  · exact .ok ⟨rfl, h⟩
  · refine (related_expect (h.accounts _) _).bind fun a a' ha => ?_
    refine (ha.subBalance _ _).bind fun b b' hb => ?_
    rw [hb.balance]
    refine .same _ fun _ => .ok ⟨?_, h.insert hb _⟩
    rw [ha.balance, ha.nonce, hb.nonce]

/-- Whether a transfer creates an account is decided by the index, which the states share. -/
theorem Transfer.related_createOp (h : Alike s s') (tx : Transfer) :
    Related Eq (tx.createOp env s) (tx.createOp env s') := by
  unfold Transfer.createOp
  refine .same _ fun _ => .same _ fun _ => ?_
  refine (h.getAccountByAddress _).bind fun r r' hr => ?_
  refine (related_okOrElse hr _).bind fun r r' hr => ?_
  obtain ⟨id, a⟩ := r
  obtain ⟨id', a'⟩ := r'
  obtain ⟨rfl, ha⟩ := hr
  dsimp only
  rw [ha.pubKeyHash, h.freeId]
  refine .same _ fun _ => .same _ fun _ => .same _ fun _ => ?_
  refine (h.getAccountByAddress _).bind fun r r' hr => ?_
  cases hr with
  | none => exact .ok rfl
  | some hr => exact .ok (by simp only [hr.1])

/-- To itself an account pays the fee only, in both states. -/
theorem Transfer.related_toSelf (h : Alike s s') (op : TransferOp) :
    Related SameResult (Transfer.applyTransferOpToSelf env s op)
      (Transfer.applyTransferOpToSelf env s' op) := by
  refine .same _ fun _ => .same _ fun _ => ?_
  refine (related_expect (h.accounts _) _).bind fun a a' ha => ?_
  dsimp only
  rw [ha.balance, ha.nonce]
  refine .same _ fun _ => .same _ fun _ => ?_
  refine (ha.subBalance _ _).bind fun b b' hb => ?_
  rw [hb.nonce]
  refine .same _ fun nonce => .ok ⟨?_, h.insert (hb.withNonce nonce) _⟩
  rw [(hb.withNonce nonce).balance]

/-- Both accounts of a transfer are found, debited and credited alike. -/
theorem Transfer.related_transfer (h : Alike s s') (op : TransferOp) :
    Related SameResult (Transfer.applyTransferOp env s op) (Transfer.applyTransferOp env s' op) := by
  unfold Transfer.applyTransferOp
  refine .same _ fun _ => .same _ fun _ => ?_
  split
  · exact Transfer.related_toSelf h op
  · refine (related_expect (h.accounts _) _).bind fun a a' ha => ?_
    refine (related_expect (h.accounts _) _).bind fun b b' hb => ?_
    dsimp only
    rw [ha.balance, ha.nonce]
    refine .same _ fun _ => .same _ fun _ => ?_
    refine (ha.subBalance _ _).bind fun c c' hc => ?_
    rw [hc.nonce]
    refine .same _ fun nonce => .ok ⟨?_, (h.insert (hc.withNonce nonce) _).insert
      (hb.addBalance _ _) _⟩
    rw [(hc.withNonce nonce).balance, hb.balance, hb.nonce, (hb.addBalance _ _).balance]

/-- The account that is created is the same, and the sender is debited alike. -/
theorem Transfer.related_transferToNew (h : Alike s s') (op : TransferToNewOp) :
    Related SameResult (Transfer.applyTransferToNewOp env s op)
      (Transfer.applyTransferToNewOp env s' op) := by
  unfold Transfer.applyTransferToNewOp
  simp only [h.getAccount_none]
  refine .same _ fun _ => .same _ fun _ => .same _ fun _ => ?_
  refine (related_expect (h.accounts _) _).bind fun a a' ha => ?_
  rw [ha.balance, ha.nonce]
  refine .same _ fun _ => .same _ fun _ => ?_
  refine (ha.subBalance _ _).bind fun c c' hc => ?_
  rw [hc.nonce]
  refine .same _ fun nonce => .ok ⟨?_, (h.insert (hc.withNonce nonce) _).insert
    (Account.Equiv.refl _) _⟩
  rw [(hc.withNonce nonce).balance]

/-- Each of the three transfers is alike. -/
theorem Transfer.related (h : Alike s s') (tx : Transfer) :
    Related SameResult (tx.applyTx env s) (tx.applyTx env s') := by
  refine related_applyTx (fun op fee updates => ⟨fee, updates, op.intoFranklinOp⟩)
    (related_createOp h tx) fun op => ?_
  cases op with
  | Transfer op => exact related_transfer h op
  | TransferToNew op => exact related_transferToNew h op

theorem Withdraw.related_createOp (h : Alike s s') (tx : Withdraw) :
    Related Eq (tx.createOp env s) (tx.createOp env s') := by
  unfold Withdraw.createOp
  refine .same _ fun _ => ?_
  refine (h.getAccountByAddress _).bind fun r r' hr => ?_
  refine (related_okOrElse hr _).bind fun r r' hr => ?_
  obtain ⟨id, a⟩ := r
  obtain ⟨id', a'⟩ := r'
  obtain ⟨rfl, ha⟩ := hr
  dsimp only
  rw [ha.pubKeyHash]
  exact .same _ fun _ => .same _ fun _ => .same _ fun _ => .ok rfl

/-- A withdrawal checks the key, the nonce and the balance, which are alike. -/
theorem Withdraw.related (h : Alike s s') (tx : Withdraw) :
    Related SameResult (tx.applyTx env s) (tx.applyTx env s') := by
  refine related_applyTx (fun op fee updates => ⟨fee, updates, .Withdraw op⟩)
    (related_createOp h tx) fun op => ?_
  refine .same _ fun _ => ?_
  refine (related_expect (h.accounts _) _).bind fun a a' ha => ?_
  dsimp only
  rw [ha.balance, ha.nonce]
  refine .same _ fun _ => .same _ fun _ => ?_
  refine (ha.subBalance _ _).bind fun c c' hc => ?_
  rw [hc.nonce]
  refine .same _ fun nonce => .ok ⟨?_, h.insert (hc.withNonce nonce) _⟩
  rw [(hc.withNonce nonce).balance]

theorem ChangePubKey.related_createOp (h : Alike s s') (tx : ChangePubKey) :
    Related Eq (tx.createOp env s) (tx.createOp env s') := by
  unfold ChangePubKey.createOp
  refine (h.getAccountByAddress _).bind fun r r' hr => ?_
  refine (related_okOrElse hr _).bind fun r r' hr => ?_
  obtain ⟨id, a⟩ := r
  obtain ⟨id', a'⟩ := r'
  obtain ⟨rfl, ha⟩ := hr
  dsimp only
  rw [ha.address]
  exact .same _ fun _ => .same _ fun _ => .same _ fun _ => .same _ fun _ => .ok rfl

/-- A key change reads the account and writes the key, the nonce and the fee. -/
theorem ChangePubKey.related (h : Alike s s') (tx : ChangePubKey) :
    Related SameResult (tx.applyTx env s) (tx.applyTx env s') := by
  refine related_applyTx (fun op fee updates => ⟨fee, updates, .ChangePubKeyOffchain op⟩)
    (related_createOp h tx) fun op => ?_
  refine (related_expect (h.accounts _) _).bind fun a a' ha => ?_
  dsimp only
  rw [ha.balance, ha.nonce, ha.pubKeyHash]
  refine .same _ fun _ => .same _ fun nonce => .same _ fun _ => ?_
  have hkey : Account.Equiv { a with nonce := nonce, pubKeyHash := op.tx.newPkHash }
      { a' with nonce := nonce, pubKeyHash := op.tx.newPkHash } :=
    ⟨rfl, ha.address, rfl, ha.balance⟩
  refine (hkey.subBalance _ _).bind fun c c' hc => .ok ⟨?_, h.insert hc _⟩
  rw [hc.pubKeyHash, hc.nonce, hc.balance]

theorem ForcedExit.related_createOp (h : Alike s s') (tx : ForcedExit) :
    Related Eq (tx.createOp env s) (tx.createOp env s') := by
  unfold ForcedExit.createOp
  refine (related_okOrElse (h.accounts _) _).bind fun a a' ha => ?_
  rw [ha.pubKeyHash]
  refine .same _ fun _ => .same _ fun _ => ?_
  refine (h.getAccountByAddress _).bind fun r r' hr => ?_
  refine (related_okOrElse hr _).bind fun r r' hr => ?_
  obtain ⟨id, b⟩ := r
  obtain ⟨id', b'⟩ := r'
  obtain ⟨rfl, hb⟩ := hr
  dsimp only
  rw [hb.pubKeyHash, related_exitBalance h]
  exact .same _ fun _ => .ok rfl

/-- A forced exit takes the whole balance of the target, which is the same in both. -/
theorem ForcedExit.related (h : Alike s s') (tx : ForcedExit) :
    Related SameResult (tx.applyTx env s) (tx.applyTx env s') := by
  refine related_applyTx (fun op fee updates => ⟨fee, updates, .ForcedExit op⟩)
    (related_createOp h tx) fun op => ?_
  refine .same _ fun _ => ?_
  refine (related_expect (h.accounts _) _).bind fun a a' ha => ?_
  refine (related_expect (h.accounts _) _).bind fun b b' hb => ?_
  dsimp only
  rw [ha.balance, ha.nonce, hb.balance]
  refine .same _ fun _ => .same _ fun _ => .same _ fun _ => ?_
  refine (ha.subBalance _ _).bind fun c c' hc => ?_
  rw [hc.nonce]
  refine .same _ fun nonce => ?_
  refine (hb.subBalance _ _).bind fun d d' hd => .ok ⟨?_, (h.insert (hc.withNonce nonce) _).insert
    hd _⟩
  rw [(hc.withNonce nonce).balance, hd.nonce, hd.balance]

end Handlers

/-! ## Calls -/

namespace Alike

variable {env : Env} {s s' : ZkSyncState}

/-- What a transaction does depends on no more than what alike states share. -/
theorem executeTx (h : Alike s s') (tx : ZkSyncTx) :
    Related SameResult (s.executeTx env tx) (s'.executeTx env tx) := by
  cases tx with
  | Transfer tx => exact Transfer.related h tx
  | Withdraw tx => exact Withdraw.related h tx
  | Close tx => exact .error _
  | ChangePubKey tx => exact ChangePubKey.related h tx
  | ForcedExit tx => exact ForcedExit.related h tx

/-- The same for a priority operation. -/
theorem executePriorityOp (h : Alike s s') (op : ZkSyncPriorityOp) :
    Related SameResult (s.executePriorityOp op) (s'.executePriorityOp op) := by
  unfold ZkSyncState.executePriorityOp
  cases op with
  | Deposit op =>
    have hop := Deposit.related h op
    dsimp only
    generalize Deposit.applyTx s op = x at hop ⊢
    generalize Deposit.applyTx s' op = y at hop ⊢
    cases hop with
    | ok hr => exact .ok hr
    | error e => cases e <;> exact .error _
  | FullExit op =>
    have hop := FullExit.related h op
    dsimp only
    generalize FullExit.applyTx s op = x at hop ⊢
    generalize FullExit.applyTx s' op = y at hop ⊢
    cases hop with
    | ok hr => exact .ok hr
    | error e => cases e <;> exact .error _

theorem remove (h : Alike s s') (id : AccountId) :
    Alike (s.removeAccount id) (s'.removeAccount id) := by
  have hid := h.accounts id
  unfold ZkSyncState.removeAccount
  cases ho : s.getAccount id with
  | none =>
    rw [(h.getAccount_none id).mpr ho]
    exact h
  | some a =>
    rw [ho] at hid
    cases ho' : s'.getAccount id with
    | none =>
      rw [ho'] at hid
      cases hid
    | some a' =>
      rw [ho'] at hid
      cases hid with
      | some ha =>
        have hins := h.insert (Account.Equiv.refl Account.default) id
        refine ⟨hins.accounts, ?_, hins.size⟩
        show s'.accountIdByAddress.erase a'.address = s.accountIdByAddress.erase a.address
        rw [h.index, ha.address]

theorem applyAccountUpdate (h : Alike s s') (id : AccountId) (update : AccountUpdate) :
    Related Alike (s.applyAccountUpdate id update) (s'.applyAccountUpdate id update) := by
  cases update with
  | Create address nonce =>
    refine (h.getAccountByAddress _).bind fun r r' hr => ?_
    have hnone : r = none ↔ r' = none := by cases hr <;> simp
    simp only [hnone]
    exact .same _ fun _ => .ok (h.insert (Account.Equiv.refl _) id)
  | Delete address nonce =>
    refine (Outcome.related_expect (h.accounts _) _).bind fun a a' ha => ?_
    rw [ha.address, ha.nonce]
    exact .same _ fun _ => .same _ fun _ => .ok (h.remove id)
  | UpdateBalance oldNonce newNonce upd =>
    obtain ⟨token, oldBalance, newBalance⟩ := upd
    refine (Outcome.related_expect (h.accounts _) _).bind fun a a' ha => ?_
    rw [ha.balance, ha.nonce]
    exact .same _ fun _ => .same _ fun _ =>
      .ok (h.insert ((ha.setBalance token newBalance).withNonce newNonce) id)
  | ChangePubKeyHash oldPubKeyHash newPubKeyHash oldNonce newNonce =>
    refine (Outcome.related_expect (h.accounts _) _).bind fun a a' ha => ?_
    rw [ha.pubKeyHash, ha.nonce]
    have hkey : Account.Equiv { a with pubKeyHash := newPubKeyHash, nonce := newNonce }
        { a' with pubKeyHash := newPubKeyHash, nonce := newNonce } :=
      ⟨rfl, ha.address, rfl, ha.balance⟩
    exact .same _ fun _ => .same _ fun _ => .ok (h.insert hkey id)

/-- Updates that apply to one state apply to the other. -/
theorem applyAccountUpdates (us : AccountUpdates) : ∀ {s s' : ZkSyncState}, Alike s s' →
    Related Alike (s.applyAccountUpdates us) (s'.applyAccountUpdates us) := by
  induction us with
  | nil => exact fun h => .ok h
  | cons u us ih => exact fun h => (h.applyAccountUpdate u.1 u.2).bind fun _ _ h => ih h

/-- A batch that fails is undone alike. -/
theorem undo (successes : List OpSuccess) : ∀ {s s' : ZkSyncState}, Alike s s' →
    Related Alike (s.undo successes) (s'.undo successes) := by
  induction successes with
  | nil => exact fun h => .ok h
  | cons r rs ih => exact fun h => (h.applyAccountUpdates _).bind fun _ _ h => ih h

/-- A batch is executed transaction by transaction, and undone at the first failure. -/
theorem executeTxsBatchFrom (count : Nat) (txs : List SignedZkSyncTx) :
    ∀ (id : Nat) (successes : List OpSuccess) {s s' : ZkSyncState}, Alike s s' →
      Related SameResult (ZkSyncState.executeTxsBatchFrom env count id successes s txs)
        (ZkSyncState.executeTxsBatchFrom env count id successes s' txs) := by
  induction txs with
  | nil => exact fun _ _ _ _ h => .ok ⟨rfl, h⟩
  | cons tx txs ih =>
    intro id successes s s' h
    have htx : Related SameResult (s.executeTx env tx.tx) (s'.executeTx env tx.tx) :=
      h.executeTx tx.tx
    unfold ZkSyncState.executeTxsBatchFrom
    generalize s.executeTx env tx.tx = x at htx
    generalize s'.executeTx env tx.tx = y at htx
    cases htx with
    | @ok a b hr =>
      obtain ⟨r, s₁⟩ := a
      obtain ⟨r', s₁'⟩ := b
      obtain ⟨rfl, hs⟩ := hr
      exact ih _ _ hs
    | error e =>
      cases e with
      | panic message => exact .error _
      | error message => exact (h.undo _).bind fun _ _ h => .ok ⟨rfl, h⟩

/-- Alike states report the same of a batch, and stay alike also where it fails. -/
theorem executeTxsBatch (h : Alike s s') (txs : List SignedZkSyncTx) :
    Related SameResult (s.executeTxsBatch env txs) (s'.executeTxsBatch env txs) :=
  executeTxsBatchFrom _ _ _ _ h

/-- The fee account collects the same updates. -/
theorem collectFeeLoop (feeAccount : AccountId) (fees : List CollectedFee) :
    ∀ {a a' : Account} (us : AccountUpdates), a.Equiv a' →
      (ZkSyncState.collectFeeLoop feeAccount fees a us).1.Equiv
        (ZkSyncState.collectFeeLoop feeAccount fees a' us).1 ∧
      (ZkSyncState.collectFeeLoop feeAccount fees a us).2 =
        (ZkSyncState.collectFeeLoop feeAccount fees a' us).2 := by
  induction fees with
  | nil => exact fun _ ha => ⟨ha, rfl⟩
  | cons fee fees ih =>
    intro a a' us ha
    unfold ZkSyncState.collectFeeLoop
    split
    · exact ih us ha
    · have hadd := ha.addBalance fee.token fee.amount
      have hih := ih (us ++ [(feeAccount, .UpdateBalance a'.nonce a'.nonce (fee.token,
        a'.getBalance fee.token, (a'.addBalance fee.token fee.amount).getBalance fee.token))]) hadd
      rw [← hadd.balance, ← ha.balance, ← ha.nonce] at hih
      rw [← ha.balance, ← ha.nonce]
      dsimp only
      rw [← hadd.balance]
      exact hih

/-- Fees are collected by an account that is found in both states. -/
theorem collectFee (h : Alike s s') (fees : List CollectedFee) (feeAccount : AccountId) :
    Related SameResult (s.collectFee fees feeAccount) (s'.collectFee fees feeAccount) := by
  refine (Outcome.related_expect (h.accounts _) _).bind fun a a' ha => ?_
  obtain ⟨hequiv, hus⟩ := collectFeeLoop feeAccount fees [] ha
  exact .ok ⟨hus, h.insert hequiv _⟩

/-! ### Questions about the state -/

/-- The chunks of a transaction are decided by the index: a transfer to an unknown address
takes more. -/
theorem chunksForTx (h : Alike s s') (tx : ZkSyncTx) : s.chunksForTx tx = s'.chunksForTx tx := by
  cases tx with
  | Transfer tx =>
    have hr := h.getAccountByAddress tx.toAddress
    unfold ZkSyncState.chunksForTx
    dsimp only
    generalize s.getAccountByAddress tx.toAddress = x at hr
    generalize s'.getAccountByAddress tx.toAddress = y at hr
    cases hr with
    | error e => rfl
    | ok hr => cases hr <;> rfl
  | _ => rfl

theorem chunksForBatch (h : Alike s s') (txs : List SignedZkSyncTx) :
    s.chunksForBatch txs = s'.chunksForBatch txs := by
  induction txs with
  | nil => rfl
  | cons tx txs ih =>
    unfold ZkSyncState.chunksForBatch
    rw [h.chunksForTx, ih]

/-- Outcomes related by equality are equal. -/
theorem eq_of_related {α : Type} {x y : Outcome α} (h : Related Eq x y) : x = y := by
  cases h with
  | ok h => rw [h]
  | error e => rfl

theorem zksyncTxToZksyncOp (h : Alike s s') (tx : ZkSyncTx) :
    s.zksyncTxToZksyncOp env tx = s'.zksyncTxToZksyncOp env tx := by
  unfold ZkSyncState.zksyncTxToZksyncOp
  cases tx with
  | Transfer tx => dsimp only; rw [eq_of_related (Transfer.related_createOp h tx)]
  | Withdraw tx => dsimp only; rw [eq_of_related (Withdraw.related_createOp h tx)]
  | Close tx => rfl
  | ChangePubKey tx => dsimp only; rw [eq_of_related (ChangePubKey.related_createOp h tx)]
  | ForcedExit tx => dsimp only; rw [eq_of_related (ForcedExit.related_createOp h tx)]

theorem priorityOpToZksyncOp (h : Alike s s') (op : ZkSyncPriorityOp) :
    s.priorityOpToZksyncOp op = s'.priorityOpToZksyncOp op := by
  unfold ZkSyncState.priorityOpToZksyncOp
  cases op with
  | Deposit op => dsimp only; rw [eq_of_related (Deposit.related_createOp h op)]
  | FullExit op => dsimp only; rw [eq_of_related (FullExit.related_createOp h op)]

/-- Hashing fills the caches of the tree and nothing else. -/
theorem items_of_rootHash {H : Hasher Fr} {hash : Fr} (h : s.rootHash H = .ok (hash, s')) :
    s'.accountIdByAddress = s.accountIdByAddress ∧
      s'.balanceTree.tree.items = s.balanceTree.tree.items := by
  unfold ZkSyncState.rootHash at h
  rw [Outcome.bind_eq_ok] at h
  obtain ⟨⟨hash', t⟩, ht, h⟩ := h
  cases h
  unfold AccountTree.rootHash at ht
  split at ht
  next hash'' tree hroot =>
    cases ht
    refine ⟨rfl, ?_⟩
    show tree.items = _
    rw [SparseMerkleTree.rootHash_frame hroot]
  next => cases ht

/-- Hashing fills the cache only. -/
theorem of_rootHash {H : Hasher Fr} {hash : Fr} (h : s.rootHash H = .ok (hash, s')) :
    Alike s s' := by
  obtain ⟨hindex, hitems⟩ := items_of_rootHash h
  have hget : s'.getAccount = s.getAccount :=
    funext fun id => congrArg (fun items => Finmap.lookup id.toNat items) hitems
  refine ⟨fun id => ?_, hindex, by rw [hitems]⟩
  rw [hget]
  exact (Alike.refl s).accounts id

end Alike

end ZkSync
