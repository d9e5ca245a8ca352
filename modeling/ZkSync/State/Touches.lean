import ZkSync.State.Rollback

/-!
# What one transaction touches

Three readings of the cases of `TxEffect`, each for one thing that undoing a
batch may leave behind: whether the transaction creates an account
(`TxEffect.creates`), of which tokens it writes balances (`TxEffect.tokens`),
and which account it writes first under an address (`TxEffect.owners`).
-/

namespace ZkSync

/-- The addresses of the accounts a transaction writes, given the addresses of
the accounts. -/
def ZkSyncTx.touches (adr : AccountId → Option Address) : ZkSyncTx → List Address
  | .Transfer tx => [tx.fromAddress, tx.toAddress]
  | .Withdraw tx => [tx.fromAddress]
  | .Close _ => []
  | .ChangePubKey tx => [tx.account]
  | .ForcedExit tx => (adr tx.initiatorAccountId).toList ++ [tx.target]

section Transaction

variable {env : Env} {s s' : ZkSyncState} {tx : ZkSyncTx} {r : OpSuccess}

theorem addressOf_some {id : AccountId} {a : Account} (h : s.getAccount id = some a) :
    Ledger.addressOf s.getAccount id = some a.address := by
  unfold Ledger.addressOf
  rw [h]
  rfl

/-- A transaction creates an account at the free id, or none at all. -/
theorem TxEffect.creates (h : TxEffect env s tx r s') :
    (∃ t, tx = .Transfer t ∧ s.accountIdByAddress.lookup t.toAddress = none ∧
      s.getAccount s.getFreeAccountId = none ∧ (s'.getAccount s.getFreeAccountId).isSome) ∨
    (NoCreate r.updates ∧ ∀ t, tx = .Transfer t → t.toAddress ≠ 0 ∧
      ∃ j, s.accountIdByAddress.lookup t.toAddress = some j) := by
  cases h with
  | transfer _ notZero target =>
    refine Or.inr ⟨noCreate_updateBalance (noCreate_updateBalance noCreate_nil), fun t ht => ?_⟩
    cases ht
    exact ⟨notZero, _, target⟩
  | transferToSelf _ notZero target =>
    refine Or.inr ⟨noCreate_updateBalance noCreate_nil, fun t ht => ?_⟩
    cases ht
    exact ⟨notZero, _, target⟩
  | transferToNew _ _ target free =>
    refine Or.inl ⟨_, rfl, target, free, ?_⟩
    rw [ZkSyncState.getAccount_insertAccount_self]
    rfl
  | withdraw =>
    exact Or.inr ⟨noCreate_updateBalance noCreate_nil, fun t ht => by cases ht⟩
  | changePubKey =>
    exact Or.inr ⟨noCreate_cons (fun _ _ h => by cases h) (noCreate_updateBalance noCreate_nil),
      fun t ht => by cases ht⟩
  | forcedExit =>
    exact Or.inr ⟨noCreate_updateBalance (noCreate_updateBalance noCreate_nil),
      fun t ht => by cases ht⟩

theorem maxTokenId_lt {token : TokenId} (h : token ≤ maxTokenId) :
    token.toNat < 2 ^ balanceTreeDepth := by
  have hle := UInt16.le_iff_toNat_le.mp h
  have hmax : maxTokenId.toNat = 127 := rfl
  rw [hmax] at hle
  unfold balanceTreeDepth
  omega

theorem writesBalance_cons {id id' : AccountId} {n n' : Nonce} {token token' : TokenId}
    {old new : Nat} {us : AccountUpdates}
    (h : WritesBalance ((id', .UpdateBalance n n' (token', old, new)) :: us) id token) :
    (id = id' ∧ token = token') ∨ WritesBalance us id token := by
  obtain ⟨m, m', o, b, h⟩ := h
  rcases List.mem_cons.mp h with h | h
  · cases h
    exact Or.inl ⟨rfl, rfl⟩
  · exact Or.inr ⟨m, m', o, b, h⟩

theorem not_writesBalance_nil {id : AccountId} {token : TokenId} : ¬ WritesBalance [] id token :=
  fun ⟨_, _, _, _, h⟩ => List.not_mem_nil h

/-- The tokens a transaction writes are of the balance tree, but for the fee
token of a key change. -/
theorem TxEffect.tokens (h : TxEffect env s tx r s') {id : AccountId} {token : TokenId}
    (hw : WritesBalance r.updates id token) :
    token.toNat < 2 ^ balanceTreeDepth ∨ ∃ c, tx = .ChangePubKey c ∧ token = c.feeToken := by
  cases h with
  | transfer sender =>
    rcases writesBalance_cons hw with ⟨-, rfl⟩ | hw
    · exact Or.inl (maxTokenId_lt sender.token_le)
    · rcases writesBalance_cons hw with ⟨-, rfl⟩ | hw
      · exact Or.inl (maxTokenId_lt sender.token_le)
      · exact absurd hw not_writesBalance_nil
  | transferToSelf sender =>
    rcases writesBalance_cons hw with ⟨-, rfl⟩ | hw
    · exact Or.inl (maxTokenId_lt sender.token_le)
    · exact absurd hw not_writesBalance_nil
  | transferToNew sender =>
    obtain ⟨m, m', o, b, hw⟩ := hw
    rcases List.mem_cons.mp hw with hw | hw
    · cases hw
    · rcases writesBalance_cons ⟨m, m', o, b, hw⟩ with ⟨-, rfl⟩ | hw
      · exact Or.inl (maxTokenId_lt sender.token_le)
      · rcases writesBalance_cons hw with ⟨-, rfl⟩ | hw
        · exact Or.inl (maxTokenId_lt sender.token_le)
        · exact absurd hw not_writesBalance_nil
  | withdraw sender =>
    rcases writesBalance_cons hw with ⟨-, rfl⟩ | hw
    · exact Or.inl (maxTokenId_lt sender.token_le)
    · exact absurd hw not_writesBalance_nil
  | @changePubKey c =>
    obtain ⟨m, m', o, b, hw⟩ := hw
    rcases List.mem_cons.mp hw with hw | hw
    · cases hw
    · rcases writesBalance_cons ⟨m, m', o, b, hw⟩ with ⟨-, rfl⟩ | hw
      · exact Or.inr ⟨c, rfl, rfl⟩
      · exact absurd hw not_writesBalance_nil
  | forcedExit _ _ token_le =>
    rcases writesBalance_cons hw with ⟨-, rfl⟩ | hw
    · exact Or.inl (maxTokenId_lt token_le)
    · rcases writesBalance_cons hw with ⟨-, rfl⟩ | hw
      · exact Or.inl (maxTokenId_lt token_le)
      · exact absurd hw not_writesBalance_nil

/-- A key change writes its fee token at its account. -/
theorem TxEffect.writes_feeToken {c : ChangePubKey} (h : TxEffect env s (.ChangePubKey c) r s') :
    (s.getAccount c.accountId).isSome ∧ WritesBalance r.updates c.accountId c.feeToken := by
  cases h with
  | changePubKey _ account =>
    exact ⟨Option.isSome_iff_exists.mpr ⟨_, account⟩, _, _, _, _,
      List.mem_cons_of_mem _ List.mem_cons_self⟩

theorem firstOwner_cons (adr : AccountId → Option Address) (id : AccountId)
    (update : AccountUpdate) (us : AccountUpdates) (address : Address) (now : Option AccountId) :
    firstOwner adr ((id, update) :: us) address now =
      if adr id = some address then some id else firstOwner adr us address now := rfl

theorem firstOwner_nil (adr : AccountId → Option Address) (address : Address)
    (now : Option AccountId) : firstOwner adr [] address now = now := rfl

/-- What a transaction that creates no account does to the index, and to the
first owner of an address: nothing to an address it does not touch; under one
it touches, the first account it writes is the one the index held, but for the
initiator of a forced exit. -/
structure Owners (s : ZkSyncState) (tx : ZkSyncTx) (us : AccountUpdates) (s' : ZkSyncState)
    (address : Address) : Prop where
  untouched : address ∉ tx.touches (Ledger.addressOf s.getAccount) →
    s'.accountIdByAddress.lookup address = s.accountIdByAddress.lookup address ∧
    ∀ now, firstOwner (Ledger.addressOf s.getAccount) us address now = now
  touched : address ∈ tx.touches (Ledger.addressOf s.getAccount) →
    (∃ fx, tx = .ForcedExit fx ∧
      Ledger.addressOf s.getAccount fx.initiatorAccountId = some address ∧
      ∀ now, firstOwner (Ledger.addressOf s.getAccount) us address now =
        some fx.initiatorAccountId) ∨
    ((∀ fx, tx = .ForcedExit fx →
        Ledger.addressOf s.getAccount fx.initiatorAccountId ≠ some address) ∧
      ∀ now, firstOwner (Ledger.addressOf s.getAccount) us address now =
        s.accountIdByAddress.lookup address)

theorem Indexed.addressOf (hs : Indexed s) {address : Address} {id : AccountId}
    (h : s.accountIdByAddress.lookup address = some id) :
    Ledger.addressOf s.getAccount id = some address := by
  obtain ⟨a, ha, hadr⟩ := hs address id h
  rw [addressOf_some ha, hadr]

/-- A transaction that writes one account, found in the index. -/
theorem owners_one (tx : ZkSyncTx) (hs : Indexed s) {i : AccountId} {address' : Address} {a' : Account}
    {update : AccountUpdate} {us : AccountUpdates} (hi : s.accountIdByAddress.lookup address' = some i)
    (hadr : a'.address = address') (hus : ∀ u ∈ us, u.1 = i)
    (htouches : ∀ x, x ∈ tx.touches (Ledger.addressOf s.getAccount) ↔ x = address')
    (hfx : ∀ fx, tx ≠ .ForcedExit fx) (address : Address) :
    Owners s tx ((i, update) :: us) (s.insertAccount i a') address := by
  have hof := hs.addressOf hi
  refine ⟨fun hnot => ?_, fun hin => Or.inr ⟨fun fx h => absurd h (hfx fx), fun now => ?_⟩⟩
  · rw [htouches] at hnot
    have hne : Ledger.addressOf s.getAccount i ≠ some address := by
      rw [hof]
      exact fun h => hnot (Option.some.inj h).symm
    refine ⟨by rw [ZkSyncState.lookup_insertAccount, hadr, if_neg hnot], fun now => ?_⟩
    rw [firstOwner_cons, if_neg hne]
    induction us with
    | nil => rfl
    | cons u us ih =>
      obtain ⟨id, update'⟩ := u
      have hid : id = i := hus _ List.mem_cons_self
      rw [firstOwner_cons, hid, if_neg hne]
      exact ih fun v hv => hus v (List.mem_cons_of_mem _ hv)
  · rw [htouches] at hin
    rw [firstOwner_cons, hin, if_pos hof, hi]

theorem TxEffect.owners (hs : Indexed s) (h : TxEffect env s tx r s') (hno : NoCreate r.updates)
    (address : Address) : Owners s tx r.updates s' address := by
  cases h with
  | @transfer t j a b sender _ target targetAccount =>
    -- the sender pays, and the receiver gets what was sent
    have hi := hs.addressOf sender.index
    have hj := hs.addressOf target
    have hadr : a.address = t.fromAddress := Option.some.inj ((addressOf_some sender.account).symm.trans hi)
    have hadr' : b.address = t.toAddress := Option.some.inj ((addressOf_some targetAccount).symm.trans hj)
    refine ⟨fun hnot => ?_, fun hin => Or.inr ⟨fun fx h => (by cases h), fun now => ?_⟩⟩
    · simp only [ZkSyncTx.touches, List.mem_cons, List.not_mem_nil, or_false, not_or] at hnot
      refine ⟨?_, fun now => ?_⟩
      · rw [ZkSyncState.lookup_insertAccount, ZkSyncState.lookup_insertAccount]
        rw [if_neg (fun h => hnot.2 (h.trans hadr')), if_neg (fun h => hnot.1 (h.trans hadr))]
      · rw [firstOwner_cons, firstOwner_cons, hi, hj, if_neg (fun h => hnot.1 (Option.some.inj h).symm),
          if_neg (fun h => hnot.2 (Option.some.inj h).symm), firstOwner_nil]
    · simp only [ZkSyncTx.touches, List.mem_cons, List.not_mem_nil, or_false] at hin
      rw [firstOwner_cons, firstOwner_cons, hi, hj]
      by_cases hf : address = t.fromAddress
      · rw [hf, if_pos rfl, sender.index]
      · rw [if_neg (fun h => hf (Option.some.inj h).symm), if_pos (by rw [hin.resolve_left hf]),
          hin.resolve_left hf, target]
  | @transferToSelf t a sender _ target =>
    -- nothing but the fee leaves the account
    have hi := hs.addressOf sender.index
    have hadr : a.address = t.fromAddress := Option.some.inj ((addressOf_some sender.account).symm.trans hi)
    have hsame : t.fromAddress = t.toAddress :=
      Option.some.inj (hi.symm.trans (hs.addressOf target))
    refine owners_one (.Transfer t) hs sender.index ?_ ?_ (fun x => ?_) (fun fx h => by cases h)
      address
    · exact hadr
    · exact fun u hu => absurd hu List.not_mem_nil
    · simp only [ZkSyncTx.touches, ← hsame, List.mem_cons, List.not_mem_nil, or_false, or_self]
  | transferToNew => exact absurd rfl (hno _ List.mem_cons_self _ _)
  | @withdraw t a sender =>
    have hadr : a.address = t.fromAddress :=
      Option.some.inj ((addressOf_some sender.account).symm.trans (hs.addressOf sender.index))
    refine owners_one (.Withdraw t) hs sender.index ?_ ?_ (fun x => List.mem_singleton)
      (fun fx h => by cases h) address
    · exact hadr
    · exact fun u hu => absurd hu List.not_mem_nil
  | @changePubKey c a index account =>
    have hadr : a.address = c.account :=
      Option.some.inj ((addressOf_some account).symm.trans (hs.addressOf index))
    refine owners_one (.ChangePubKey c) hs index ?_ (fun u hu => ?_) (fun x => List.mem_singleton)
      (fun fx h => by cases h) address
    · exact hadr
    · rw [List.mem_singleton.mp hu]
  | @forcedExit fx j a b _ account _ _ target targetAccount =>
    -- the initiator pays, and the target is emptied
    have hi := addressOf_some account
    have hj := hs.addressOf target
    have hadr' : b.address = fx.target := Option.some.inj ((addressOf_some targetAccount).symm.trans hj)
    have htouches : (ZkSyncTx.ForcedExit fx).touches (Ledger.addressOf s.getAccount) =
        [a.address, fx.target] := by
      show (Ledger.addressOf s.getAccount fx.initiatorAccountId).toList ++ [fx.target] = _
      rw [hi]
      rfl
    refine ⟨fun hnot => ?_, fun hin => ?_⟩
    · rw [htouches] at hnot
      simp only [List.mem_cons, List.not_mem_nil, or_false, not_or] at hnot
      refine ⟨?_, fun now => ?_⟩
      · rw [ZkSyncState.lookup_insertAccount, ZkSyncState.lookup_insertAccount]
        rw [if_neg (fun h => hnot.2 (h.trans hadr')), Account.debit_address,
          if_neg (fun h => hnot.1 h)]
      · rw [firstOwner_cons, firstOwner_cons, hi, hj, if_neg (fun h => hnot.1 (Option.some.inj h).symm),
          if_neg (fun h => hnot.2 (Option.some.inj h).symm), firstOwner_nil]
    · rw [htouches] at hin
      simp only [List.mem_cons, List.not_mem_nil, or_false] at hin
      by_cases hf : address = a.address
      · refine Or.inl ⟨fx, rfl, by rw [hi, hf], fun now => ?_⟩
        rw [firstOwner_cons, hi, hf, if_pos rfl]
      · refine Or.inr ⟨fun fx' h => ?_, fun now => ?_⟩
        · cases h
          rw [hi]
          exact fun h => hf (Option.some.inj h).symm
        · rw [firstOwner_cons, firstOwner_cons, hi, hj, if_neg (fun h => hf (Option.some.inj h).symm),
            if_pos (by rw [hin.resolve_left hf]), hin.resolve_left hf, target]

end Transaction

end ZkSync
