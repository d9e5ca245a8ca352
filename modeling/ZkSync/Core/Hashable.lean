import ZkSync.Core.Chunks
import ZkSync.State.Restart

/-!
# Keepers that can ask for the root hash

A balance has a leaf in the balance tree if its token is one of the first
2^11. Every handler checks the token it writes, but for the fee token of a key
change. `Hashable` says of a keeper that all balances, and the fees it has
collected, have leaves: then paying the fees and asking for the root hash do
not panic (`Hashable.rootHash`), and calls without odd fee tokens keep it so
(`Hashable.step`).
-/

namespace ZkSync

/-- The token has a leaf in the balance tree. -/
def HasLeaf (token : TokenId) : Prop := token.toNat < 2 ^ balanceTreeDepth

/-- Every account of the state has bits. -/
def AllFit (s : ZkSyncState) : Prop := ∀ id a, s.getAccount id = some a → a.Fits

/-- The fee token of a key change has a leaf. -/
def ZkSyncTx.FeeTokenOk : ZkSyncTx → Prop
  | .ChangePubKey tx => HasLeaf tx.feeToken
  | _ => True

/-- The key changes of a call pay in tokens with leaves. -/
def KeeperCall.FeeTokenOk : KeeperCall → Prop
  | .tx request => request.tx.FeeTokenOk
  | .batch txs _ => ∀ request ∈ txs, request.tx.FeeTokenOk
  | _ => True

namespace Account.Fits

variable {a : Account}

/-- An account fits as before if the token that is set has a leaf. -/
theorem setBalance_iff {token : TokenId} {amount : Nat} :
    (a.setBalance token amount).Fits ↔ a.Fits ∧ HasLeaf token := by
  refine ⟨fun h => ⟨fun token' ht => h token' (Finmap.mem_insert.mpr (Or.inr ht)),
    h token (Finmap.mem_insert.mpr (Or.inl rfl))⟩, fun ⟨h, htok⟩ token' ht => ?_⟩
  rcases Finmap.mem_insert.mp ht with rfl | ht
  · exact htok
  · exact h token' ht

/-- A debit touches the balance and the nonce. -/
theorem debit_iff {token : TokenId} {amount : Nat} :
    (a.debit token amount).Fits ↔ a.Fits ∧ HasLeaf token :=
  (setBalance_iff : (a.setBalance token (a.getBalance token - amount)).Fits ↔ _)

/-- Writing a balance that has a leaf. -/
theorem setBalance_leaf {token : TokenId} (htok : HasLeaf token) (amount : Nat) :
    (a.setBalance token amount).Fits ↔ a.Fits :=
  setBalance_iff.trans (and_iff_left htok)

/-- A token with a leaf does no harm. -/
theorem addBalance_leaf {token : TokenId} (htok : HasLeaf token) (amount : Nat) :
    (a.addBalance token amount).Fits ↔ a.Fits :=
  setBalance_leaf htok _

theorem debit_leaf {token : TokenId} (htok : HasLeaf token) (amount : Nat) :
    (a.debit token amount).Fits ↔ a.Fits :=
  debit_iff.trans (and_iff_left htok)

/-- Setting a balance whose token has a leaf keeps the account fitting. -/
theorem setBalance (h : a.Fits) {token : TokenId} (htok : HasLeaf token) (amount : Nat) :
    (a.setBalance token amount).Fits :=
  setBalance_iff.mpr ⟨h, htok⟩

theorem addBalance (h : a.Fits) {token : TokenId} (htok : HasLeaf token) (amount : Nat) :
    (a.addBalance token amount).Fits :=
  h.setBalance htok _

theorem default (address : Address) : (Account.defaultWithAddress address).Fits :=
  fun _ ht => absurd ht Finmap.notMem_empty

end Account.Fits

section States

variable {env : Env} {s s' : ZkSyncState}

/-- One account that fits more. -/
theorem allFit_insertAccount (h : AllFit s) (id : AccountId) {a : Account} (ha : a.Fits) :
    AllFit (s.insertAccount id a) := by
  intro id' b hb
  rw [ZkSyncState.getAccount_insertAccount, Function.update_apply] at hb
  split at hb
  next => exact Option.some.inj hb ▸ ha
  next => exact h id' b hb

/-- Writing over an account. -/
theorem allFit_over {id : AccountId} {a b : Account} {p : Prop} (ha : s.getAccount id = some a)
    (hb : b.Fits ↔ a.Fits ∧ p) : AllFit (s.insertAccount id b) ↔ AllFit s ∧ p := by
  refine ⟨fun h => ?_, fun ⟨h, hp⟩ => allFit_insertAccount h id (hb.mpr ⟨h id a ha, hp⟩)⟩
  have hfit := hb.mp (h id b (s.getAccount_insertAccount_self id b))
  refine ⟨fun id' a' ha' => ?_, hfit.2⟩
  by_cases hid : id' = id
  · subst hid
    rw [ha] at ha'
    exact Option.some.inj ha' ▸ hfit.1
  · exact h id' a' (by rw [s.getAccount_insertAccount_of_ne id b hid]; exact ha')

/-- Writing over an account in a token with a leaf. -/
theorem allFit_over_leaf {id : AccountId} {a b : Account} (ha : s.getAccount id = some a)
    (hb : b.Fits ↔ a.Fits) : AllFit (s.insertAccount id b) ↔ AllFit s := by
  have hiff := allFit_over (p := True) ha (hb.trans (iff_of_eq (and_true _)).symm)
  exact hiff.trans (iff_of_eq (and_true _))

/-- Creating an account that fits. -/
theorem allFit_create {id : AccountId} {b : Account} (ha : s.getAccount id = none) (hb : b.Fits) :
    AllFit (s.insertAccount id b) ↔ AllFit s := by
  refine ⟨fun h id' a' ha' => h id' a' ?_, fun h => allFit_insertAccount h id hb⟩
  have hid : id' ≠ id := by
    rintro rfl
    rw [ha] at ha'
    cases ha'
  rw [s.getAccount_insertAccount_of_ne id b hid]
  exact ha'

/-- Two accounts of the state, which may be one, in a token with a leaf. -/
theorem allFit_over_two {i j : AccountId} {a b a' b' : Account} (ha : s.getAccount i = some a)
    (hb : s.getAccount j = some b) (ha' : a'.Fits ↔ a.Fits) (hb' : b'.Fits ↔ b.Fits) :
    AllFit ((s.insertAccount i a').insertAccount j b') ↔ AllFit s := by
  by_cases hij : j = i
  · subst hij
    rw [ha] at hb
    obtain rfl := Option.some.inj hb
    rw [allFit_over_leaf (s.getAccount_insertAccount_self j a') (hb'.trans ha'.symm),
      allFit_over_leaf ha ha']
  · rw [allFit_over_leaf (by rw [s.getAccount_insertAccount_of_ne i a' hij, hb]) hb',
      allFit_over_leaf ha ha']

/-- After a transaction all accounts fit if they did before, and the fee token of a
key change has a leaf. -/
theorem TxEffect.allFit_iff {tx : ZkSyncTx} {r : OpSuccess} (h : TxEffect env s tx r s') :
    AllFit s' ↔ AllFit s ∧ tx.FeeTokenOk := by
  cases h with
  | transfer sender _ _ targetAccount =>
    have hleaf : HasLeaf _ := maxTokenId_lt sender.token_le
    show _ ↔ AllFit s ∧ True
    rw [and_true]
    exact allFit_over_two sender.account targetAccount (Account.Fits.debit_leaf hleaf _)
      (Account.Fits.addBalance_leaf hleaf _)
  | transferToSelf sender =>
    show _ ↔ AllFit s ∧ True
    rw [and_true]
    exact allFit_over_leaf sender.account
      (Account.Fits.debit_leaf (maxTokenId_lt sender.token_le) _)
  | @transferToNew t a sender _ _ free =>
    have hleaf : HasLeaf _ := maxTokenId_lt sender.token_le
    have ne : s.getFreeAccountId ≠ t.accountId := by
      intro h
      rw [h, sender.account] at free
      cases free
    show _ ↔ AllFit s ∧ True
    rw [and_true, allFit_create (by rw [ZkSyncState.getAccount_insertAccount_of_ne _ _ _ ne, free])
      ((Account.Fits.default _).addBalance hleaf _),
      allFit_over_leaf sender.account (Account.Fits.debit_leaf hleaf _)]
  | withdraw sender =>
    show _ ↔ AllFit s ∧ True
    rw [and_true]
    exact allFit_over_leaf sender.account
      (Account.Fits.debit_leaf (maxTokenId_lt sender.token_le) _)
  | @changePubKey tx a _ account =>
    exact allFit_over (p := HasLeaf tx.feeToken) account
      (Account.Fits.debit_iff : (a.debit tx.feeToken tx.fee).Fits ↔ _)
  | forcedExit account _ token_le _ targetAccount =>
    have hleaf : HasLeaf _ := maxTokenId_lt token_le
    show _ ↔ AllFit s ∧ True
    rw [and_true]
    exact allFit_over_two account targetAccount (Account.Fits.debit_leaf hleaf _)
      (Account.Fits.setBalance_leaf hleaf _)

/-- Transactions only touch tokens that have leaves, but for the fee of a key change. -/
theorem TxEffect.allFit {tx : ZkSyncTx} {r : OpSuccess} (h : TxEffect env s tx r s')
    (hs : AllFit s) (htok : tx.FeeTokenOk) : AllFit s' :=
  h.allFit_iff.mpr ⟨hs, htok⟩

/-- A fee is paid in a token with a leaf. -/
theorem TxEffect.fee_hasLeaf {tx : ZkSyncTx} {r : OpSuccess} (h : TxEffect env s tx r s')
    (htok : tx.FeeTokenOk) : ∀ fee ∈ r.fee, HasLeaf fee.token := by
  intro fee hfee
  cases h with
  | transfer sender =>
    cases hfee
    exact maxTokenId_lt sender.token_le
  | transferToSelf sender =>
    cases hfee
    exact maxTokenId_lt sender.token_le
  | transferToNew sender =>
    cases hfee
    exact maxTokenId_lt sender.token_le
  | withdraw sender =>
    cases hfee
    exact maxTokenId_lt sender.token_le
  | changePubKey =>
    cases hfee
    exact htok
  | forcedExit _ _ token_le =>
    cases hfee
    exact maxTokenId_lt token_le

/-- Priority operations name tokens of the contract, which all have leaves. -/
theorem PriorityEffect.allFit_iff {op : ZkSyncPriorityOp} {r : OpSuccess}
    (h : PriorityEffect s op r s') : AllFit s' ↔ AllFit s := by
  cases h with
  | deposit token_le _ account =>
    exact allFit_over_leaf account (Account.Fits.addBalance_leaf (maxTokenId_lt token_le) _)
  | depositToNew token_le _ free =>
    exact allFit_create free ((Account.Fits.default _).addBalance (maxTokenId_lt token_le) _)
  | fullExit token_le account =>
    exact allFit_over_leaf account (Account.Fits.setBalance_leaf (maxTokenId_lt token_le) _)
  | fullExitRefused => exact Iff.rfl

theorem PriorityEffect.allFit {op : ZkSyncPriorityOp} {r : OpSuccess} (h : PriorityEffect s op r s')
    (hs : AllFit s) : AllFit s' :=
  h.allFit_iff.mpr hs

/-- They pay no fee. -/
theorem PriorityEffect.fee_none {op : ZkSyncPriorityOp} {r : OpSuccess}
    (h : PriorityEffect s op r s') : r.fee = none := by
  cases h <;> rfl

/-- The fee account collects tokens that have leaves. -/
theorem collectFeeLoop_fits (id : AccountId) (fees : List CollectedFee) (a : Account)
    (us : AccountUpdates) (hfees : ∀ fee ∈ fees, HasLeaf fee.token) (ha : a.Fits) :
    (ZkSyncState.collectFeeLoop id fees a us).1.Fits := by
  induction fees generalizing a us with
  | nil => exact ha
  | cons fee fees ih =>
    have hrest : ∀ fee ∈ fees, HasLeaf fee.token := fun f hf => hfees f (List.mem_cons_of_mem _ hf)
    unfold ZkSyncState.collectFeeLoop
    split
    next => exact ih a us hrest ha
    next => exact ih _ _ hrest (ha.addBalance (hfees fee List.mem_cons_self) _)

/-- So it fits behind the fees. -/
theorem allFit_collectFee {fees : List CollectedFee} {feeAccount : AccountId} {us : AccountUpdates}
    (h : s.collectFee fees feeAccount = .ok (us, s')) (hs : AllFit s)
    (hfees : ∀ fee ∈ fees, HasLeaf fee.token) : AllFit s' := by
  unfold ZkSyncState.collectFee at h
  simp only [Outcome.bind_eq_ok, Outcome.expect_eq_ok] at h
  obtain ⟨a, ha, h⟩ := h
  cases h
  exact allFit_insertAccount hs _ (collectFeeLoop_fits _ _ _ _ hfees (hs _ _ ha))

/-- Hashing touches no account. -/
theorem allFit_rootHash {H : Hasher Fr} {hash : Fr} (h : s.rootHash H = .ok (hash, s'))
    (hs : AllFit s) : AllFit s' := by
  unfold AllFit
  rw [getAccount_of_rootHash h]
  exact hs

/-- A state whose accounts fit has a root hash. -/
theorem exists_rootHash {H : Hasher Fr} (h : Hashed H s) (hs : AllFit s) :
    ∃ hash s', s.rootHash H = .ok (hash, s') := by
  rcases rootHash_cases h with ⟨⟨hash, hroot⟩, -⟩ | ⟨-, id, a, ha, hnot⟩
  · unfold ZkSyncState.root at hroot
    obtain ⟨⟨hash', s'⟩, hok, -⟩ := Outcome.map_eq_ok.mp hroot
    exact ⟨hash', s', hok⟩
  · exact absurd (hs id a ha) hnot

/-- A removed account is the empty one, which fits. -/
theorem allFit_removeAccount (h : AllFit s) (id : AccountId) : AllFit (s.removeAccount id) := by
  intro id' b hb
  cases ha : s.getAccount id with
  | none =>
    rw [removeAccount_of_none ha] at hb
    exact h id' b hb
  | some a =>
    rw [getAccount_removeAccount ha, Function.update_apply] at hb
    split at hb
    next => exact Option.some.inj hb ▸ Account.Fits.default 0
    next => exact h id' b hb

/-- Updates of tokens with leaves keep all accounts fitting. -/
theorem allFit_applyAccountUpdates {us : AccountUpdates} (hs : AllFit s)
    (hus : ∀ id token, WritesBalance us id token → HasLeaf token)
    (h : s.applyAccountUpdates us = .ok s') : AllFit s' := by
  induction us generalizing s with
  | nil =>
    cases h
    exact hs
  | cons u us ih =>
    obtain ⟨id, update⟩ := u
    unfold ZkSyncState.applyAccountUpdates at h
    rw [Outcome.bind_eq_ok] at h
    obtain ⟨s₁, h₁, h⟩ := h
    have hrest : ∀ id token, WritesBalance us id token → HasLeaf token := by
      rintro id token ⟨n, n', o, b, hw⟩
      exact hus id token ⟨n, n', o, b, List.mem_cons_of_mem _ hw⟩
    refine ih ?_ hrest h
    cases update with
    | Create address nonce =>
      simp only [ZkSyncState.applyAccountUpdate, Outcome.bind_eq_ok] at h₁
      obtain ⟨_, -, _, -, h₁⟩ := h₁
      cases h₁
      exact allFit_insertAccount hs _ (Account.Fits.default address)
    | Delete address nonce =>
      simp only [ZkSyncState.applyAccountUpdate, Outcome.bind_eq_ok] at h₁
      obtain ⟨_, -, _, -, _, -, h₁⟩ := h₁
      cases h₁
      exact allFit_removeAccount hs id
    | UpdateBalance oldNonce newNonce upd =>
      obtain ⟨token, oldBalance, newBalance⟩ := upd
      simp only [ZkSyncState.applyAccountUpdate, Outcome.bind_eq_ok, Outcome.expect_eq_ok] at h₁
      obtain ⟨a, ha, _, -, _, -, h₁⟩ := h₁
      cases h₁
      exact allFit_insertAccount hs _ ((hs id a ha).setBalance
        (hus id token ⟨_, _, _, _, List.mem_cons_self⟩) newBalance)
    | ChangePubKeyHash oldPubKeyHash newPubKeyHash oldNonce newNonce =>
      simp only [ZkSyncState.applyAccountUpdate, Outcome.bind_eq_ok, Outcome.expect_eq_ok] at h₁
      obtain ⟨a, ha, _, -, _, -, h₁⟩ := h₁
      cases h₁
      exact allFit_insertAccount hs _ (hs id a ha)

/-- A run of transactions without odd fee tokens. -/
theorem allFit_txRun {es : List Executed} (h : Run (TxStep env) s es s') (hs : AllFit s)
    (htok : ∀ e ∈ es, e.1.FeeTokenOk) :
    AllFit s' ∧ (∀ id token, WritesBalance (updatesOf es) id token → HasLeaf token) ∧
      ∀ e ∈ es, ∀ fee ∈ e.2.fee, HasLeaf fee.token := by
  induction h with
  | nil =>
    exact ⟨hs, fun id token hw => absurd hw not_writesBalance_nil,
      fun e he => absurd he List.not_mem_nil⟩
  | @cons s s₁ s' e es hstep _ ih =>
    have heff := executeTx_effect hstep
    have hfirst := htok e List.mem_cons_self
    obtain ⟨hfit, hus, hfees⟩ := ih (heff.allFit hs hfirst)
      fun e he => htok e (List.mem_cons_of_mem _ he)
    refine ⟨hfit, fun id token hw => ?_, fun e' he' => ?_⟩
    · unfold updatesOf at hw hus
      rw [List.flatMap_cons, writesBalance_append] at hw
      rcases hw with hw | hw
      · rcases heff.tokens hw with h | ⟨c, hc, rfl⟩
        · exact h
        · rw [hc] at hfirst
          exact hfirst
      · exact hus id token hw
    · rcases List.mem_cons.mp he' with rfl | he'
      · exact heff.fee_hasLeaf hfirst
      · exact hfees e' he'

/-- A batch, undone or not. -/
theorem allFit_batch {txs : List SignedZkSyncTx} {results : BatchResults}
    (h : s.executeTxsBatch env txs = .ok (results, s')) (hs : AllFit s)
    (htok : ∀ tx ∈ txs, tx.tx.FeeTokenOk) :
    AllFit s' ∧ ∀ r, .ok r ∈ results → ∀ fee ∈ r.fee, HasLeaf fee.token := by
  have hmem : ∀ {es : List Executed} {rest : List ZkSyncTx},
      txs.map (·.tx) = es.map (·.1) ++ rest → ∀ e ∈ es, e.1.FeeTokenOk := by
    intro es rest hbatch e he
    have hin : e.1 ∈ txs.map (·.tx) := by
      rw [hbatch]
      exact List.mem_append_left _ (List.mem_map_of_mem he)
    obtain ⟨tx, htx, he'⟩ := List.mem_map.mp hin
    rw [← he']
    exact htok tx htx
  cases executeTxsBatch_outcome h with
  | @done es _ batch run =>
    obtain ⟨hfit, -, hfees⟩ := allFit_txRun run hs
      (hmem (by rw [batch, List.append_nil] : _ = _ ++ []))
    refine ⟨hfit, fun r hr => ?_⟩
    obtain ⟨e, he, heq⟩ := List.mem_map.mp hr
    rw [← Except.ok.inj heq]
    exact hfees e he
  | undone batch run _ undo =>
    obtain ⟨hfit, hus, -⟩ := allFit_txRun run hs (hmem batch)
    refine ⟨allFit_applyAccountUpdates hfit (fun id token hw =>
      hus id token (writesBalance_reverse.mp hw)) undo, fun r hr => ?_⟩
    cases List.eq_of_mem_replicate hr

end States

/-! ## The keeper -/

/-- Paying the fees and asking for the root hash do not panic. -/
structure Hashable (env : Env) (k : ZkSyncStateKeeper) : Prop where
  hashed : Hashed env.hasher k.state
  accounts : AllFit k.state
  fees : ∀ fee ∈ k.pendingBlock.collectedFees, HasLeaf fee.token

section Keeper

variable {env : Env} {k k' : ZkSyncStateKeeper}

/-- A keeper that can be hashed is hashed without a panic. -/
theorem Hashable.rootHash (h : Hashable env k) {us : AccountUpdates} {paid : ZkSyncState}
    (hpaid : k.state.collectFee k.pendingBlock.collectedFees k.feeAccountId = .ok (us, paid)) :
    ∃ hash hashed, paid.rootHash env.hasher = .ok (hash, hashed) :=
  exists_rootHash ((Step.collectFee hpaid).writes.hashed h.hashed)
    (allFit_collectFee hpaid h.accounts h.fees)

/-- The fees that are collected are in tokens with leaves. -/
theorem fees_pushTxResult {overflowChecks : Bool} {p p' : PendingBlock} {chunksNeeded : Nat}
    {batchId : Option Int} {tx : SignedZkSyncTx} {result : Except String OpSuccess}
    {e : ExecutedOperations}
    (h : p.pushTxResult overflowChecks chunksNeeded batchId tx result = .ok (e, p'))
    (hp : ∀ fee ∈ p.collectedFees, HasLeaf fee.token)
    (hr : ∀ r, result = .ok r → ∀ fee ∈ r.fee, HasLeaf fee.token) :
    ∀ fee ∈ p'.collectedFees, HasLeaf fee.token := by
  cases result with
  | ok success =>
    unfold PendingBlock.pushTxResult at h
    obtain ⟨_, _, -, -, -, rfl⟩ := PendingBlock.pushSuccess_eq_ok.mp h
    intro fee hfee
    rcases List.mem_append.mp hfee with hfee | hfee
    · exact hp fee hfee
    · exact hr success rfl fee (Option.mem_toList.mp hfee)
  | error error =>
    cases h
    exact hp

theorem fees_pushBatchResults {overflowChecks : Bool} {p p' : PendingBlock} {chunksNeeded : Nat}
    {batchId : Int} {results : List (SignedZkSyncTx × Except String OpSuccess)}
    {ops : List ExecutedOperations}
    (h : p.pushBatchResults overflowChecks chunksNeeded batchId results = .ok (ops, p'))
    (hp : ∀ fee ∈ p.collectedFees, HasLeaf fee.token)
    (hr : ∀ x ∈ results, ∀ r, x.2 = .ok r → ∀ fee ∈ r.fee, HasLeaf fee.token) :
    ∀ fee ∈ p'.collectedFees, HasLeaf fee.token := by
  induction results generalizing p ops with
  | nil =>
    cases h
    exact hp
  | cons x results ih =>
    obtain ⟨tx, result⟩ := x
    unfold PendingBlock.pushBatchResults at h
    simp only [Outcome.bind_eq_ok] at h
    obtain ⟨⟨e, p₁⟩, h₁, ⟨ops', p₂⟩, h₂, h⟩ := h
    cases h
    exact ih h₂ (fees_pushTxResult h₁ hp (hr _ List.mem_cons_self))
      fun x hx => hr x (List.mem_cons_of_mem _ hx)

/-- Counting collects no fee. -/
theorem Counted.fees {p p' : PendingBlock} (h : Counted p p') :
    p'.collectedFees = p.collectedFees := by
  unfold Counted at h
  rw [h]

/-- The end of a mini block changes nothing that is hashed. -/
theorem hashable_countIteration (h : Hashable env k) : Hashable env k.countIteration := by
  unfold ZkSyncStateKeeper.countIteration
  split
  · exact ⟨h.1, h.2, h.3⟩
  · exact h

/-- Calls without odd fee tokens keep the keeper hashable. -/
theorem Hashable.step (h : Hashable env k) {e : KeeperCall × KeeperReply} (htok : e.1.FeeTokenOk)
    (hstep : KeeperStep env k e k') : Hashable env k' := by
  obtain ⟨call, reply⟩ := e
  have heff := hstep.effect
  dsimp only at htok heff
  cases heff with
  | full counted => exact ⟨h.hashed, h.accounts, by rw [show _ = _ from counted.fees]; exact h.fees⟩
  | priorityOp _ _ _ executed pushed =>
    have hprio := executePriorityOp_effect executed
    obtain ⟨_, _, -, -, -, rfl⟩ := PendingBlock.pushSuccess_eq_ok.mp pushed
    refine ⟨(Step.priorityOp executed : Step env _ _ _).writes.hashed h.hashed, hprio.allFit h.accounts,
      fun fee hfee => ?_⟩
    rcases List.mem_append.mp hfee with hfee | hfee
    · exact h.fees fee hfee
    · rw [hprio.fee_none] at hfee
      cases hfee
  | @tx tx _ _ _ result _ _ _ _ admitted executed pushed =>
    -- only the fee of a key change may be in a token without a leaf
    have hfees := (PendingBlock.counted_admitTx admitted).fees
    cases result with
    | ok success =>
      have hexec := executeTx_of_result executed
      refine ⟨(Step.txOk hexec).writes.hashed h.hashed, (executeTx_effect hexec).allFit h.accounts htok,
        fees_pushTxResult pushed (by rw [hfees]; exact h.fees) fun r hr => ?_⟩
      rw [← Except.ok.inj hr]
      exact (executeTx_effect hexec).fee_hasLeaf htok
    | error error =>
      obtain rfl := state_of_failed executed
      exact ⟨h.hashed, h.accounts, fees_pushTxResult pushed (by rw [hfees]; exact h.fees)
        fun r hr => by cases hr⟩
  | batch _ _ admitted executed pushed =>
    obtain ⟨hfit, hfee⟩ := allFit_batch executed h.accounts htok
    refine ⟨(Step.batch executed).writes.hashed h.hashed, hfit, fees_pushBatchResults pushed ?_
      fun x hx r hr => hfee r ?_⟩
    · rw [(PendingBlock.counted_admitBatch admitted).fees]
      exact h.fees
    · rw [← hr]
      exact (List.of_mem_zip hx).2
  | @sealed _ _ _ k₁ _ before hseal =>
    -- the block is empty behind the seal, and the tree was hashed
    obtain ⟨feeUpdates, paid, hashed, _, _, hs, -, -, rfl⟩ := sealPendingBlock_eq_ok hseal
    have hk : Hashable env k₁ := by
      rcases before with ⟨-, rfl⟩ | ⟨-, rfl⟩
      · exact h
      · exact hashable_countIteration h
    have hpaid : Step env _ _ _ := Step.collectFee hs.fees
    have hfit : AllFit hashed :=
      allFit_rootHash hs.root (allFit_collectFee hs.fees hk.accounts hk.fees)
    exact ⟨(Step.rootHash hs.root).writes.hashed (hpaid.writes.hashed hk.hashed), hfit,
      fun fee hfee => absurd hfee List.not_mem_nil⟩
  | stored hstore =>
    obtain ⟨-, -, -, rfl⟩ := storePendingBlock_eq_ok hstore
    have hc := hashable_countIteration h
    exact ⟨hc.1, hc.2, hc.3⟩

/-- The keeper can be hashed behind any calls. -/
theorem Hashable.answers {calls : List KeeperCall} {tr : List (KeeperCall × KeeperReply)}
    (h : Hashable env k) (htok : ∀ call ∈ calls, call.FeeTokenOk)
    (heq : k.answers env calls = .ok (tr, k')) : Hashable env k' := by
  induction calls generalizing k tr with
  | nil =>
    cases heq
    exact h
  | cons call calls ih =>
    unfold ZkSyncStateKeeper.answers at heq
    simp only [Outcome.bind_eq_ok] at heq
    obtain ⟨⟨reply, k₁⟩, h₁, ⟨tr', k₂⟩, h₂, heq⟩ := heq
    cases heq
    have hstep : KeeperStep env k (call, reply) k₁ := h₁
    exact ih (h.step (htok call List.mem_cons_self) hstep)
      (fun c hc => htok c (List.mem_cons_of_mem _ hc)) h₂

/-- A block that has room is sealed. -/
theorem Hashable.seal (h : Hashable env k) {us : AccountUpdates} {paid : ZkSyncState}
    {maxBlockSize size : Nat} {blockNumber : BlockNumber}
    (hpaid : k.state.collectFee k.pendingBlock.collectedFees k.feeAccountId = .ok (us, paid))
    (hmax : k.availableBlockChunkSizes.getLast? = some maxBlockSize)
    (hsize : smallestBlockSizeForChunks (chunksOf (k.pendingBlock.successOperations ++
      k.pendingBlock.failedTxs.map ExecutedOperations.Tx)) k.availableBlockChunkSizes = .ok size)
    (hstored : k.pendingBlock.storedAccountUpdates ≤ k.pendingBlock.accountUpdates.length)
    (hnumber : u32Increment env.overflowChecks k.state.blockNumber = .ok blockNumber) :
    ∃ request updates k', k.sealPendingBlock env = .ok ((request, updates), k') := by
  obtain ⟨hash, hashed, hroot⟩ := h.rootHash hpaid
  have hsame : hashed.blockNumber = k.state.blockNumber := by
    rw [(Step.rootHash hroot).writes.blockNumber, (Step.collectFee hpaid : Step env _ _ _).writes.blockNumber]
  unfold ZkSyncStateKeeper.sealPendingBlock
  simp only [hmax, Outcome.expect, infallible, hpaid, hroot, Outcome.ok_bind]
  unfold Block.newFromAvailableBlockSizes Block.chunksUsed
  simp only [hsize, Outcome.ok_bind, Outcome.pure_eq]
  unfold sliceFrom
  rw [Outcome.assert_ok _ (by rw [List.length_append]; omega), hsame, hnumber]
  exact ⟨_, _, _, rfl⟩

/-- Calls that were computed on a keeper that never asked for its root hash, and
the block they make, carry over to a keeper alike; in a build without overflow
checks, so that the block number does not matter. -/
theorem exists_sealed {k₁ : ZkSyncStateKeeper} (halike : KeeperAlike k k') (h : Hashable env k')
    (hrelease : env.overflowChecks = false) {calls : List KeeperCall}
    (hentries : ∀ call ∈ calls, call.IsEntry) (htok : ∀ call ∈ calls, call.FeeTokenOk)
    {tr : List (KeeperCall × KeeperReply)} (hcalls : k.answers env calls = .ok (tr, k₁))
    {us : AccountUpdates} {paid : ZkSyncState} {maxBlockSize size : Nat}
    (hpaid : k₁.state.collectFee k₁.pendingBlock.collectedFees k₁.feeAccountId = .ok (us, paid))
    (hmax : k₁.availableBlockChunkSizes.getLast? = some maxBlockSize)
    (hsize : smallestBlockSizeForChunks (chunksOf (k₁.pendingBlock.successOperations ++
      k₁.pendingBlock.failedTxs.map ExecutedOperations.Tx)) k₁.availableBlockChunkSizes = .ok size)
    (hstored : k₁.pendingBlock.storedAccountUpdates ≤ k₁.pendingBlock.accountUpdates.length) :
    ∃ k₂ paid₂, k'.answers env calls = .ok (tr, k₂) ∧ KeeperAlike k₁ k₂ ∧ Hashable env k₂ ∧
      k₂.state.collectFee k₂.pendingBlock.collectedFees k₂.feeAccountId = .ok (us, paid₂) ∧
      Alike paid paid₂ ∧
      ∃ request updates k₃, k₂.sealPendingBlock env = .ok ((request, updates), k₃) := by
  obtain ⟨⟨tr', k₂⟩, hanswers, htr, hk₂⟩ := (halike.answers calls hentries).of_ok hcalls
  obtain rfl : tr = tr' := htr
  have hhashable := h.answers htok hanswers
  obtain ⟨⟨us', paid₂⟩, hpaid₂, hus, hlike⟩ := (hk₂.state.collectFee
    k₁.pendingBlock.collectedFees k₁.feeAccountId).of_ok hpaid
  obtain rfl : us = us' := hus
  have hrest : k₂ = { k₁ with state := k₂.state } := hk₂.rest
  have hpaid' : k₂.state.collectFee k₂.pendingBlock.collectedFees k₂.feeAccountId =
      .ok (us, paid₂) := by
    rw [hrest]
    exact hpaid₂
  refine ⟨k₂, paid₂, hanswers, hk₂, hhashable, hpaid', hlike, ?_⟩
  have hnumber : u32Increment env.overflowChecks k₂.state.blockNumber =
      .ok (k₂.state.blockNumber + 1) := by
    rw [hrelease]
    rfl
  have hmax' : k₂.availableBlockChunkSizes.getLast? = some maxBlockSize := by
    rw [hrest]
    exact hmax
  have hsize' : smallestBlockSizeForChunks (chunksOf (k₂.pendingBlock.successOperations ++
      k₂.pendingBlock.failedTxs.map ExecutedOperations.Tx)) k₂.availableBlockChunkSizes =
        .ok size := by
    rw [hrest]
    exact hsize
  refine hhashable.seal hpaid' hmax' hsize' ?_ hnumber
  rw [hrest]
  exact hstored

/-- What a keeper needs to seal its block, computed. -/
def ZkSyncStateKeeper.sealable (k : ZkSyncStateKeeper) : Bool :=
  decide (k.pendingBlock.storedAccountUpdates = 0) &&
  k.availableBlockChunkSizes.getLast?.isSome &&
  (smallestBlockSizeForChunks (chunksOf (k.pendingBlock.successOperations ++
    k.pendingBlock.failedTxs.map ExecutedOperations.Tx)) k.availableBlockChunkSizes).toOption.isSome &&
  (k.state.collectFee k.pendingBlock.collectedFees k.feeAccountId).toOption.isSome

/-- Calls that were computed to leave a block that can be sealed, on a keeper that
never asked for its root hash: a keeper alike answers them, and seals a block of
which what was computed holds. -/
theorem exists_sealed_computed (halike : KeeperAlike k k') (h : Hashable env k')
    (hrelease : env.overflowChecks = false) {calls : List KeeperCall}
    (hentries : ∀ call ∈ calls, call.IsEntry) (htok : ∀ call ∈ calls, call.FeeTokenOk)
    {f : PendingBlock → Bool}
    (hsum : ((k.answers env calls).toOption.map fun r =>
      r.2.sealable && f r.2.pendingBlock) = some true) :
    ∃ tr k₁ request updates k₂, k'.answers env calls = .ok (tr, k₁) ∧ f k₁.pendingBlock = true ∧
      k₁.sealPendingBlock env = .ok ((request, updates), k₂) := by
  obtain ⟨⟨tr, k₁⟩, hsome, hsum⟩ := Option.map_eq_some_iff.mp hsum
  rw [Bool.and_eq_true] at hsum
  obtain ⟨hsealable, hf⟩ := hsum
  unfold ZkSyncStateKeeper.sealable at hsealable
  simp only [Bool.and_eq_true, decide_eq_true_eq, Option.isSome_iff_exists] at hsealable
  obtain ⟨⟨⟨hstored, max, hmax⟩, size, hsize⟩, ⟨us, paid⟩, hpaid⟩ := hsealable
  obtain ⟨k₂, _, hanswers, hk, -, -, -, request, updates, k₃, hseal⟩ :=
    exists_sealed halike h hrelease hentries htok (Outcome.toOption_eq_some.mp hsome)
      (Outcome.toOption_eq_some.mp hpaid) hmax (Outcome.toOption_eq_some.mp hsize)
      (by rw [hstored]; exact Nat.zero_le _)
  have hpending : k₂.pendingBlock = k₁.pendingBlock := by rw [show k₂ = _ from hk.rest]
  exact ⟨tr, k₂, request, updates, k₃, hanswers, by rw [hpending]; exact hf, hseal⟩

end Keeper

/-! ## New keepers -/

/-- The parameters over an account map: every account is inserted into the tree and the index. -/
def ZkSyncStateInitParams.fromAccMap (H : Hasher Fr) (accounts : AList fun _ : AccountId => Account)
    (lastBlockNumber : BlockNumber) (unprocessedPriorityOp : UInt64) : ZkSyncStateInitParams where
  tree := (ZkSyncState.fromAccMap H accounts lastBlockNumber).balanceTree
  accIdByAddr := (ZkSyncState.fromAccMap H accounts lastBlockNumber).accountIdByAddress
  lastBlockNumber := lastBlockNumber
  unprocessedPriorityOp := unprocessedPriorityOp

/-- Over accounts that fit, the checks of `new` are all it takes. -/
theorem Hashable.exists_new {env : Env} {accounts : AList fun _ : AccountId => Account}
    {lastBlockNumber blockNumber : BlockNumber} {unprocessedPriorityOp : UInt64}
    {feeAccountAddress : Address} {feeAccountId : AccountId} {sizes : List Nat}
    {maxBlockSize : Nat} (maxMini fastMini maxWithdrawals : Nat)
    (hfit : ∀ id a, accounts.lookup id = some a → a.Fits)
    (h : ZkSyncStateKeeper.NewOk env (.fromAccMap env.hasher accounts lastBlockNumber
      unprocessedPriorityOp) feeAccountAddress sizes blockNumber feeAccountId maxBlockSize) :
    ∃ k, ZkSyncStateKeeper.new env (.fromAccMap env.hasher accounts lastBlockNumber
        unprocessedPriorityOp) feeAccountAddress sizes maxMini fastMini maxWithdrawals = .ok k ∧
      KeeperAlike (.unhashed (.fromAccMap env.hasher accounts lastBlockNumber
        unprocessedPriorityOp) blockNumber feeAccountId maxBlockSize sizes maxMini fastMini
        maxWithdrawals) k ∧ Hashable env k := by
  let s : ZkSyncState := { ZkSyncState.fromAccMap env.hasher accounts lastBlockNumber with
    blockNumber := blockNumber }
  have hhashed : Hashed env.hasher s := hashed_fromAccMap env.hasher accounts lastBlockNumber
  have hs : AllFit s := fun id a ha =>
    hfit id a (by rw [← getAccount_fromAccMap env.hasher accounts lastBlockNumber]; exact ha)
  obtain ⟨hash, s', hroot⟩ := exists_rootHash hhashed hs
  have hroot' : s.root env.hasher = .ok hash := by
    unfold ZkSyncState.root
    rw [hroot]
    rfl
  obtain ⟨k, hnew, halike⟩ := ZkSyncStateKeeper.new_alike h hroot'
  obtain ⟨number, feeId, max, hok, ⟨hash', hstate⟩, hk⟩ := ZkSyncStateKeeper.new_eq_ok hnew
  refine ⟨k, hnew, halike, ?_, ?_, fun fee hfee => ?_⟩
  · exact (Write.hash hstate).hashed hhashed
  · exact allFit_rootHash hstate hs
  · rw [hk] at hfee
    exact absurd hfee List.not_mem_nil

end ZkSync
