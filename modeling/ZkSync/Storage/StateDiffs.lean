import ZkSync.Core.Recovery
import ZkSync.Storage.History

/-!
# From any block to any other

`load_state_diff` and `load_committed_state` over the histories that a state
keeper writes: it is started on the accounts of the last block, its calls send
slices of updates and sealed blocks, these are stored, blocks are verified in
turn, and it may be started again at any time (`KeptStep`).

An update says what it changes *from*, and a difference backwards relies on it.
What the keeper says is true of its own state. It is also true of the stored
accounts: every stored account is in the state of the keeper, with the same
balances (`Ledger.BackedBy`). Only an account that the keeper has left of an
undone batch is not stored, and its updates change nothing there, forwards or
backwards (`AccountUpdate.Holds`).
-/

namespace ZkSync

open NumberedLog

/-! ## Updates that can be taken back -/

/-- The update tells the truth about the account, where there is one. -/
def AccountUpdate.Holds (o : Option Account) : AccountUpdate → Prop
  | Create _ _ => o = none
  | Delete _ _ => False
  | update => ∀ a, o = some a → update.Asserts a

namespace Ledger

/-- One update that holds. -/
def HoldStep (m : Ledger) (u : AccountId × AccountUpdate) (m' : Ledger) : Prop :=
  u.2.Holds (m u.1) ∧ m.apply [u] = m'

/-- The same accounts, up to explicit zero balances. -/
def SameAs (m m' : Ledger) : Prop := ∀ id, Option.Rel Account.Equiv (m id) (m' id)

/-- Every account of `m` is in `n`, up to explicit zero balances. -/
def BackedBy (m n : Ledger) : Prop := ∀ id a, m id = some a → ∃ a', n id = some a' ∧ a'.Equiv a

section Back

variable {m m' n n' cur : Ledger} {us : AccountUpdates}

theorem sameAs_refl (m : Ledger) : SameAs m m := by
  intro id
  cases m id with
  | none => exact .none
  | some a => exact .some (Account.Equiv.refl a)

theorem BackedBy.restores (h : BackedBy m n) (hr : Restores n' n) : BackedBy m n' := by
  intro id a ha
  obtain ⟨a', ha', he⟩ := h id a ha
  obtain ⟨a'', ha'', he'⟩ := hr.account ha'
  exact ⟨a'', ha'', he'.trans he⟩

/-- The reverse of an update that holds leads back, at its account. -/
theorem undo_holds {o o' : Option Account} {update : AccountUpdate} (hholds : update.Holds o)
    (hsame : Option.Rel Account.Equiv o' (Account.applyUpdate o update)) :
    Option.Rel Account.Equiv (Account.applyUpdate o' update.reversedUpdate) o := by
  cases update with
  | Create address nonce =>
    have hnone : o = none := hholds
    subst hnone
    cases hsame with
    | some _ => exact .none
  | Delete address nonce => exact hholds.elim
  | UpdateBalance oldNonce newNonce upd =>
    obtain ⟨token, oldBalance, newBalance⟩ := upd
    cases o with
    | none =>
      cases hsame with
      | none => exact .none
    | some a =>
      obtain ⟨hbalance, hnonce⟩ := hholds a rfl
      cases hsame with
      | @some a' _ he =>
        refine .some ⟨he.pubKeyHash, he.address, hnonce.symm, fun token' => ?_⟩
        refine (Account.getBalance_setBalance a' token token' oldBalance).trans ?_
        split
        next ht => rw [ht, hbalance]
        next ht =>
          rw [he.balance]
          exact (Account.getBalance_setBalance a token token' newBalance).trans (if_neg ht)
  | ChangePubKeyHash oldPubKeyHash newPubKeyHash oldNonce newNonce =>
    cases o with
    | none =>
      cases hsame with
      | none => exact .none
    | some a =>
      obtain ⟨hkey, hnonce⟩ := hholds a rfl
      cases hsame with
      | some he => exact .some ⟨hkey.symm, he.address, hnonce.symm, he.balance⟩

/-- Applied to what a run of updates leads to, the reversed updates lead back. -/
theorem undo_run (h : Run HoldStep m us m') :
    ∀ cur, SameAs cur m' → SameAs (cur.apply (reverseUpdates us)) m := by
  induction h with
  | nil => exact fun cur hcur => hcur
  | @cons m m₁ m' u us hstep _ ih =>
    intro cur hcur
    obtain ⟨hholds, rfl⟩ := hstep
    have hback := ih cur hcur
    rw [← List.singleton_append, reverseUpdates_append]
    have hsplit : cur.apply (reverseUpdates us ++ reverseUpdates [u]) =
        (cur.apply (reverseUpdates us)).apply [(u.1, u.2.reversedUpdate)] := List.foldl_append
    rw [hsplit, apply_single]
    intro id
    have hid := hback id
    rw [apply_single, Function.update_apply] at hid
    rw [Function.update_apply]
    by_cases heq : id = u.1
    · subst heq
      rw [if_pos rfl] at hid ⊢
      exact undo_holds hholds hid
    · rw [if_neg heq] at hid ⊢
      exact hid

/-- A step of the ledger is as true of the accounts that it backs. -/
theorem BackedBy.step (h : BackedBy m n) {u : AccountId × AccountUpdate} (hstep : Step n u n') :
    HoldStep m u (m.apply [u]) ∧ BackedBy (m.apply [u]) n' := by
  obtain ⟨id, update⟩ := u
  obtain ⟨hfits, rfl⟩ := hstep
  dsimp only at hfits
  have hat := h id
  -- the account at `id`, before and after, on both sides
  have hwritten : update.Holds (m id) ∧ ∀ a, Account.applyUpdate (m id) update = some a →
      ∃ a', Account.applyUpdate (n id) update = some a' ∧ a'.Equiv a := by
    cases update with
    | Create address nonce =>
      have hn : n id = none := hfits
      have hm : m id = none := by
        cases hm : m id with
        | none => rfl
        | some a =>
          obtain ⟨a', ha', -⟩ := hat a hm
          rw [hn] at ha'
          cases ha'
      rw [hm, hn]
      exact ⟨rfl, fun a ha => ⟨a, ha, Account.Equiv.refl a⟩⟩
    | Delete address nonce => exact hfits.elim
    | UpdateBalance oldNonce newNonce upd =>
      obtain ⟨token, oldBalance, newBalance⟩ := upd
      obtain ⟨a', ha', hbalance, hnonce⟩ := hfits
      cases hm : m id with
      | none => exact ⟨fun a ha => (by cases ha), fun a ha => (by cases ha)⟩
      | some a =>
        obtain ⟨a'', ha'', he⟩ := hat a hm
        obtain rfl : a' = a'' := Option.some.inj (ha'.symm.trans ha'')
        refine ⟨fun b hb => ?_, fun b hb => ⟨_, by rw [ha']; rfl, ?_⟩⟩
        · obtain rfl := Option.some.inj hb
          exact ⟨(he.balance token).symm.trans hbalance, he.nonce.symm.trans hnonce⟩
        · obtain rfl := Option.some.inj hb
          refine ⟨he.pubKeyHash, he.address, rfl, fun token' => ?_⟩
          refine (Account.getBalance_setBalance a' token token' newBalance).trans ?_
          rw [he.balance]
          exact (Account.getBalance_setBalance a token token' newBalance).symm
    | ChangePubKeyHash oldPubKeyHash newPubKeyHash oldNonce newNonce =>
      obtain ⟨a', ha', hkey, hnonce⟩ := hfits
      cases hm : m id with
      | none => exact ⟨fun a ha => (by cases ha), fun a ha => (by cases ha)⟩
      | some a =>
        obtain ⟨a'', ha'', he⟩ := hat a hm
        obtain rfl : a' = a'' := Option.some.inj (ha'.symm.trans ha'')
        refine ⟨fun b hb => ?_, fun b hb => ⟨_, by rw [ha']; rfl, ?_⟩⟩
        · obtain rfl := Option.some.inj hb
          exact ⟨he.pubKeyHash.symm.trans hkey, he.nonce.symm.trans hnonce⟩
        · obtain rfl := Option.some.inj hb
          exact ⟨rfl, he.address, rfl, he.balance⟩
  refine ⟨⟨hwritten.1, rfl⟩, fun id' a ha => ?_⟩
  rw [apply_single, Function.update_apply] at ha
  rw [Function.update_apply]
  split at ha
  next heq =>
    rw [if_pos heq]
    exact hwritten.2 a ha
  next hne =>
    rw [if_neg hne]
    exact h id' a ha

/-- Updates that lead through the accounts lead through the stored ones. -/
theorem BackedBy.run (hrun : Run Step n us n') : ∀ {m : Ledger}, BackedBy m n →
    Run HoldStep m us (m.apply us) ∧ BackedBy (m.apply us) n' := by
  induction hrun with
  | nil => exact fun h => ⟨.nil _, h⟩
  | @cons n n₁ n' u us hstep _ ih =>
    intro m h
    obtain ⟨hhold, h₁⟩ := h.step hstep
    obtain ⟨hrun, h'⟩ := ih h₁
    exact ⟨.cons hhold hrun, h'⟩

end Back

end Ledger

/-! ## What the keeper sends -/

/-- The updates that a reply hands to the committer. -/
def KeeperReply.sentUpdates (reply : KeeperReply) : AccountUpdates :=
  match reply with
  | .executed _ => []
  | .full => []
  | .sealed _ updates => updates.accountUpdates
  | .stored _ updates => updates.accountUpdates

/-- The updates of the pending block that were not sent yet. -/
def PendingBlock.unsent (p : PendingBlock) : AccountUpdates :=
  p.accountUpdates.drop p.storedAccountUpdates

/-- The keeper goes on from the accounts `m`, which all updates that it sent have
led to: what it has not sent yet holds there, and leads to accounts that its
state backs. -/
structure GoesOn (m : Ledger) (k : ZkSyncStateKeeper) : Prop where
  run : Run Ledger.HoldStep m k.pendingBlock.unsent (m.apply k.pendingBlock.unsent)
  backed : Ledger.BackedBy (m.apply k.pendingBlock.unsent) k.state.getAccount
  stored_le : k.pendingBlock.storedAccountUpdates ≤ k.pendingBlock.accountUpdates.length

section Keeper

variable {env : Env} {m : Ledger} {k k' : ZkSyncStateKeeper}

/-- An operation was pushed, and did to the state what it reports, or was undone. -/
theorem GoesOn.push (h : GoesOn m k) {us : AccountUpdates} {count : Nat} {p : PendingBlock}
    {state : ZkSyncState} {next : UInt64} (hpush : PushedBy us count k.pendingBlock p)
    (hdone : ∀ m', Ledger.BackedBy m' k.state.getAccount →
      Run Ledger.HoldStep m' us (m'.apply us) ∧ Ledger.BackedBy (m'.apply us) state.getAccount) :
    GoesOn m { k with state := state, pendingBlock := p, currentUnprocessedPriorityOp := next } := by
  have hunsent : p.unsent = k.pendingBlock.unsent ++ us := by
    unfold PendingBlock.unsent
    rw [hpush.updates, hpush.stored, List.drop_append_of_le_length h.stored_le]
  obtain ⟨hrun, hbacked⟩ := hdone _ h.backed
  refine ⟨?_, ?_, ?_⟩
  · show Run Ledger.HoldStep m p.unsent (m.apply p.unsent)
    rw [hunsent, apply_append]
    exact h.run.append hrun
  · show Ledger.BackedBy (m.apply p.unsent) state.getAccount
    rw [hunsent, apply_append]
    exact hbacked
  · show p.storedAccountUpdates ≤ p.accountUpdates.length
    rw [hpush.updates, hpush.stored, List.length_append]
    exact Nat.le_trans h.stored_le (Nat.le_add_right _ _)

/-- Nothing was reported, and the accounts were restored. -/
theorem backedBy_silent {n n' : Ledger} (hr : Ledger.Restores n' n) :
    ∀ m', Ledger.BackedBy m' n →
      Run Ledger.HoldStep m' [] (m'.apply []) ∧ Ledger.BackedBy (m'.apply []) n' :=
  fun _ h => ⟨.nil _, h.restores hr⟩

/-- The end of a mini block sends nothing. -/
theorem GoesOn.countIteration (h : GoesOn m k) : GoesOn m k.countIteration := by
  unfold ZkSyncStateKeeper.countIteration
  split
  · exact ⟨h.1, h.2, h.3⟩
  · exact h

/-- A batch reports the updates of its transactions, or is undone. -/
theorem backedBy_batch (hz : env.NoZeroSigner) {s s' : ZkSyncState} {txs : List SignedZkSyncTx}
    {results : BatchResults} (h : s.executeTxsBatch env txs = .ok (results, s')) :
    ∀ m', Ledger.BackedBy m' s.getAccount →
      Run Ledger.HoldStep m' (updatesOf (succeeded txs results))
        (m'.apply (updatesOf (succeeded txs results))) ∧
      Ledger.BackedBy (m'.apply (updatesOf (succeeded txs results))) s'.getAccount := by
  cases executeTxsBatch_outcome h with
  | done batch run =>
    rw [succeeded_ok batch]
    exact fun _ hm => hm.run (ledgerRun_of_run hz run)
  | undone batch run fails undo =>
    rw [succeeded_error]
    exact backedBy_silent (undo_restores hz run undo)

/-- Everything was sent. -/
theorem goesOn_of_sent (hnil : k.pendingBlock.unsent = [])
    (hbacked : Ledger.BackedBy m k.state.getAccount)
    (hle : k.pendingBlock.storedAccountUpdates ≤ k.pendingBlock.accountUpdates.length) :
    GoesOn m k := by
  refine ⟨?_, ?_, hle⟩
  · rw [hnil]
    exact .nil _
  · rw [hnil]
    exact hbacked

/-- Sealing sends the rest of the block, with the fees. -/
theorem GoesOn.seal (h : GoesOn m k) {request : BlockCommitRequest}
    {updates : AppliedUpdatesRequest}
    (hseal : k.sealPendingBlock env = .ok ((request, updates), k')) :
    Run Ledger.HoldStep m updates.accountUpdates (m.apply updates.accountUpdates) ∧
      GoesOn (m.apply updates.accountUpdates) k' ∧
      updates.firstUpdateOrderId = k.pendingBlock.storedAccountUpdates ∧
      k'.pendingBlock.storedAccountUpdates = 0 := by
  obtain ⟨feeUpdates, paid, hashed, _, _, hs, -, -, rfl⟩ := sealPendingBlock_eq_ok hseal
  obtain ⟨_, _, -, -, -, -, hfees⟩ := collectFee_effect hs.fees
  obtain ⟨hrun, hbacked⟩ := h.backed.run hfees
  have hsent : updates.accountUpdates = k.pendingBlock.unsent ++ feeUpdates := by
    rw [hs.updates_eq, hs.accounts]
    exact List.drop_append_of_le_length h.stored_le
  rw [← getAccount_of_rootHash hs.root] at hbacked
  rw [hsent, apply_append]
  exact ⟨h.run.append hrun, goesOn_of_sent rfl hbacked (Nat.le_refl _), by rw [hs.updates_eq], rfl⟩

/-- Storing the pending block sends what was not sent before. -/
theorem GoesOn.store (h : GoesOn m k) {pendingBlock : SendablePendingBlock}
    {updates : AppliedUpdatesRequest}
    (hstore : k.storePendingBlock = .ok ((pendingBlock, updates), k')) :
    Run Ledger.HoldStep m updates.accountUpdates (m.apply updates.accountUpdates) ∧
      GoesOn (m.apply updates.accountUpdates) k' ∧
      updates.firstUpdateOrderId = k.pendingBlock.storedAccountUpdates ∧
      k'.pendingBlock.storedAccountUpdates =
        k.pendingBlock.storedAccountUpdates + updates.accountUpdates.length := by
  obtain ⟨hle, -, rfl, rfl⟩ := storePendingBlock_eq_ok hstore
  refine ⟨h.run, goesOn_of_sent List.drop_length h.backed (Nat.le_refl _), rfl, ?_⟩
  show k.pendingBlock.accountUpdates.length = _
  rw [List.length_drop]
  omega

theorem stored_countIteration (k : ZkSyncStateKeeper) :
    k.countIteration.pendingBlock.storedAccountUpdates = k.pendingBlock.storedAccountUpdates := by
  unfold ZkSyncStateKeeper.countIteration
  split <;> rfl

/-- What one call sends holds of the accounts so far, and the keeper goes on from
there. -/
structure SentStep (m : Ledger) (k k' : ZkSyncStateKeeper) (us : AccountUpdates) : Prop where
  run : Run Ledger.HoldStep m us (m.apply us)
  next : GoesOn (m.apply us) k'

/-- The place of a slice in its block, and the number of updates of the pending
block that are stored behind it. -/
inductive SentAt (k k' : ZkSyncStateKeeper) : KeeperReply → Prop
  | silent {reply : KeeperReply} (none : reply.sent = [])
      (stored : k'.pendingBlock.storedAccountUpdates = k.pendingBlock.storedAccountUpdates) :
      SentAt k k' reply
  | stored {pendingBlock : SendablePendingBlock} {updates : AppliedUpdatesRequest}
      (first : updates.firstUpdateOrderId = k.pendingBlock.storedAccountUpdates)
      (stored : k'.pendingBlock.storedAccountUpdates =
        k.pendingBlock.storedAccountUpdates + updates.accountUpdates.length) :
      SentAt k k' (.stored pendingBlock updates)
  | sealed {request : BlockCommitRequest} {updates : AppliedUpdatesRequest}
      (first : updates.firstUpdateOrderId = k.pendingBlock.storedAccountUpdates)
      (stored : k'.pendingBlock.storedAccountUpdates = 0) :
      SentAt k k' (.sealed request updates)

/-- Each step of the keeper sends what is missing in the database. -/
theorem GoesOn.step (hz : env.NoZeroSigner) (h : GoesOn m k) {e : KeeperCall × KeeperReply}
    (hstep : KeeperStep env k e k') :
    SentStep m k k' e.2.sentUpdates ∧ SentAt k k' e.2 := by
  obtain ⟨call, reply⟩ := e
  have heff := hstep.effect
  dsimp only at heff ⊢
  cases heff with
  | full counted =>
    have hpush := counted.pushedBy
    exact ⟨⟨.nil _, h.push hpush (backedBy_silent (Ledger.restores_refl _))⟩,
      .silent rfl hpush.stored⟩
  | @priorityOp op nonExecutedOp gasCounter success state e p next _ _ _ executed pushed counter =>
    -- what is pushed is missing in the database until the next request
    have hpush : PushedBy success.updates 1 k.pendingBlock p := by
      have hpush := pushedBy_pushSuccess (by exact fun _ => rfl) (by exact fun _ => rfl) pushed
      obtain ⟨_, _, -, -, rfl, -⟩ := PendingBlock.pushSuccess_eq_ok.mp pushed
      exact (PushedBy.refl k.pendingBlock).trans ⟨hpush.1, hpush.2, hpush.3, hpush.4,
        fun hp => hpush.5 ⟨hp.1, hp.2, hp.3, hp.4⟩⟩
    exact ⟨⟨.nil _, h.push hpush fun _ hm => hm.run (executePriorityOp_effect executed).run⟩,
      .silent rfl hpush.stored⟩
  | @tx tx chunksNeeded p p' result state e _ _ admitted executed pushed =>
    have hpush := (PendingBlock.counted_admitTx admitted).pushedBy.trans
      (pushedBy_pushTxResult pushed)
    rw [List.nil_append] at hpush
    cases result with
    | ok success =>
      have heffect := executeTx_effect (executeTx_of_result executed)
      exact ⟨⟨.nil _, h.push hpush fun _ hm => hm.run (heffect.run hz)⟩, .silent rfl hpush.stored⟩
    | error error =>
      obtain rfl := state_of_failed executed
      exact ⟨⟨.nil _, h.push hpush (backedBy_silent (Ledger.restores_refl _))⟩,
        .silent rfl hpush.stored⟩
  | @batch txs batchId chunksNeeded p p' results state ops _ _ admitted executed pushed =>
    have hpush := (PendingBlock.counted_admitBatch admitted).pushedBy.trans
      (pushedBy_pushBatchResults pushed)
    rw [List.nil_append, updatesOf_succeeded] at hpush
    exact ⟨⟨.nil _, h.push hpush (backedBy_batch hz executed)⟩, .silent rfl hpush.stored⟩
  | sealed before hseal =>
    -- the request sends what is missing, and nothing is missing behind it
    rcases before with ⟨-, rfl⟩ | ⟨-, rfl⟩
    · obtain ⟨hrun, hnext, hfirst, hstored⟩ := h.seal hseal
      exact ⟨⟨hrun, hnext⟩, .sealed hfirst hstored⟩
    · obtain ⟨hrun, hnext, hfirst, hstored⟩ := h.countIteration.seal hseal
      rw [stored_countIteration] at hfirst
      exact ⟨⟨hrun, hnext⟩, .sealed hfirst hstored⟩
  | stored hstore =>
    obtain ⟨hrun, hnext, hfirst, hstored⟩ := h.countIteration.store hstore
    rw [stored_countIteration] at hfirst hstored
    exact ⟨⟨hrun, hnext⟩, .stored hfirst hstored⟩

/-- A new keeper has stored all that it knows. -/
theorem getAccount_new {p : ZkSyncStateInitParams} {feeAccountAddress : Address}
    {sizes : List Nat} {maxMini fastMini maxWithdrawals : Nat}
    (hnew : ZkSyncStateKeeper.new env p feeAccountAddress sizes maxMini fastMini maxWithdrawals =
      .ok k) : k.state.getAccount = p.tree.get ∧ k.pendingBlock.accountUpdates = [] ∧
        k.pendingBlock.storedAccountUpdates = 0 := by
  obtain ⟨_, _, _, -, ⟨_, hroot⟩, hk⟩ := ZkSyncStateKeeper.new_eq_ok hnew
  refine ⟨getAccount_of_rootHash hroot, ?_, ?_⟩ <;> rw [hk] <;> rfl

/-- Operations that are restored are not sent. -/
theorem GoesOn.restore (hz : env.NoZeroSigner) {ops : List ExecutedOperations}
    (hfold : ops.foldlM (ZkSyncStateKeeper.restoreOperation env) k = .ok k') (h : GoesOn m k) :
    GoesOn m k' ∧
      k'.pendingBlock.storedAccountUpdates = k.pendingBlock.storedAccountUpdates := by
  induction ops generalizing k with
  | nil =>
    cases hfold
    exact ⟨h, rfl⟩
  | cons op ops ih =>
    rw [List.foldlM_cons, Outcome.bind_eq_ok] at hfold
    obtain ⟨k₁, hop, hfold⟩ := hfold
    obtain ⟨e, hstep⟩ := restoreOperation_step hop
    obtain ⟨hsent, hat⟩ := h.step hz hstep
    obtain ⟨hk', hstored⟩ := ih hfold hsent.next
    cases hat with
    | silent _ hstored₁ => exact ⟨hk', hstored.trans hstored₁⟩

/-- A keeper that was started on the accounts `m`, and restored its pending block,
goes on from behind the updates of the block. -/
theorem goesOn_start (hz : env.NoZeroSigner) {p : ZkSyncStateInitParams} {feeAccountAddress : Address}
    {sizes : List Nat} {maxMini fastMini maxWithdrawals : Nat}
    {pendingBlock : Option SendablePendingBlock} (hloaded : Ledger.BackedBy m p.tree.get)
    (hnew : ZkSyncStateKeeper.new env p feeAccountAddress sizes maxMini fastMini maxWithdrawals =
      .ok k) (hinit : k.initializeWith env pendingBlock = .ok k') :
    GoesOn (m.apply k'.pendingBlock.accountUpdates) k' ∧
      k'.pendingBlock.storedAccountUpdates = k'.pendingBlock.accountUpdates.length := by
  obtain ⟨hget, hupdates, hstored⟩ := getAccount_new hnew
  have hk : GoesOn m k := by
    refine goesOn_of_sent ?_ (hget.symm ▸ hloaded) ?_
    · unfold PendingBlock.unsent
      rw [hupdates]
      exact List.drop_nil
    · rw [hstored]
      exact Nat.zero_le _
  cases pendingBlock with
  | none =>
    cases hinit
    rw [hupdates]
    exact ⟨hk, hstored⟩
  | some block =>
    obtain ⟨k₁, hfold, rfl⟩ := initializeWith_eq_ok.mp hinit
    obtain ⟨hk₁, hstored₁⟩ := hk.restore hz hfold
    have hunsent : k₁.pendingBlock.unsent = k₁.pendingBlock.accountUpdates := by
      unfold PendingBlock.unsent
      rw [hstored₁, hstored]
      rfl
    have hbacked := hk₁.backed
    rw [hunsent] at hbacked
    exact ⟨goesOn_of_sent List.drop_length hbacked (Nat.le_refl _), rfl⟩

end Keeper

/-! ## Histories of a state keeper -/

/-- The database, what was saved in it, and the state keeper, if one is running. -/
structure KeptDb where
  db : Db
  history : History
  keeper : Option ZkSyncStateKeeper

/-- What happens at the server: a start, a call of the keeper, or a block that is verified. -/
inductive KeptCall where
  | start
  | keeper (call : KeeperCall) (reply : KeeperReply)
  | verifyNextBlock

/-- A keeper is started on the accounts of the last block, and restores the pending
block; it answers calls, and what it sends is stored under the number of the next
block; blocks are verified in turn. A keeper that was running when another is
started is gone. -/
inductive KeptStep (env : Env) : KeptDb → KeptCall → KeptDb → Prop
  | start {db : Db} {h : History} {keeper : Option ZkSyncStateKeeper} {p : ZkSyncStateInitParams}
      {feeAccountAddress : Address} {sizes : List Nat} {maxMini fastMini maxWithdrawals : Nat}
      {pendingBlock : Option SendablePendingBlock} {k₀ k : ZkSyncStateKeeper} :
      (∀ id a, (h.accountsAt h.lastBlock).lookup id = some a → p.tree.get id = some a) →
      ZkSyncStateKeeper.new env p feeAccountAddress sizes maxMini fastMini maxWithdrawals = .ok k₀ →
      k₀.initializeWith env pendingBlock = .ok k →
      k.pendingBlock.accountUpdates = h.pending →
      KeptStep env ⟨db, h, keeper⟩ .start ⟨db, h, some k⟩
  | silent {db : Db} {h : History} {k k' : ZkSyncStateKeeper} {call : KeeperCall}
      {reply : KeeperReply} : KeeperStep env k (call, reply) k' → reply.sent = [] →
      KeptStep env ⟨db, h, some k⟩ (.keeper call reply) ⟨db, h, some k'⟩
  | savePendingBlock {db db' : Db} {h : History} {k k' : ZkSyncStateKeeper} {call : KeeperCall}
      {pendingBlock : SendablePendingBlock} {updates : AppliedUpdatesRequest} :
      KeeperStep env k (call, .stored pendingBlock updates) k' →
      db.savePendingBlock pendingBlock updates = some db' →
      pendingBlock.number.toNat = h.lastBlock + 1 →
      KeptStep env ⟨db, h, some k⟩ (.keeper call (.stored pendingBlock updates))
        ⟨db', { h with pending := h.pending ++ updates.accountUpdates }, some k'⟩
  | commitBlock {db db' : Db} {h : History} {k k' : ZkSyncStateKeeper} {call : KeeperCall}
      {request : BlockCommitRequest} {updates : AppliedUpdatesRequest} :
      KeeperStep env k (call, .sealed request updates) k' →
      db.commitBlock request updates = some db' →
      request.block.blockNumber.toNat = h.lastBlock + 1 →
      KeptStep env ⟨db, h, some k⟩ (.keeper call (.sealed request updates))
        ⟨db', { h with blocks := h.blocks ++ [h.pending ++ updates.accountUpdates], pending := [] },
          some k'⟩
  | verifyNextBlock {db db' : Db} {h : History} {keeper : Option ZkSyncStateKeeper} :
      db.verifyNextBlock = some db' →
      KeptStep env ⟨db, h, keeper⟩ .verifyNextBlock
        ⟨db', { h with verified := h.verified + 1 }, keeper⟩

/-- The accounts that all stored updates lead to. -/
def History.ledger (h : History) : Ledger := Ledger.apply (fun _ => none) h.segments.flatten

/-- What the tables hold leads from no account at all to the stored accounts, and a
running keeper goes on from there. -/
structure KeptOk (σ : KeptDb) : Prop where
  tabled : Tabled σ.db σ.history
  run : Run Ledger.HoldStep (fun _ => none) σ.history.segments.flatten σ.history.ledger
  keeper : ∀ k, σ.keeper = some k → GoesOn σ.history.ledger k ∧
    k.pendingBlock.storedAccountUpdates = σ.history.pending.length

section Histories

variable {env : Env} {h : History}

/-- Stored updates rebuild the accounts from nothing. -/
theorem lookup_applyUpdates_empty (us : AccountUpdates) :
    (fun id => (applyUpdates ∅ us).lookup id) = Ledger.apply (fun _ => none) us := by
  rw [Ledger.lookup_applyUpdates]
  rfl

/-- The accounts are those of the last block, and what is pending. -/
theorem History.ledger_eq (h : History) :
    h.ledger = Ledger.apply (fun id => (h.accountsAt h.lastBlock).lookup id) h.pending := by
  have hflat : h.segments.flatten = (h.genesis ++ (h.blocks.take h.lastBlock).flatten) ++
      h.pending := by
    unfold segments lastBlock
    rw [List.flatten_cons, List.flatten_append, List.flatten_singleton, List.take_length,
      List.append_assoc]
  unfold ledger accountsAt
  rw [lookup_applyUpdates_empty, hflat, apply_append]

/-- One more slice of the pending block. -/
theorem History.flatten_pending (h : History) (us : AccountUpdates) :
    ({ h with pending := h.pending ++ us } : History).segments.flatten =
      h.segments.flatten ++ us := by
  unfold segments
  simp only [List.flatten_cons, List.flatten_append, List.append_assoc, List.flatten_nil,
    List.append_nil]

/-- The pending block was sealed. -/
theorem History.flatten_sealed (h : History) (us : AccountUpdates) :
    ({ h with blocks := h.blocks ++ [h.pending ++ us], pending := [] } : History).segments.flatten =
      h.segments.flatten ++ us := by
  unfold segments
  simp only [List.flatten_cons, List.flatten_append, List.append_assoc, List.flatten_nil,
    List.append_nil]

/-- Each step keeps the tables and the keeper together. -/
theorem KeptStep.ok (hz : env.NoZeroSigner) {σ σ' : KeptDb} {call : KeptCall} (hσ : KeptOk σ)
    (hstep : KeptStep env σ call σ') : KeptOk σ' := by
  cases hstep with
  | @start db h keeper p _ _ _ _ _ pendingBlock k₀ k hloaded hnew hinit hpending =>
    have hbacked : Ledger.BackedBy (fun id => (h.accountsAt h.lastBlock).lookup id) p.tree.get :=
      fun id a ha => ⟨a, hloaded id a ha, Account.Equiv.refl a⟩
    obtain ⟨hgoes, hstored⟩ := goesOn_start hz hbacked hnew hinit
    rw [hpending] at hgoes hstored
    refine ⟨hσ.tabled, hσ.run, fun k' hk' => ?_⟩
    obtain rfl := Option.some.inj hk'
    rw [← h.ledger_eq] at hgoes
    exact ⟨hgoes, hstored⟩
  | @silent db h k k' call reply hcall hnone =>
    obtain ⟨hgoes, hstored⟩ := hσ.keeper k rfl
    obtain ⟨hsent, hat⟩ := hgoes.step hz hcall
    refine ⟨hσ.tabled, hσ.run, fun k'' hk'' => ?_⟩
    obtain rfl := Option.some.inj hk''
    cases hat with
    | @silent reply _ hstored' =>
      have hnil : reply.sentUpdates = [] := by
        cases reply with
        | executed => rfl
        | full => rfl
        | sealed => cases hnone
        | stored => cases hnone
      have hnext := hsent.next
      dsimp only at hnext
      rw [hnil] at hnext
      exact ⟨hnext, hstored'.trans hstored⟩
    | stored => cases hnone
    | sealed => cases hnone
  | @savePendingBlock db db' h k k' call pendingBlock updates hcall hsave hnumber =>
    obtain ⟨hgoes, hstored⟩ := hσ.keeper k rfl
    obtain ⟨hsent, hat⟩ := hgoes.step hz hcall
    cases hat with
    | silent hnone => cases hnone
    | stored hfirst hstored' =>
      unfold Db.savePendingBlock at hsave
      rw [hfirst, hstored] at hsave
      refine ⟨hσ.tabled.commitStateUpdate hsave hnumber, ?_, fun k'' hk'' => ?_⟩
      · dsimp only
        unfold History.ledger
        rw [h.flatten_pending, apply_append]
        exact hσ.run.append hsent.run
      · obtain rfl := Option.some.inj hk''
        dsimp only
        unfold History.ledger
        rw [h.flatten_pending, apply_append]
        refine ⟨hsent.next, ?_⟩
        rw [hstored', hstored, List.length_append]
  | @commitBlock db db' h k k' call request updates hcall hcommit hnumber =>
    obtain ⟨hgoes, hstored⟩ := hσ.keeper k rfl
    obtain ⟨hsent, hat⟩ := hgoes.step hz hcall
    cases hat with
    | silent hnone => cases hnone
    | sealed hfirst hstored' =>
      obtain ⟨db₁, hslice, hexecute⟩ := Option.bind_eq_some_iff.mp hcommit
      rw [hfirst, hstored] at hslice
      have hslice' := hσ.tabled.commitStateUpdate hslice hnumber
      refine ⟨hslice'.executeCommit hexecute hnumber, ?_, fun k'' hk'' => ?_⟩
      · dsimp only
        unfold History.ledger
        rw [h.flatten_sealed, apply_append]
        exact hσ.run.append hsent.run
      · obtain rfl := Option.some.inj hk''
        dsimp only
        unfold History.ledger
        rw [h.flatten_sealed, apply_append]
        exact ⟨hsent.next, hstored'⟩
  | verifyNextBlock hcall => exact ⟨(hσ.tabled.verifyNextBlock hcall).1, hσ.run, hσ.keeper⟩

/-- A server with the genesis block. -/
def KeptDb.start (db : Db) (feeAccountAddress : Address) : KeptDb :=
  ⟨db, .start feeAccountAddress, none⟩

/-- They are together at the genesis block. -/
theorem keptOk_start {db₀ : Db} {feeAccountAddress : Address}
    (hgenesis : Db.empty.createGenesisBlock feeAccountAddress = some db₀) :
    KeptOk (.start db₀ feeAccountAddress) where
  tabled := (saved_start Env.leafOne.hasher hgenesis).tabled
  run := .single ⟨rfl, rfl⟩
  keeper _ hk := by cases hk

/-! ## Differences -/

/-- The updates of a difference; none, if there is no difference. -/
def Db.diffUpdates (db : Db) (fromBlock toBlock : BlockNumber) : AccountUpdates :=
  ((db.loadStateDiff fromBlock (some toBlock)).map Prod.snd).getD []

/-- Forwards the stored updates are read as they are. -/
theorem Tabled.diffUpdates_forward {db : Db} (ht : Tabled db h) {a b : BlockNumber} (hab : a ≤ b) :
    db.diffUpdates a b = h.between a.toNat b.toNat := by
  unfold Db.diffUpdates History.between
  rw [Db.loadStateDiff_forward ht.updates hab]
  split
  next => rfl
  next hnil => exact (not_not.mp hnil).symm

/-- Backwards they are reversed. -/
theorem Db.diffUpdates_backward {db : Db} {a b : BlockNumber} (hba : b < a) :
    db.diffUpdates a b = reverseUpdates (db.diffUpdates b a) := by
  have hle : b ≤ a := UInt32.le_of_lt hba
  have hnot : ¬ a ≤ b := UInt32.not_le.mpr hba
  have hmin : min b a = b := if_pos hle
  have hmax : max b a = a := if_pos hle
  have hmin' : min a b = b := if_neg hnot
  have hmax' : max a b = a := if_neg hnot
  unfold diffUpdates loadStateDiff
  simp only [hmin, hmax, hmin', hmax', hle, hnot, decide_true, decide_false, if_true,
    Bool.false_eq_true, if_false]
  generalize (sortByOrder _).map StorageAccountDiff.into = us
  cases us with
  | nil => rfl
  | cons u us =>
    have hne : reverseUpdates (u :: us) ≠ [] := by
      intro hnil
      unfold reverseUpdates at hnil
      rw [List.map_eq_nil_iff, List.reverse_eq_nil_iff] at hnil
      cases hnil
    rw [if_pos hne, if_pos (List.cons_ne_nil u us)]
    rfl

/-- The updates between two blocks hold where they start. -/
theorem KeptOk.between {σ : KeptDb} (hσ : KeptOk σ) {a b : Nat} (hab : a ≤ b)
    (hb : b ≤ σ.history.lastBlock) :
    Run Ledger.HoldStep (fun id => (σ.history.accountsAt a).lookup id) (σ.history.between a b)
      (fun id => (σ.history.accountsAt b).lookup id) := by
  have hstates : ∀ {us : AccountUpdates} {m m' : Ledger}, Run Ledger.HoldStep m us m' →
      m' = m.apply us := fun hrun => by
    induction hrun with
    | nil => rfl
    | cons hstep _ ih =>
      rw [ih, ← hstep.2]
      rfl
  have hsplit : σ.history.segments.flatten = ((σ.history.segments.take (a + 1)).flatten ++
      σ.history.between a b) ++ (σ.history.segments.drop (b + 1)).flatten := by
    unfold History.between
    have htake : σ.history.segments.take (a + 1) =
        (σ.history.segments.take (b + 1)).take (a + 1) := by
      rw [List.take_take, Nat.min_eq_left (Nat.succ_le_succ hab)]
    rw [htake, ← List.flatten_append, ← List.flatten_append, List.take_append_drop,
      List.take_append_drop]
  have hrun := hσ.run
  rw [hsplit] at hrun
  obtain ⟨m', hrun, -⟩ := hrun.of_append
  obtain ⟨m, hfirst, hrun⟩ := hrun.of_append
  obtain rfl := hstates hrun
  obtain rfl := hstates hfirst
  have ha : (fun id => (σ.history.accountsAt a).lookup id) =
      Ledger.apply (fun _ => none) (σ.history.segments.take (a + 1)).flatten := by
    rw [History.accountsAt_eq a (hab.trans hb), lookup_applyUpdates_empty]
  have hb' : (fun id => (σ.history.accountsAt b).lookup id) =
      Ledger.apply (fun id => (σ.history.accountsAt a).lookup id) (σ.history.between a b) := by
    rw [History.accountsAt_split hab hb, Ledger.lookup_applyUpdates]
    rfl
  rw [hb', ha]
  exact hrun

/-- The updates of a difference lead from block to block: exactly forwards, and up to
zero balances backwards. -/
structure DiffReaches (σ : KeptDb) (a b : BlockNumber) : Prop where
  same : Ledger.SameAs
    (fun id => (applyUpdates (σ.history.accountsAt a.toNat) (σ.db.diffUpdates a b)).lookup id)
    (fun id => (σ.history.accountsAt b.toNat).lookup id)
  forward : a ≤ b → applyUpdates (σ.history.accountsAt a.toNat) (σ.db.diffUpdates a b) =
    σ.history.accountsAt b.toNat

/-- From any block to any other the difference leads to its accounts. -/
theorem KeptOk.diffReaches {σ : KeptDb} (hσ : KeptOk σ) {a b : BlockNumber}
    (ha : a.toNat ≤ σ.history.lastBlock) (hb : b.toNat ≤ σ.history.lastBlock) :
    DiffReaches σ a b := by
  have hforward : a ≤ b → applyUpdates (σ.history.accountsAt a.toNat) (σ.db.diffUpdates a b) =
      σ.history.accountsAt b.toNat := fun hab => by
    rw [hσ.tabled.diffUpdates_forward hab]
    exact (History.accountsAt_split (UInt32.le_iff_toNat_le.mp hab) hb).symm
  refine ⟨?_, hforward⟩
  by_cases hab : a ≤ b
  · rw [hforward hab]
    exact Ledger.sameAs_refl _
  · have hba : b < a := UInt32.not_le.mp hab
    have hrun := hσ.between (UInt32.le_iff_toNat_le.mp (UInt32.le_of_lt hba)) ha
    rw [Db.diffUpdates_backward hba, hσ.tabled.diffUpdates_forward (UInt32.le_of_lt hba),
      Ledger.lookup_applyUpdates]
    exact Ledger.undo_run hrun _ (Ledger.sameAs_refl _)

/-- The committed state at a block, from the verified one. -/
theorem Tabled.loadCommittedState {db : Db} (ht : Tabled db h) (b : BlockNumber) :
    (db.loadCommittedState (some b)).2 =
      applyUpdates (h.accountsAt h.verified) (db.diffUpdates (UInt32.ofNat h.verified) b) := by
  have hstored : db.loadVerifiedState = (UInt32.ofNat h.verified, h.accountsAt h.verified) := by
    unfold Db.loadVerifiedState
    rw [ht.getLastVerifiedBlock, ht.accounts]
  unfold Db.loadCommittedState Db.diffUpdates
  rw [hstored]
  dsimp only
  cases db.loadStateDiff (UInt32.ofNat h.verified) (some b) with
  | none => rfl
  | some diff => rfl

/-- Whatever was sealed, saved and verified, and however often the keeper was
started: a difference leads from any block to any other, and the committed state
of a block is that of its accounts, wherever the snapshot stands. -/
theorem state_diffs_reach (hz : env.NoZeroSigner) {db₀ : Db} {feeAccountAddress : Address}
    (hgenesis : Db.empty.createGenesisBlock feeAccountAddress = some db₀) {σ : KeptDb}
    {calls : List KeptCall} (hrun : Run (KeptStep env) (.start db₀ feeAccountAddress) calls σ)
    {a b : BlockNumber} (ha : a.toNat ≤ σ.history.lastBlock)
    (hb : b.toNat ≤ σ.history.lastBlock) :
    DiffReaches σ a b ∧
      Ledger.SameAs (fun id => (σ.db.loadCommittedState (some b)).2.lookup id)
        (fun id => (σ.history.accountsAt b.toNat).lookup id) := by
  have hσ : KeptOk σ := Run.invariant (fun _ _ _ hσ hstep => hstep.ok hz hσ) hrun
    (keptOk_start hgenesis)
  refine ⟨hσ.diffReaches ha hb, ?_⟩
  have hverified := hσ.tabled.toNat_verified
  have hdiff := (hσ.diffReaches (a := UInt32.ofNat σ.history.verified)
    (by rw [hverified]; exact hσ.tabled.verified) hb).same
  rw [hverified] at hdiff
  rw [hσ.tabled.loadCommittedState]
  exact hdiff

/-! ### A deposit, and back -/

/-- The account of the genesis block. -/
def genesisAccounts : AList fun _ : AccountId => Account :=
  AList.singleton 0 (Account.defaultWithAddress 1)

/-- The genesis block has the fee account. -/
theorem lookup_genesis (id : AccountId) :
    ((History.start 1).accountsAt 0).lookup id = genesisAccounts.lookup id := by
  show (applyUpdates ∅ [(0, .Create 1 0)]).lookup id = _
  rw [Db.lookup_applyUpdates_single]
  by_cases hid : id = 0
  · rw [if_pos hid, hid]
    rfl
  · rw [if_neg hid]
    have hmem : id ∉ genesisAccounts := fun hmem => hid (List.mem_singleton.mp hmem)
    exact (AList.lookup_eq_none.mpr hmem).symm

theorem genesisAccounts_fit {id : AccountId} {a : Account}
    (h : genesisAccounts.lookup id = some a) : a.Fits := by
  have hmem := AList.mem_lookup_iff.mp h
  cases List.mem_singleton.mp hmem
  exact fun token htoken => absurd htoken Finmap.notMem_empty

def genesisParams : ZkSyncStateInitParams := .fromAccMap leafOne genesisAccounts 0 0

/-- The keeper that starts on the genesis block, before it asks for the root hash. -/
def genesisKeeper : ZkSyncStateKeeper := .unhashed genesisParams 1 0 30 [6, 30] 10 2 5

/-- A running keeper between two blocks: nothing is pending, and it could seal. -/
structure BetweenBlocks (env : Env) (σ : KeptDb) (k : ZkSyncStateKeeper) : Prop where
  keeper : σ.keeper = some k
  hashable : Hashable env k
  fresh : ∃ first max, k.pendingBlock = PendingBlock.new first max
  sizes : ∃ max size, k.availableBlockChunkSizes.getLast? = some max ∧
    smallestBlockSizeForChunks 0 k.availableBlockChunkSizes = .ok size
  feeAccount : (k.state.getAccount k.feeAccountId).isSome
  number : k.state.blockNumber.toNat = σ.history.lastBlock + 1
  pending : σ.history.pending = []

/-- Sealing leads from a block to the next one. -/
theorem betweenBlocks_of_sealed {env : Env} {k k' : ZkSyncStateKeeper}
    {request : BlockCommitRequest} {updates : AppliedUpdatesRequest} {db : Db} {h : History}
    (hhashable : Hashable env k) (hseal : k.sealPendingBlock env = .ok ((request, updates), k'))
    (hsizes : ∃ size, smallestBlockSizeForChunks 0 k.availableBlockChunkSizes = .ok size)
    (hnumber : request.block.blockNumber.toNat = h.lastBlock) (hlast : h.lastBlock + 1 < 2 ^ 32)
    (hpending : h.pending = []) : BetweenBlocks env ⟨db, h, some k'⟩ k' := by
  obtain ⟨feeUpdates, paid, hashed, number, max, hs, hnext, hmax, rfl⟩ :=
    sealPendingBlock_eq_ok hseal
  obtain ⟨size, hsize⟩ := hsizes
  have hpaid : Writes env.hasher k.state paid := (Step.collectFee hs.fees : Step env _ _ _).writes
  have hwrites : Writes env.hasher k.state hashed :=
    hpaid.trans (Step.rootHash hs.root : Step env _ _ _).writes
  obtain ⟨a, -, ha, -⟩ := collectFee_effect hs.fees
  refine ⟨rfl, hhashable.step (by exact trivial) (sealStep hseal), ⟨_, _, rfl⟩, ⟨max, size, hmax, hsize⟩,
    hwrites.occupied (Option.isSome_iff_exists.mpr ⟨a, ha⟩), ?_, hpending⟩
  show number.toNat = _
  rw [u32Increment_eq_ok hnext, UInt32.toNat_add, ← hs.number, hnumber]
  exact Nat.mod_eq_of_lt hlast

/-- Between two blocks, a block without operations can be sealed, and is stored. -/
theorem exists_emptyBlock {env : Env} (hrelease : env.overflowChecks = false) {σ : KeptDb}
    {k : ZkSyncStateKeeper} (hσ : KeptOk σ) (h : BetweenBlocks env σ k)
    (hlast : σ.history.lastBlock + 2 < 2 ^ 32) :
    ∃ request updates σ' k', KeptStep env σ (.keeper .sealBlock (.sealed request updates)) σ' ∧
      BetweenBlocks env σ' k' ∧ σ'.history = { σ.history with blocks := σ.history.blocks ++ [[]] } ∧
      ∀ n ≤ σ.history.lastBlock, σ'.db.blocks.find n = σ.db.blocks.find n := by
  obtain ⟨db, hist, keeper⟩ := σ
  obtain rfl : keeper = some k := h.keeper
  obtain ⟨first, max, hfresh⟩ := h.fresh
  obtain ⟨a, ha⟩ := Option.isSome_iff_exists.mp h.feeAccount
  obtain ⟨maxBlockSize, size, hmax, hsize⟩ := h.sizes
  have hfee : k.state.collectFee k.pendingBlock.collectedFees k.feeAccountId =
      .ok ([], k.state.insertAccount k.feeAccountId a) := by
    unfold ZkSyncState.collectFee
    rw [ha, hfresh]
    rfl
  obtain ⟨request, updates, k', hseal⟩ := h.hashable.seal hfee hmax (by rw [hfresh]; exact hsize)
    (by rw [hfresh]; exact Nat.le_refl 0) (by rw [hrelease]; rfl)
  obtain ⟨feeUpdates, paid, hashed, _, _, hs, -⟩ := sealPendingBlock_eq_ok hseal
  have hnone : updates = ⟨[], hist.pending.length⟩ := by
    have hpaid := hs.fees
    rw [hfee] at hpaid
    cases hpaid
    rw [hs.updates_eq, hs.accounts, hfresh, show hist.pending = [] from h.pending]
    rfl
  have hpaid : Writes env.hasher k.state paid := (Step.collectFee hs.fees : Step env _ _ _).writes
  have hwrites : Writes env.hasher k.state hashed :=
    hpaid.trans (Step.rootHash hs.root : Step env _ _ _).writes
  have hnumber : request.block.blockNumber.toNat = hist.lastBlock + 1 := by
    rw [hs.number, hwrites.blockNumber]
    exact h.number
  subst hnone
  obtain ⟨db', hcommit, -⟩ := exists_commitBlock hσ.tabled request [] hnumber ⟨_, rfl⟩
  have hhistory : { hist with blocks := hist.blocks ++ [hist.pending ++ []], pending := [] } =
      { hist with blocks := hist.blocks ++ [[]] } := by
    rw [show hist.pending = [] from h.pending]
    rfl
  have hstep : KeptStep env ⟨db, hist, some k⟩
      (.keeper .sealBlock (.sealed request ⟨[], hist.pending.length⟩)) _ :=
    .commitBlock (sealStep hseal) hcommit hnumber
  rw [hhistory] at hstep
  have hrows : ∀ n ≤ hist.lastBlock, db'.blocks.find n = db.blocks.find n := by
    have hbind : (db.commitStateUpdate request.block.blockNumber [] hist.pending.length).bind
        (fun db => db.executeCommit request.block) = some db' := hcommit
    obtain ⟨db₁, hstate, hexecute⟩ := Option.bind_eq_some_iff.mp hbind
    obtain rfl : db = db₁ := Option.some.inj hstate
    obtain ⟨blocks, rfl, hfind⟩ := Db.executeCommit_eq_some hexecute
    intro n hn
    rw [hfind, if_neg (by omega)]
  refine ⟨request, _, _, k', hstep, ?_, rfl, hrows⟩
  have hlength : (hist.blocks ++ [[]]).length = hist.lastBlock + 1 := List.length_append
  refine betweenBlocks_of_sealed h.hashable hseal ⟨size, hsize⟩ (hnumber.trans hlength.symm) ?_
    h.pending
  show (hist.blocks ++ [[]]).length + 1 < 2 ^ 32
  rw [hlength]
  exact hlast

/-- What the deposit of `sampleDeposit 1` writes. -/
def depositUpdates : AccountUpdates := [(0, .UpdateBalance 0 0 (0, 0, 5))]

/-- The genesis block, and behind it the block with this deposit. -/
def depositHistory : History := { History.start 1 with blocks := [depositUpdates] }

/-- A server that has executed a deposit to the fee account, and sealed and stored the block. -/
structure KeptDeposit (db₀ db : Db) (k₀ k k' : ZkSyncStateKeeper) (reply : KeeperReply)
    (request : BlockCommitRequest) : Prop where
  genesis : Db.empty.createGenesisBlock 1 = some db₀
  new : ZkSyncStateKeeper.new Env.leafOne genesisParams 1 [6, 30] 10 2 5 = .ok k₀
  alike : KeeperAlike genesisKeeper k₀
  step : KeeperStep Env.leafOne k₀
    (.priorityOp ⟨0, .Deposit (sampleDeposit 1), 0, [], 0⟩, reply) k
  silent : reply.sent = []
  hashable : Hashable Env.leafOne k
  ops : k.pendingBlock.executedOps = [.Deposit ⟨sampleDeposit 1, 0⟩]
  sizes : k.availableBlockChunkSizes = [6, 30]
  feeAccount : k.feeAccountId = 0
  sealed : k.sealPendingBlock Env.leafOne = .ok ((request, ⟨depositUpdates, 0⟩), k')
  number : request.block.blockNumber = 1
  stored : db.blocks.find 1 = some ⟨1, request.block.newRootHash⟩
  root : Ledger.root leafOne (fun id => (depositHistory.accountsAt 1).lookup id) =
    .ok request.block.newRootHash
  run : Run (KeptStep Env.leafOne) (.start db₀ 1)
    [.start, .keeper (.priorityOp ⟨0, .Deposit (sampleDeposit 1), 0, [], 0⟩) reply,
      .keeper .sealBlock (.sealed request ⟨depositUpdates, 0⟩)] ⟨db, depositHistory, some k'⟩

/-- A server that has stored the block of a deposit. -/
theorem exists_keptDeposit : ∃ db₀ db k₀ k k' reply request,
    KeptDeposit db₀ db k₀ k k' reply request := by
  obtain ⟨db₀, hgenesis, -⟩ := exists_genesis 1
  obtain ⟨k₀, hnew, halike, hhashable⟩ : ∃ k₀,
      ZkSyncStateKeeper.new Env.leafOne genesisParams 1 [6, 30] 10 2 5 = .ok k₀ ∧
      KeeperAlike genesisKeeper k₀ ∧ Hashable Env.leafOne k₀ :=
    Hashable.exists_new _ _ _ (fun _ _ => genesisAccounts_fit)
      ⟨by decide, by decide, rfl, ⟨Account.defaultWithAddress 1, rfl⟩, rfl⟩
  let calls : List KeeperCall := [.priorityOp ⟨0, .Deposit (sampleDeposit 1), 0, [], 0⟩]
  have hsum : ((genesisKeeper.answers Env.leafOne calls).toOption.map fun r =>
      decide (r.2.pendingBlock.accountUpdates = depositUpdates) &&
      decide (r.2.pendingBlock.executedOps = [.Deposit ⟨sampleDeposit 1, 0⟩]) &&
      decide (r.2.feeAccountId = 0) &&
      decide (r.2.pendingBlock.storedAccountUpdates = 0) &&
      decide (r.2.availableBlockChunkSizes = [6, 30]) &&
      decide (smallestBlockSizeForChunks (chunksOf (r.2.pendingBlock.successOperations ++
        r.2.pendingBlock.failedTxs.map ExecutedOperations.Tx)) [6, 30] = .ok 6) &&
      decide ((r.2.state.collectFee r.2.pendingBlock.collectedFees r.2.feeAccountId).toOption.map
        Prod.fst = some []) && decide (r.1.flatMap (·.2.sent) = [])) = some true := by
    decide +kernel
  obtain ⟨⟨tr, k₁⟩, hsome, hsum⟩ := Option.map_eq_some_iff.mp hsum
  simp only [Bool.and_eq_true, decide_eq_true_eq] at hsum
  obtain ⟨⟨⟨⟨⟨⟨⟨hupdates, hops⟩, hfeeAccount⟩, hstored⟩, hsizes⟩, hsize⟩, hfees⟩, hsent⟩ := hsum
  obtain ⟨⟨us, paid₁⟩, hpaid₁, rfl⟩ := Option.map_eq_some_iff.mp hfees
  have hentries : ∀ call ∈ calls, call.IsEntry := fun call hcall => by
    rw [List.mem_singleton.mp hcall]
    exact trivial
  obtain ⟨k, paid, hanswers, hk, hhashable', hpaid, -, request, updates, k', hseal⟩ :=
    exists_sealed halike hhashable rfl hentries
      (fun call hcall => by rw [List.mem_singleton.mp hcall]; exact trivial)
      (Outcome.toOption_eq_some.mp hsome)
      (Outcome.toOption_eq_some.mp hpaid₁) (by rw [hsizes]; rfl) (by rw [hsizes]; exact hsize)
      (by rw [hstored]; exact Nat.zero_le _)
  have hrest : k = _ := hk.rest
  have hpending : k.pendingBlock = k₁.pendingBlock := by rw [hrest]
  obtain ⟨hrun, hcalls⟩ := answers_run hanswers
  -- the slice that is sent, and the number of its block
  obtain ⟨feeUpdates, paid', hashed, _, _, hs, -⟩ := sealPendingBlock_eq_ok hseal
  have hslice : updates = ⟨depositUpdates, 0⟩ := by
    have hnil : feeUpdates = [] := by
      have h := hs.fees
      rw [hpaid] at h
      cases h
      rfl
    rw [hs.updates_eq, hs.accounts, hnil, hpending, hupdates, hstored]
    rfl
  obtain ⟨e, rfl⟩ : ∃ e, tr = [e] := List.length_eq_one_iff.mp (by
    rw [← List.length_map Prod.fst, hcalls]
    rfl)
  obtain ⟨call, reply⟩ := e
  have hreply : reply.sent = [] := by
    rw [List.flatMap_cons, List.flatMap_nil, List.append_nil] at hsent
    exact hsent
  have hstep : KeeperStep Env.leafOne k₀ (call, reply) k := by
    cases hrun with
    | cons hstep hrest =>
      cases hrest
      exact hstep
  have hfollows : SealedBlock.Follows Env.leafOne 1 0 (fun id => genesisAccounts.lookup id)
      ⟨request, [updates]⟩ := by
    have howned := (hrun.append (Run.single (sealStep hseal))).guard
      (P := fun k e => e.1.OwnedExit k) fun e he s => by
        rcases List.mem_append.mp he with he | he
        · have hmem : e.1 ∈ calls := hcalls ▸ List.mem_map_of_mem he
          rw [List.mem_singleton.mp hmem]
          exact trivial
        · rw [List.mem_singleton.mp he]
          exact trivial
    have hstream := sealed_blocks_consistent noZeroSigner_leafOne hnew howned
    rw [sentBy_seal hentries hanswers] at hstream
    exact hstream.1
  subst hslice
  have hnumber : request.block.blockNumber = 1 := hfollows.number
  obtain ⟨db, hcommit, -⟩ := exists_commitBlock (saved_start leafOne hgenesis).tabled request
    depositUpdates (by rw [hnumber]; rfl) ⟨_, rfl⟩
  have hrow : db.blocks.find 1 = some ⟨1, request.block.newRootHash⟩ := by
    have hbind : (db₀.commitStateUpdate request.block.blockNumber depositUpdates 0).bind
        (fun db => db.executeCommit request.block) = some db := hcommit
    obtain ⟨db₁, -, hexecute⟩ := Option.bind_eq_some_iff.mp hbind
    obtain ⟨blocks, rfl, hfind⟩ := Db.executeCommit_eq_some hexecute
    have h := hfind 1
    rw [hnumber] at h
    exact h
  have hroot : Ledger.root leafOne (fun id => (depositHistory.accountsAt 1).lookup id) =
      .ok request.block.newRootHash := by
    have hupdated : request.accountsUpdated = depositUpdates := by
      obtain ⟨-, rest, hall, hnil⟩ := hfollows.slices
      rw [hall, show rest = [] from hnil, List.append_nil]
    rw [← hfollows.root, hupdated]
    refine congrArg (Ledger.root leafOne) (funext fun id => ?_)
    have happlied : depositHistory.accountsAt 1 =
        applyUpdates ((History.start 1).accountsAt 0) depositUpdates := by
      unfold History.accountsAt
      exact Db.applyUpdates_append _ _ _
    rw [happlied, congrFun (Ledger.lookup_applyUpdates _ _) id]
    exact congrArg (fun m => Ledger.apply m depositUpdates id) (funext lookup_genesis)
  have hloaded : ∀ id a, ((History.start 1).accountsAt (History.start 1).lastBlock).lookup id =
      some a → genesisParams.tree.get id = some a := fun id a ha => by
    have hget := getAccount_fromAccMap leafOne genesisAccounts 0 id
    rw [← lookup_genesis] at hget
    exact hget.trans ha
  have hnothing : k₀.initializeWith Env.leafOne none = .ok k₀ := rfl
  obtain rfl : call = .priorityOp ⟨0, .Deposit (sampleDeposit 1), 0, [], 0⟩ :=
    List.singleton_inj.mp hcalls
  exact ⟨db₀, db, k₀, k, k', reply, request, hgenesis, hnew, halike, hstep, hreply, hhashable',
    by rw [hpending]; exact hops, by rw [hrest]; exact hsizes, by rw [hrest]; exact hfeeAccount,
    hseal, hnumber, hrow, hroot,
    .cons (.start hloaded hnew hnothing (getAccount_new hnew).2.1)
      (.cons (.silent hstep hreply)
        (.cons (.commitBlock (sealStep hseal) hcommit (by rw [hnumber]; rfl)) (.nil _)))⟩

/-- After the deposit the keeper could go on. -/
theorem KeptDeposit.between {db₀ db : Db} {k₀ k k' : ZkSyncStateKeeper} {reply : KeeperReply}
    {request : BlockCommitRequest} (h : KeptDeposit db₀ db k₀ k k' reply request) :
    BetweenBlocks Env.leafOne ⟨db, depositHistory, some k'⟩ k' :=
  betweenBlocks_of_sealed h.hashable h.sealed ⟨6, by rw [h.sizes]; rfl⟩ (by rw [h.number]; rfl)
    (by decide) rfl

/-- The difference from the block of the deposit back to the genesis block takes the deposit
away. -/
theorem state_diffs_reach_deposit : ∃ db₀ σ calls,
    Db.empty.createGenesisBlock 1 = some db₀ ∧
    Run (KeptStep Env.leafOne) (.start db₀ 1) calls σ ∧
    σ.history.blocks = [[(0, .UpdateBalance 0 0 (0, 0, 5))]] ∧
    DiffReaches σ 1 0 ∧
      Ledger.SameAs (fun id => (σ.db.loadCommittedState (some 0)).2.lookup id)
        (fun id => (σ.history.accountsAt 0).lookup id) := by
  obtain ⟨db₀, db, k₀, k, k', reply, request, h⟩ := exists_keptDeposit
  exact ⟨db₀, _, _, h.genesis, h.run, rfl,
    state_diffs_reach noZeroSigner_leafOne h.genesis h.run (a := 1) (b := 0) (Nat.le_refl 1) (Nat.zero_le 1)⟩

end Histories

end ZkSync
