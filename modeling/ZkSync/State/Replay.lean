import ZkSync.State.Writes

/-!
# Replay protection

A committed transaction carries the nonce its sender had, and leaves it one
higher; nothing else moves a nonce, and a batch that is undone puts every nonce
back. So the nonces committed for one account are consecutive, whatever happens
in between (`Follows`), and none occurs twice.
-/

namespace ZkSync

/-- The nonce at an id, zero where no account is. -/
def Ledger.nonceOf (m : Ledger) (id : AccountId) : Nat := (m id).elim 0 (·.nonce.toNat)

/-- The transactions a run executed for good. -/
def committed (tr : List Event) : List Executed := tr.flatMap Event.committed

/-- The nonces committed for one account, in order. -/
def noncesOf (id : AccountId) (es : List Executed) : List Nat :=
  (es.filter fun e => e.1.senderId = some id).map (·.1.nonce.toNat)

/-! ## Consecutive nonces -/

/-- `ns` counts up from `n`, and `n'` comes next. -/
structure Follows (n : Nat) (ns : List Nat) (n' : Nat) : Prop where
  list : ns = List.range' n ns.length
  next : n' = n + ns.length

theorem follows_nil (n : Nat) : Follows n [] n := ⟨rfl, rfl⟩

theorem follows_single (n : Nat) : Follows n [n] (n + 1) := ⟨rfl, rfl⟩

theorem Follows.append {n n' n'' : Nat} {ns ns' : List Nat} (h : Follows n ns n')
    (h' : Follows n' ns' n'') : Follows n (ns ++ ns') n'' := by
  obtain ⟨hlist, rfl⟩ := h
  obtain ⟨hlist', rfl⟩ := h'
  refine ⟨?_, by rw [List.length_append, Nat.add_assoc]⟩
  have happ := @List.range'_append n ns.length ns'.length 1
  rw [Nat.one_mul, ← hlist, ← hlist'] at happ
  rw [List.length_append, happ]

theorem Follows.nodup {n n' : Nat} {ns : List Nat} (h : Follows n ns n') : ns.Nodup := by
  rw [h.list]
  exact List.nodup_range'

theorem Follows.le {n n' : Nat} {ns : List Nat} (h : Follows n ns n') : n ≤ n' := by
  rw [h.next]
  exact Nat.le_add_right _ _

theorem noncesOf_append (id : AccountId) (es es' : List Executed) :
    noncesOf id (es ++ es') = noncesOf id es ++ noncesOf id es' := by
  unfold noncesOf
  rw [List.filter_append, List.map_append]

section Nonces

variable {env : Env} {s s' : ZkSyncState}

open Ledger

theorem nonceOf_insertAccount (s : ZkSyncState) (id id' : AccountId) (account : Account) :
    nonceOf (s.insertAccount id account).getAccount id' =
      if id' = id then account.nonce.toNat else nonceOf s.getAccount id' := by
  unfold nonceOf
  rw [ZkSyncState.getAccount_insertAccount, Function.update_apply]
  split <;> rfl

/-- Writing an account back with its nonce. -/
theorem nonceOf_insertAccount_same {id : AccountId} {account : Account}
    (h : nonceOf s.getAccount id = account.nonce.toNat) (id' : AccountId) :
    nonceOf (s.insertAccount id account).getAccount id' = nonceOf s.getAccount id' := by
  rw [nonceOf_insertAccount]
  split
  next hid => rw [hid, h]
  next => rfl

theorem nonceOf_some {id : AccountId} {a : Account} (h : s.getAccount id = some a) :
    nonceOf s.getAccount id = a.nonce.toNat := by
  unfold nonceOf
  rw [h]
  rfl

theorem nonceOf_none {id : AccountId} (h : s.getAccount id = none) :
    nonceOf s.getAccount id = 0 := by
  unfold nonceOf
  rw [h]
  rfl

theorem Ledger.Restores.nonceOf_eq {cur m : Ledger} (h : Restores cur m) (id : AccountId) :
    nonceOf cur id = nonceOf m id := by
  unfold nonceOf
  cases hm : m id with
  | none => rcases h.vacant hm with hc | hc <;> (rw [hc]; try rfl)
  | some a =>
    obtain ⟨a', hc, he⟩ := h.account hm
    rw [hc]
    exact congrArg UInt32.toNat he.nonce

/-- What a transaction does to the nonces: its signer `i` had the nonce of the
transaction, and has the next one; no other nonce moves. -/
structure Bumps (s : ZkSyncState) (tx : ZkSyncTx) (s' : ZkSyncState) (i : AccountId) : Prop where
  signer : tx.senderId = some i
  before : ∃ a, s.getAccount i = some a ∧ a.nonce = tx.nonce
  after : ∃ a', s'.getAccount i = some a' ∧ a'.nonce = tx.nonce + 1
  others : ∀ id, id ≠ i → nonceOf s'.getAccount id = nonceOf s.getAccount id

theorem bumps_of_sender (tx : ZkSyncTx) {i : AccountId} {a a' : Account}
    (hsigner : tx.senderId = some i) (ha : s.getAccount i = some a) (hnonce : tx.nonce = a.nonce)
    (hnonce' : a'.nonce = a.nonce + 1) : Bumps s tx (s.insertAccount i a') i where
  signer := hsigner
  before := ⟨a, ha, hnonce.symm⟩
  after := ⟨a', s.getAccount_insertAccount_self i a', by rw [hnonce', hnonce]⟩
  others := fun id hid => by rw [nonceOf_insertAccount, if_neg hid]

/-- A second write that keeps the nonce at another id. -/
theorem Bumps.insert {tx : ZkSyncTx} {i j : AccountId} {b : Account} (h : Bumps s tx s' i)
    (hij : i ≠ j) (hb : nonceOf s'.getAccount j = b.nonce.toNat) :
    Bumps s tx (s'.insertAccount j b) i where
  signer := h.signer
  before := h.before
  after := by
    obtain ⟨a', ha', hn⟩ := h.after
    exact ⟨a', by rw [s'.getAccount_insertAccount_of_ne j b hij, ha'], hn⟩
  others := fun id hid => by rw [nonceOf_insertAccount_same hb, h.others id hid]

/-- A successful transaction bumps the nonce of its signer. -/
theorem TxEffect.bumps (hz : env.NoZeroSigner) {tx : ZkSyncTx} {r : OpSuccess}
    (h : TxEffect env s tx r s') : ∃ i, Bumps s tx s' i := by
  cases h with
  | @transfer tx j a b sender _ _ targetAccount _ ne =>
    refine ⟨tx.accountId, (bumps_of_sender (.Transfer tx) rfl sender.account sender.nonce_eq rfl).insert ne ?_⟩
    rw [nonceOf_insertAccount, if_neg ne.symm]
    rw [nonceOf_some targetAccount]
    rfl
  | transferToSelf sender => exact ⟨_, bumps_of_sender _ rfl sender.account sender.nonce_eq rfl⟩
  | @transferToNew tx a sender _ _ free =>
    have ne : tx.accountId ≠ s.getFreeAccountId := by
      intro h
      rw [← h, sender.account] at free
      cases free
    refine ⟨tx.accountId, (bumps_of_sender (.Transfer tx) rfl sender.account sender.nonce_eq rfl).insert ne ?_⟩
    rw [nonceOf_insertAccount, if_neg ne.symm]
    exact nonceOf_none free
  | withdraw sender => exact ⟨_, bumps_of_sender _ rfl sender.account sender.nonce_eq rfl⟩
  | changePubKey _ account _ _ _ nonce_eq => exact ⟨_, bumps_of_sender _ rfl account nonce_eq rfl⟩
  | @forcedExit tx j a b _ account signed _ _ targetAccount locked _ _ nonce_eq =>
    have ne : tx.initiatorAccountId ≠ j := by
      intro h
      rw [← h, account] at targetAccount
      obtain rfl := Option.some.inj targetAccount
      exact hz _ (locked ▸ signed)
    refine ⟨tx.initiatorAccountId, (bumps_of_sender (.ForcedExit tx) rfl account nonce_eq rfl).insert ne ?_⟩
    rw [nonceOf_insertAccount, if_neg ne.symm]
    rw [nonceOf_some targetAccount]
    rfl

theorem toNat_succ {n : Nonce} (h : n.toNat + 1 < 2 ^ 32) : (n + 1).toNat = n.toNat + 1 := by
  rw [UInt32.toNat_add]
  exact Nat.mod_eq_of_lt h

/-- The nonces of an account, over one transaction. -/
theorem follows_txStep (hz : env.NoZeroSigner) {e : Executed} (h : TxStep env s e s')
    (hmax : e.1.nonce.toNat + 1 < 2 ^ 32) (id : AccountId) :
    Follows (nonceOf s.getAccount id) (noncesOf id [e]) (nonceOf s'.getAccount id) := by
  obtain ⟨i, hsigner, ⟨a, ha, hn⟩, ⟨a', ha', hn'⟩, hothers⟩ := (executeTx_effect h).bumps hz
  by_cases hid : id = i
  · subst hid
    have hlist : noncesOf id [e] = [e.1.nonce.toNat] := by
      unfold noncesOf
      rw [List.filter_cons_of_pos (by simp [hsigner])]
      rfl
    rw [hlist, nonceOf_some ha, nonceOf_some ha', hn, hn', toNat_succ hmax]
    exact follows_single _
  · have hlist : noncesOf id [e] = [] := by
      unfold noncesOf
      rw [List.filter_cons_of_neg (by simpa [hsigner] using fun h => hid h.symm)]
      rfl
    rw [hlist, hothers id hid]
    exact follows_nil _

theorem follows_txRun (hz : env.NoZeroSigner) {es : List Executed} (h : Run (TxStep env) s es s')
    (hmax : ∀ e ∈ es, e.1.nonce.toNat + 1 < 2 ^ 32) (id : AccountId) :
    Follows (nonceOf s.getAccount id) (noncesOf id es) (nonceOf s'.getAccount id) := by
  induction h with
  | nil => exact follows_nil _
  | cons hstep _ ih =>
    rw [← List.singleton_append, noncesOf_append]
    exact (follows_txStep hz hstep (hmax _ List.mem_cons_self) id).append
      (ih fun e he => hmax e (List.mem_cons_of_mem _ he))

/-- The nonces of an account, over one step. -/
theorem follows_step (hz : env.NoZeroSigner) {e : Event} (h : Step env s e s')
    (hmax : ∀ x ∈ e.committed, x.1.nonce.toNat + 1 < 2 ^ 32) (id : AccountId) :
    Follows (nonceOf s.getAccount id) (noncesOf id e.committed) (nonceOf s'.getAccount id) := by
  cases h.effect hz with
  | executed run => exact follows_txRun hz run hmax id
  | restored nothing _ ledger =>
    rw [nothing, ledger.nonceOf_eq]
    exact follows_nil _
  | priorityOp effect =>
    have hsame : nonceOf s'.getAccount id = nonceOf s.getAccount id := by
      cases effect with
      | deposit _ _ account =>
        exact nonceOf_insertAccount_same (by rw [nonceOf_some account]; rfl) id
      | depositToNew _ _ free => exact nonceOf_insertAccount_same (nonceOf_none free) id
      | fullExit _ account =>
        exact nonceOf_insertAccount_same (by rw [nonceOf_some account]; rfl) id
      | fullExitRefused => rfl
    rw [hsame]
    exact follows_nil _
  | collectFee account credited =>
    rw [nonceOf_insertAccount_same]
    · exact follows_nil _
    · rw [nonceOf_some account, credited.nonce]

/-- The nonces committed for an account in a run count up from the one it had
to the one it has. -/
theorem follows_run (hz : env.NoZeroSigner) {tr : List Event} (h : Run (Step env) s tr s')
    (hmax : ∀ e ∈ committed tr, e.1.nonce.toNat + 1 < 2 ^ 32) (id : AccountId) :
    Follows (nonceOf s.getAccount id) (noncesOf id (committed tr)) (nonceOf s'.getAccount id) := by
  unfold committed at hmax ⊢
  induction h with
  | nil => exact follows_nil _
  | cons hstep _ ih =>
    rw [List.flatMap_cons] at hmax ⊢
    rw [noncesOf_append]
    exact (follows_step hz hstep (fun x hx => hmax x (List.mem_append_left _ hx)) id).append
      (ih fun e he => hmax e (List.mem_append_right _ he))

/-- Transactions whose nonces are distinct for each signer are distinct as
pairs of signer and nonce. -/
theorem nodup_of_noncesOf {es : List Executed} (hsigned : ∀ e ∈ es, e.1.senderId ≠ none)
    (h : ∀ id, (noncesOf id es).Nodup) :
    (es.map fun e => (e.1.senderId, e.1.nonce)).Nodup := by
  induction es with
  | nil => exact List.nodup_nil
  | cons e es ih =>
    rw [List.map_cons, List.nodup_cons]
    refine ⟨fun hmem => ?_, ih (fun x hx => hsigned x (List.mem_cons_of_mem _ hx)) fun id => ?_⟩
    · obtain ⟨x, hx, heq⟩ := List.mem_map.mp hmem
      obtain ⟨hid, hn⟩ := Prod.mk.inj heq
      obtain ⟨i, hi⟩ := Option.ne_none_iff_exists'.mp (hsigned e List.mem_cons_self)
      have hnd := h i
      unfold noncesOf at hnd
      rw [List.filter_cons_of_pos (by simp [hi]), List.map_cons, List.nodup_cons] at hnd
      refine hnd.1 (List.mem_map.mpr ⟨x, List.mem_filter.mpr ⟨hx, ?_⟩, congrArg _ hn⟩)
      simp [hid, hi]
    · have hnd := h id
      rw [← List.singleton_append, noncesOf_append] at hnd
      exact (List.nodup_append.mp hnd).2.1

theorem senderId_of_txRun (hz : env.NoZeroSigner) {es : List Executed}
    (h : Run (TxStep env) s es s') : ∀ e ∈ es, e.1.senderId ≠ none := by
  induction h with
  | nil => exact fun _ he => absurd he List.not_mem_nil
  | cons hstep _ ih =>
    intro e he
    rcases List.mem_cons.mp he with rfl | he
    · obtain ⟨i, hb⟩ := (executeTx_effect hstep).bumps hz
      rw [hb.signer]
      exact Option.some_ne_none i
    · exact ih e he

theorem senderId_of_run (hz : env.NoZeroSigner) {tr : List Event} (h : Run (Step env) s tr s') :
    ∀ e ∈ committed tr, e.1.senderId ≠ none := by
  unfold committed
  induction h with
  | nil => exact fun _ he => absurd he List.not_mem_nil
  | cons hstep _ ih =>
    intro e he
    rw [List.flatMap_cons, List.mem_append] at he
    rcases he with he | he
    · cases hstep.effect hz with
      | executed run => exact senderId_of_txRun hz run e he
      | restored nothing =>
        rw [nothing] at he
        exact absurd he List.not_mem_nil
      | priorityOp => exact absurd he List.not_mem_nil
      | collectFee => exact absurd he List.not_mem_nil
    · exact ih e he

/-- Replay protection. Over any run in which transactions are committed with
nonces below the last one: no account loses its nonce, the nonces committed for
an account are those from the one it had up to the one it has, and no pair of
signer and nonce is committed twice; and wherever the run leads, a transaction
that succeeds carries the nonce of its signer and raises it, alone, by one. -/
theorem replay_protected (hz : env.NoZeroSigner) {tr : List Event} (h : Run (Step env) s tr s')
    (hmax : ∀ e ∈ committed tr, e.1.nonce.toNat + 1 < 2 ^ 32) :
    (∀ id a, s.getAccount id = some a → ∃ a', s'.getAccount id = some a' ∧ a.nonce ≤ a'.nonce) ∧
    (∀ id, Follows (nonceOf s.getAccount id) (noncesOf id (committed tr))
      (nonceOf s'.getAccount id)) ∧
    ((committed tr).map fun e => (e.1.senderId, e.1.nonce)).Nodup ∧
    (∀ tx r s'', s'.executeTx env tx = .ok (r, s'') → tx.nonce.toNat + 1 < 2 ^ 32 →
      ∃ i a a'', tx.senderId = some i ∧ s'.getAccount i = some a ∧ a.nonce = tx.nonce ∧
        s''.getAccount i = some a'' ∧ a''.nonce.toNat = a.nonce.toNat + 1 ∧
        ∀ id, id ≠ i → nonceOf s''.getAccount id = nonceOf s'.getAccount id) := by
  have hfollows := follows_run hz h hmax
  refine ⟨fun id a ha => ?_, hfollows,
    nodup_of_noncesOf (senderId_of_run hz h) fun id => (hfollows id).nodup,
    fun tx r s'' hexec hlast => ?_⟩
  · obtain ⟨a', ha'⟩ := Option.isSome_iff_exists.mp
      ((writes_of_steps h).occupied (Option.isSome_iff_exists.mpr ⟨a, ha⟩))
    refine ⟨a', ha', UInt32.le_iff_toNat_le.mpr ?_⟩
    have hle := (hfollows id).le
    rwa [nonceOf_some ha, nonceOf_some ha'] at hle
  · obtain ⟨i, hsigner, ⟨a, ha, hn⟩, ⟨a'', ha'', hn''⟩, hothers⟩ :=
      (executeTx_effect hexec).bumps hz
    refine ⟨i, a, a'', hsigner, ha, hn, ha'', ?_, hothers⟩
    rw [hn'', hn, toNat_succ hlast]

end Nonces

/-- A transfer to a new account. -/
theorem replay_protected_transferToNew :
    (∀ id a, sampleState.getAccount id = some a →
      ∃ a', sampleStateAfter.getAccount id = some a' ∧ a.nonce ≤ a'.nonce) ∧
    (∀ id, Follows (Ledger.nonceOf sampleState.getAccount id)
      (noncesOf id (committed [.tx (.Transfer (sampleTransfer 2 0)) (.ok sampleSuccess)]))
      (Ledger.nonceOf sampleStateAfter.getAccount id)) ∧
    ((committed [.tx (.Transfer (sampleTransfer 2 0)) (.ok sampleSuccess)]).map
      fun e => (e.1.senderId, e.1.nonce)).Nodup ∧
    (∀ tx r s'', sampleStateAfter.executeTx (Env.signedBy 1) tx = .ok (r, s'') →
      tx.nonce.toNat + 1 < 2 ^ 32 →
      ∃ i a a'', tx.senderId = some i ∧ sampleStateAfter.getAccount i = some a ∧
        a.nonce = tx.nonce ∧ s''.getAccount i = some a'' ∧
        a''.nonce.toNat = a.nonce.toNat + 1 ∧ ∀ id, id ≠ i →
          Ledger.nonceOf s''.getAccount id = Ledger.nonceOf sampleStateAfter.getAccount id) :=
  replay_protected (noZeroSigner_signedBy (by decide)) (Run.single (.txOk sampleState_executeTx))
    (by decide)

end ZkSync
