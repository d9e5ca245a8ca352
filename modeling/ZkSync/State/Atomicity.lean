import ZkSync.State.RootHash
import ZkSync.State.Touches

/-!
# Batch atomicity

A batch that fails is undone: "restore the state that was observed before the
batch execution". `Same` says what can be observed of a state. The rollback
restores all of it, except in three situations, which `RestoredWhen` excludes
and `batch_atomic_iff` shows to be the only ones:

* a transaction before the failing one created an account. Undoing the creation
  removes the account, the tree writes a default leaf in its place, and the id
  stays taken;
* a change of the key before it named a fee token from 2048 on. Writing the
  balance back leaves an explicit zero there, for which the balance tree has no
  leaf, and the root hash panics;
* a forced exit before it was initiated by an account which the index does not
  hold for its address. Writing the account back puts it into the index.
-/

namespace ZkSync

/-- `s'` cannot be told from `s`: the same accounts up to explicit zero
balances, index, root hash, list of accounts and free id. -/
structure Same (H : Hasher Fr) (s s' : ZkSyncState) : Prop where
  accounts : ∀ id, Option.Rel Account.Equiv (s'.getAccount id) (s.getAccount id)
  index : s'.accountIdByAddress = s.accountIdByAddress
  root : s'.root H = s.root H
  getAccounts : Multiset.Rel (fun e e' => e.1 = e'.1 ∧ e.2.Equiv e'.2) s'.getAccounts s.getAccounts
  freeId : s'.getFreeAccountId = s.getFreeAccountId

/-- When undoing the transactions restores `s`. -/
structure RestoredWhen (s : ZkSyncState) (executed : List ZkSyncTx) : Prop where
  /-- Every transfer goes to an address that has an account. -/
  recipients : ∀ t, .Transfer t ∈ executed →
    (s.accountIdByAddress.lookup t.toAddress).isSome
  /-- Fees of key changes are paid in tokens of the balance tree, unless the
  root hash panics already. -/
  feeTokens : (∀ c, .ChangePubKey c ∈ executed → c.feeToken.toNat < 2 ^ balanceTreeDepth) ∨
    ∃ id a, s.getAccount id = some a ∧ ¬ a.Fits
  /-- An initiator that no earlier transaction wrote is the account the index
  holds for its address. -/
  initiators : ∀ pre fx post address, executed = pre ++ .ForcedExit fx :: post →
    Ledger.addressOf s.getAccount fx.initiatorAccountId = some address →
    (∀ tx ∈ pre, address ∉ tx.touches (Ledger.addressOf s.getAccount)) →
    s.accountIdByAddress.lookup address = some fx.initiatorAccountId

/-- The transactions before the first that fails. -/
def executedBefore (env : Env) (s : ZkSyncState) : List ZkSyncTx → List ZkSyncTx
  | [] => []
  | tx :: txs =>
    match s.executeTx env tx with
    | .ok (_, s') => tx :: executedBefore env s' txs
    | .error _ => []

section Runs

variable {env : Env} {s s₁ s' : ZkSyncState} {es : List Executed}

/-! ## Inside a run -/

/-- A run stops before and after each of its transactions. -/
theorem run_at {e : Executed} {pre post : List Executed}
    (h : Run (TxStep env) s (pre ++ e :: post) s₁) :
    ∃ s₂ s₃, Run (TxStep env) s pre s₂ ∧ TxStep env s₂ e s₃ ∧ Run (TxStep env) s₃ post s₁ := by
  obtain ⟨s₂, hpre, hrest⟩ := h.of_append
  cases hrest with
  | cons hstep hpost => exact ⟨s₂, _, hpre, hstep, hpost⟩

theorem updatesOf_append (es es' : List Executed) :
    updatesOf (es ++ es') = updatesOf es ++ updatesOf es' := List.flatMap_append

theorem updatesOf_cons (e : Executed) (es : List Executed) :
    updatesOf (e :: es) = e.2.updates ++ updatesOf es := List.flatMap_cons

/-- The parts of a run that creates no account create none. -/
theorem noCreate_at {e : Executed} {pre post : List Executed}
    (h : NoCreate (updatesOf (pre ++ e :: post))) :
    NoCreate (updatesOf pre) ∧ NoCreate e.2.updates ∧ NoCreate (updatesOf post) := by
  rw [updatesOf_append, updatesOf_cons] at h
  exact ⟨h.of_append.1, h.of_append.2.of_append⟩

theorem kept_of_txRun (hz : env.NoZeroSigner) (h : Run (TxStep env) s es s₁)
    (hno : NoCreate (updatesOf es)) : Kept (updatesOf es) s.getAccount s₁.getAccount :=
  kept_of_run (ledgerRun_of_run hz h) hno

/-- Without creation the whole batch, undone, is one run of the ledger. -/
theorem kept_of_batch (hz : env.NoZeroSigner) (h : Run (TxStep env) s es s₁)
    (hundo : s₁.applyAccountUpdates (reverseUpdates (updatesOf es)) = .ok s')
    (hno : NoCreate (updatesOf es)) :
    Kept (updatesOf es ++ reverseUpdates (updatesOf es)) s.getAccount s'.getAccount :=
  (kept_of_txRun hz h hno).trans (kept_of_run
    (index_of_undo hno (noDelete_updatesOf h) hundo).1 (noDelete_updatesOf h).reverse)

theorem indexed_of_txRun (h : Run (TxStep env) s es s₁) (hs : Indexed s) : Indexed s₁ :=
  (writes_of_run (H := env.hasher) h).indexed hs

/-- The first element with a property. -/
theorem exists_first {α : Type*} {p : α → Prop} {l : List α} (h : ∃ x ∈ l, p x) :
    ∃ pre x post, l = pre ++ x :: post ∧ p x ∧ ∀ y ∈ pre, ¬ p y := by
  induction l with
  | nil =>
    obtain ⟨x, hx, -⟩ := h
    exact absurd hx List.not_mem_nil
  | cons a l ih =>
    by_cases ha : p a
    · exact ⟨[], a, l, rfl, ha, fun _ hy => absurd hy List.not_mem_nil⟩
    · obtain ⟨x, hx, hp⟩ := h
      rcases List.mem_cons.mp hx with rfl | hx
      · exact absurd hp ha
      · obtain ⟨pre, y, post, rfl, hy, hpre⟩ := ih ⟨x, hx, hp⟩
        refine ⟨a :: pre, y, post, rfl, hy, fun z hz => ?_⟩
        rcases List.mem_cons.mp hz with rfl | hz
        · exact ha
        · exact hpre z hz

/-! ## Created accounts -/

theorem noCreate_of_forall (h : ∀ e ∈ es, NoCreate e.2.updates) : NoCreate (updatesOf es) := by
  intro u hu
  obtain ⟨e, he, hu⟩ := List.mem_flatMap.mp hu
  exact h e he u hu

/-- Transfers to known addresses create no account. -/
theorem noCreate_of_recipients (h : Run (TxStep env) s es s₁)
    (hto : ∀ t, .Transfer t ∈ es.map (·.1) → (s.accountIdByAddress.lookup t.toAddress).isSome) :
    NoCreate (updatesOf es) := by
  refine noCreate_of_forall fun e he => ?_
  obtain ⟨pre, post, rfl⟩ := List.append_of_mem he
  obtain ⟨s₂, s₃, hpre, hstep, -⟩ := run_at h
  rcases (executeTx_effect hstep).creates with ⟨t, ht, hnone, -⟩ | ⟨hno, -⟩
  · have hsome := (indexGrows_of_run hpre).1 _ (hto t (ht ▸ List.mem_map_of_mem he))
    rw [hnone] at hsome
    cases hsome
  · exact hno

/-- When no account was created, the transfers went to known addresses. -/
theorem recipients_of_noCreate (hz : env.NoZeroSigner) (hs : Indexed s) (hl : Located (· ≠ 0) s)
    (h : Run (TxStep env) s es s₁) (hno : NoCreate (updatesOf es)) (t : Transfer)
    (ht : .Transfer t ∈ es.map (·.1)) : (s.accountIdByAddress.lookup t.toAddress).isSome := by
  obtain ⟨e, he, het⟩ := List.mem_map.mp ht
  obtain ⟨pre, post, rfl⟩ := List.append_of_mem he
  obtain ⟨s₂, s₃, hpre, hstep, -⟩ := run_at h
  obtain ⟨hnopre, hnoe, -⟩ := noCreate_at hno
  have heff := executeTx_effect hstep
  rcases heff.creates with ⟨-, -, -, hnone, hsome⟩ | ⟨-, hto⟩
  · rw [(kept_of_run (heff.run hz) hnoe).vacant _ hnone] at hsome
    cases hsome
  · obtain ⟨hne, j, hj⟩ := hto t het
    have hadr := (indexed_of_txRun hpre hs).addressOf hj
    rw [(kept_of_txRun hz hpre hnopre).addressOf] at hadr
    obtain ⟨a, ha, hto⟩ := Option.map_eq_some_iff.mp hadr
    rw [← hto] at hne ⊢
    exact hl j a ha hne

/-- When no id is taken that was free, no account was created. -/
theorem noCreate_of_occupied (h : Run (TxStep env) s es s₁)
    (hundo : s₁.applyAccountUpdates (reverseUpdates (updatesOf es)) = .ok s')
    (hocc : ∀ id, (s'.getAccount id).isSome → (s.getAccount id).isSome) :
    NoCreate (updatesOf es) := by
  refine noCreate_of_forall fun e he => ?_
  have hback : Writes env.hasher s₁ s' :=
    applyAccountUpdates_writes (noDelete_updatesOf h).reverse hundo
  obtain ⟨pre, post, rfl⟩ := List.append_of_mem he
  obtain ⟨s₂, s₃, hpre, hstep, hpost⟩ := run_at h
  rcases (executeTx_effect hstep).creates with ⟨-, -, -, hnone, hsome⟩ | ⟨hno, -⟩
  · have hafter := hback.occupied ((writes_of_run (H := env.hasher) hpost).occupied hsome)
    have hbefore := (writes_of_run (H := env.hasher) hpre).occupied (hocc _ hafter)
    rw [hnone] at hbefore
    cases hbefore
  · exact hno

/-! ## The index -/

/-- Transactions that do not touch an address leave it, and do not own it. -/
theorem untouched_of_run (hz : env.NoZeroSigner) (hs : Indexed s) (h : Run (TxStep env) s es s₁)
    (hno : NoCreate (updatesOf es)) {address : Address}
    (hnot : ∀ e ∈ es, address ∉ e.1.touches (Ledger.addressOf s.getAccount)) :
    s₁.accountIdByAddress.lookup address = s.accountIdByAddress.lookup address ∧
      ∀ now, firstOwner (Ledger.addressOf s.getAccount) (updatesOf es) address now = now := by
  induction h with
  | nil => exact ⟨rfl, fun _ => rfl⟩
  | @cons s s₂ s₁ e es hstep _ ih =>
    have heff := executeTx_effect hstep
    rw [updatesOf_cons] at hno
    obtain ⟨hnoe, hnoes⟩ := hno.of_append
    have hadr := (kept_of_run (heff.run hz) hnoe).addressOf
    obtain ⟨hidx, hown⟩ := (heff.owners hs hnoe address).untouched (hnot e List.mem_cons_self)
    obtain ⟨hidx', hown'⟩ := ih ((heff.writes (H := env.hasher)).indexed hs) hnoes
      (by rw [hadr]; exact fun x hx => hnot x (List.mem_cons_of_mem _ hx))
    rw [hadr] at hown'
    refine ⟨hidx'.trans hidx, fun now => ?_⟩
    rw [updatesOf_cons, firstOwner_append, hown', hown]

/-- The first owner of an address is decided by the first transaction that
touches it. -/
theorem firstOwner_of_run (hz : env.NoZeroSigner) (hs : Indexed s) {e : Executed}
    {pre post : List Executed} (h : Run (TxStep env) s (pre ++ e :: post) s₁)
    (hno : NoCreate (updatesOf (pre ++ e :: post))) {address : Address}
    (hnot : ∀ x ∈ pre, address ∉ x.1.touches (Ledger.addressOf s.getAccount))
    (hin : address ∈ e.1.touches (Ledger.addressOf s.getAccount)) (now : Option AccountId) :
    (∃ fx, e.1 = .ForcedExit fx ∧
      Ledger.addressOf s.getAccount fx.initiatorAccountId = some address ∧
      firstOwner (Ledger.addressOf s.getAccount) (updatesOf (pre ++ e :: post)) address now =
        some fx.initiatorAccountId) ∨
    ((∀ fx, e.1 = .ForcedExit fx →
        Ledger.addressOf s.getAccount fx.initiatorAccountId ≠ some address) ∧
      firstOwner (Ledger.addressOf s.getAccount) (updatesOf (pre ++ e :: post)) address now =
        s.accountIdByAddress.lookup address) := by
  obtain ⟨s₂, s₃, hpre, hstep, -⟩ := run_at h
  obtain ⟨hnopre, hnoe, -⟩ := noCreate_at hno
  obtain ⟨hidx, hown⟩ := untouched_of_run hz hs hpre hnopre hnot
  have howners := (executeTx_effect hstep).owners (indexed_of_txRun hpre hs) hnoe address
  have htouched := howners.touched
  rw [(kept_of_txRun hz hpre hnopre).addressOf, hidx] at htouched
  rw [updatesOf_append, updatesOf_cons, firstOwner_append, firstOwner_append, hown]
  rcases htouched hin with ⟨fx, hfx, hadr, hfirst⟩ | ⟨hfx, hfirst⟩
  · exact Or.inl ⟨fx, hfx, hadr, hfirst _⟩
  · exact Or.inr ⟨hfx, hfirst _⟩

/-- The index comes back if and only if initiators of forced exits were in it. -/
theorem index_restored_iff (hz : env.NoZeroSigner) (hs : Indexed s) (h : Run (TxStep env) s es s₁)
    (hno : NoCreate (updatesOf es))
    (hundo : s₁.applyAccountUpdates (reverseUpdates (updatesOf es)) = .ok s') :
    s'.accountIdByAddress = s.accountIdByAddress ↔
      ∀ pre fx post address, es.map (·.1) = pre ++ .ForcedExit fx :: post →
        Ledger.addressOf s.getAccount fx.initiatorAccountId = some address →
        (∀ tx ∈ pre, address ∉ tx.touches (Ledger.addressOf s.getAccount)) →
        s.accountIdByAddress.lookup address = some fx.initiatorAccountId := by
  obtain ⟨-, hidx⟩ := index_of_undo hno (noDelete_updatesOf h) hundo
  rw [(kept_of_txRun hz h hno).addressOf] at hidx
  refine ⟨fun heq pre fx post address hes hadr hnot => ?_, fun hcond => Finmap.ext_lookup fun α => ?_⟩
  · obtain ⟨pre', rest, rfl, rfl, hrest⟩ := List.map_eq_append_iff.mp hes
    obtain ⟨e, post', rfl, he, rfl⟩ := List.map_eq_cons_iff.mp hrest
    have hin : address ∈ e.1.touches (Ledger.addressOf s.getAccount) := by
      rw [he]
      unfold ZkSyncTx.touches
      exact List.mem_append_left _ (by rw [hadr]; exact List.mem_singleton_self _)
    rw [← heq, hidx]
    rcases firstOwner_of_run hz hs h hno
        (fun x hx => hnot x.1 (List.mem_map_of_mem hx)) hin _ with ⟨fx', hfx, -, hfirst⟩ | ⟨hfx, -⟩
    · rw [he] at hfx
      cases hfx
      exact hfirst
    · exact absurd hadr (hfx fx he)
  · rw [hidx]
    by_cases htouch : ∃ e ∈ es, α ∈ e.1.touches (Ledger.addressOf s.getAccount)
    · obtain ⟨pre, e, post, rfl, hin, hnot⟩ := exists_first htouch
      rcases firstOwner_of_run hz hs h hno hnot hin _ with ⟨fx, hfx, hadr, hfirst⟩ | ⟨-, hfirst⟩
      · rw [hfirst]
        refine (hcond (pre.map (·.1)) fx (post.map (·.1)) α ?_ hadr fun tx htx => ?_).symm
        · rw [List.map_append, List.map_cons, hfx]
        · obtain ⟨x, hx, rfl⟩ := List.mem_map.mp htx
          exact hnot x hx
      · exact hfirst
    · have hnot : ∀ e ∈ es, α ∉ e.1.touches (Ledger.addressOf s.getAccount) :=
        fun e he hin => htouch ⟨e, he, hin⟩
      obtain ⟨hsame, hown⟩ := untouched_of_run hz hs h hno hnot
      rw [hown, hsame]

/-- Without creation the accounts come back up to explicit zeros. -/
theorem Kept.restored {m m' : Ledger} {us : AccountUpdates} (h : Kept us m m')
    (hr : Ledger.Restores m' m) (id : AccountId) :
    Option.Rel Account.Equiv (m' id) (m id) := by
  cases ha : m id with
  | none =>
    rw [h.vacant id ha]
    exact .none
  | some a =>
    obtain ⟨a', ha', he⟩ := hr.account ha
    rw [ha']
    exact .some he

/-! ## The root hash -/

/-- The balances of an undone account have leaves if and only if those it held
and those the batch wrote have. -/
theorem Kept.fits {m m' : Ledger} {us : AccountUpdates} (h : Kept us m m') {id : AccountId}
    {a a' : Account} (ha : m id = some a) (ha' : m' id = some a') :
    a'.Fits ↔ a.Fits ∧ ∀ token, WritesBalance us id token → token.toNat < 2 ^ balanceTreeDepth := by
  obtain ⟨b, hb, -, hbal⟩ := h.account id a ha
  rw [ha'] at hb
  obtain rfl := Option.some.inj hb
  unfold Account.Fits
  refine ⟨fun hf => ⟨fun t ht => hf t ((hbal t).mpr (Or.inl ht)),
    fun t ht => hf t ((hbal t).mpr (Or.inr ht))⟩, fun ⟨h1, h2⟩ t ht => ?_⟩
  exact ((hbal t).mp ht).elim (h1 t) (h2 t)

/-- The root hash comes back if and only if the batch wrote no balance without
a leaf, or there was no root hash. -/
theorem root_restored_iff {H : Hasher Fr} {us : AccountUpdates} (hs : Hashed H s)
    (hs' : Hashed H s') (hk : Kept us s.getAccount s'.getAccount)
    (hr : Ledger.Restores s'.getAccount s.getAccount) :
    s'.root H = s.root H ↔
      (∀ id token, (s.getAccount id).isSome → WritesBalance us id token →
        token.toNat < 2 ^ balanceTreeDepth) ∨ ∃ id a, s.getAccount id = some a ∧ ¬ a.Fits := by
  -- an account without bits before or after means no root hash
  have hpanic : ∀ {s : ZkSyncState}, Hashed H s → ∀ id a, s.getAccount id = some a → ¬ a.Fits →
      s.root H = .error noLeaf := by
    intro s hs id a ha hnot
    rcases rootHash_cases hs with ⟨-, hall⟩ | ⟨herr, -⟩
    · exact absurd (hall id a ha) hnot
    · exact herr
  refine ⟨fun heq => ?_, fun hcond => ?_⟩
  · rcases rootHash_cases hs with ⟨⟨hash, hroot⟩, hall⟩ | ⟨-, hex⟩
    · refine Or.inl fun id token hid hw => by_contra fun hge => ?_
      obtain ⟨a, ha⟩ := Option.isSome_iff_exists.mp hid
      obtain ⟨a', ha', -, -⟩ := hk.account id a ha
      rw [hpanic hs' id a' ha' fun hf => hge (((hk.fits ha ha').mp hf).2 token hw), hroot] at heq
      cases heq
    · exact Or.inr hex
  · rcases hcond with hw | ⟨id, a, ha, hnot⟩
    · refine rootHash_congr hs hs' fun id => ?_
      cases ha : s.getAccount id with
      | none =>
        rw [hk.vacant id ha]
        exact .none
      | some a =>
        obtain ⟨a', ha', he⟩ := hr.account ha
        rw [ha']
        refine .some ⟨he, (hk.fits ha ha').trans (and_iff_left fun token => hw id token ?_)⟩
        rw [ha]
        rfl
    · obtain ⟨a', ha', -, -⟩ := hk.account id a ha
      rw [hpanic hs id a ha hnot,
        hpanic hs' id a' ha' fun hf => hnot ((hk.fits ha ha').mp hf).1]

/-- The balances a run writes have leaves if and only if its fee tokens of key
changes have. -/
theorem feeTokens_iff (h : Run (TxStep env) s es s₁) (hz : env.NoZeroSigner)
    (hno : NoCreate (updatesOf es)) :
    (∀ id token, (s.getAccount id).isSome → WritesBalance (updatesOf es) id token →
      token.toNat < 2 ^ balanceTreeDepth) ↔
    ∀ c, .ChangePubKey c ∈ es.map (·.1) → c.feeToken.toNat < 2 ^ balanceTreeDepth := by
  refine ⟨fun hw c hc => ?_, fun hc id token _ hw => ?_⟩
  · obtain ⟨e, he, hec⟩ := List.mem_map.mp hc
    obtain ⟨pre, post, rfl⟩ := List.append_of_mem he
    obtain ⟨s₂, s₃, hpre, hstep, -⟩ := run_at h
    have heff := executeTx_effect hstep
    rw [hec] at heff
    obtain ⟨hsome, n, n', old, new, hmem⟩ := heff.writes_feeToken
    refine hw c.accountId c.feeToken ?_ ⟨n, n', old, new, List.mem_flatMap.mpr ⟨e, he, hmem⟩⟩
    cases ha : s.getAccount c.accountId with
    | none =>
      rw [(kept_of_txRun hz hpre (noCreate_at hno).1).vacant _ ha] at hsome
      cases hsome
    | some a => rfl
  · obtain ⟨n, n', old, new, hmem⟩ := hw
    obtain ⟨e, he, hmeme⟩ := List.mem_flatMap.mp hmem
    obtain ⟨pre, post, rfl⟩ := List.append_of_mem he
    obtain ⟨s₂, s₃, -, hstep, -⟩ := run_at h
    rcases (executeTx_effect hstep).tokens ⟨n, n', old, new, hmeme⟩ with hlt | ⟨c, hec, rfl⟩
    · exact hlt
    · exact hc c (hec ▸ List.mem_map_of_mem he)

/-! ## The whole state -/

/-- Without creation, the root hash comes back if and only if the fee tokens of key
changes have leaves, or there was no root hash. -/
theorem root_iff_feeTokens (hz : env.NoZeroSigner) (hh : Hashed env.hasher s)
    (h : Run (TxStep env) s es s₁)
    (hundo : s₁.applyAccountUpdates (reverseUpdates (updatesOf es)) = .ok s')
    (hno : NoCreate (updatesOf es)) : s'.root env.hasher = s.root env.hasher ↔
      (∀ c, .ChangePubKey c ∈ es.map (·.1) → c.feeToken.toNat < 2 ^ balanceTreeDepth) ∨
        ∃ id a, s.getAccount id = some a ∧ ¬ a.Fits := by
  have hback : Writes env.hasher s s' := (writes_of_run h).trans
    (applyAccountUpdates_writes (noDelete_updatesOf h).reverse hundo)
  rw [root_restored_iff hh (hback.hashed hh) (kept_of_batch hz h hundo hno) (undo_restores hz h hundo),
    ← feeTokens_iff h hz hno]
  simp only [writesBalance_append, writesBalance_reverse, or_self]

/-- Undoing restores the state when `RestoredWhen` says so. -/
theorem same_of_restoredWhen (hz : env.NoZeroSigner) (hs : Indexed s) (hh : Hashed env.hasher s)
    (h : Run (TxStep env) s es s₁)
    (hundo : s₁.applyAccountUpdates (reverseUpdates (updatesOf es)) = .ok s')
    (hwhen : RestoredWhen s (es.map (·.1))) : Same env.hasher s s' := by
  have hno := noCreate_of_recipients h hwhen.recipients
  have haccounts := (kept_of_batch hz h hundo hno).restored (undo_restores hz h hundo)
  exact ⟨haccounts, (index_restored_iff hz hs h hno hundo).mpr hwhen.initiators,
    (root_iff_feeTokens hz hh h hundo hno).mpr hwhen.feeTokens, getAccounts_congr haccounts,
    getFreeAccountId_congr fun id => rel_isSome (haccounts id)⟩

/-- Undoing restores the state if and only if `RestoredWhen` says so. -/
theorem same_iff (hz : env.NoZeroSigner) (hr : Reachable env s) (h : Run (TxStep env) s es s₁)
    (hundo : s₁.applyAccountUpdates (reverseUpdates (updatesOf es)) = .ok s') :
    Same env.hasher s s' ↔ RestoredWhen s (es.map (·.1)) := by
  have hs := reachable_indexed hr
  have hh := reachable_hashed hr
  refine ⟨fun hsame => ?_, same_of_restoredWhen hz hs hh h hundo⟩
  have hno : NoCreate (updatesOf es) :=
    noCreate_of_occupied h hundo fun id => (rel_isSome (hsame.accounts id)).mp
  exact ⟨recipients_of_noCreate hz hs (reachable_located hz hr) h hno,
    (root_iff_feeTokens hz hh h hundo hno).mp hsame.root,
    (index_restored_iff hz hs h hno hundo).mp hsame.index⟩

theorem executedBefore_of_run (h : Run (TxStep env) s es s₁) {failing : ZkSyncTx}
    {rest : List ZkSyncTx} {e : Failure} (hfail : s₁.executeTx env failing = .error e) :
    executedBefore env s (es.map (·.1) ++ failing :: rest) = es.map (·.1) := by
  induction h with
  | nil =>
    rw [List.map_nil, List.nil_append, executedBefore, hfail]
  | @cons s s₂ s₁ x es hstep _ ih =>
    have hexec : s.executeTx env x.1 = .ok (x.2, s₂) := hstep
    rw [List.map_cons, List.cons_append, executedBefore, hexec]
    exact congrArg (x.1 :: ·) (ih hfail)

/-- Batch atomicity, as far as it goes. When a batch fails in a reachable state,
the state after it cannot be told from the state before it if and only if the
transactions before the first failing one are such that `RestoredWhen` holds. -/
theorem batch_atomic_iff (hz : env.NoZeroSigner) (hr : Reachable env s) {txs : List SignedZkSyncTx}
    {results : BatchResults} (h : s.executeTxsBatch env txs = .ok (results, s'))
    (hfailed : ∃ error, .error error ∈ results) :
    Same env.hasher s s' ↔ RestoredWhen s (executedBefore env s (txs.map (·.tx))) := by
  cases executeTxsBatch_outcome h with
  | @done es s' batch run =>
    obtain ⟨error, hmem⟩ := hfailed
    obtain ⟨e, -, he⟩ := List.mem_map.mp hmem
    cases he
  | undone batch run fails undo =>
    rw [batch, executedBefore_of_run run fails]
    exact same_iff hz hr run undo

end Runs

/-! ## A batch that leaves a trace -/

/-- A transfer to a new account, and a transfer whose nonce is used up. -/
def sampleBatch : List SignedZkSyncTx :=
  [⟨.Transfer (sampleTransfer 2 0), none⟩, ⟨.Transfer (sampleTransfer 2 0), none⟩]

/-- The sample state after that batch: id 1 holds a default leaf. -/
def sampleStateUndone : ZkSyncState :=
  ((sampleStateAfter.insertAccount 1
    { ((Account.defaultWithAddress 2).addBalance 0 3).setBalance 0 0 with nonce := 0 }).insertAccount
      0 { (sampleAccount.debit 0 4).setBalance 0 10 with nonce := 0 }).removeAccount 1

theorem sampleBatch_fails :
    sampleState.executeTxsBatch (Env.signedBy 1) sampleBatch =
      .ok (List.replicate 2 (.error (batchErrorMsg 1 "Nonce mismatch")), sampleStateUndone) := rfl

/-- The failed batch is told from no batch: id 1 had no account, and has one. -/
theorem batch_not_atomic :
    Reachable (Env.signedBy 1) sampleState ∧
    sampleState.executeTxsBatch (Env.signedBy 1) sampleBatch =
      .ok (List.replicate 2 (.error (batchErrorMsg 1 "Nonce mismatch")), sampleStateUndone) ∧
    sampleState.getAccount 1 = none ∧ sampleStateUndone.getAccount 1 = some Account.default ∧
    sampleState.getFreeAccountId = 1 ∧ sampleStateUndone.getFreeAccountId = 2 ∧
    ¬ Same (Env.signedBy 1).hasher sampleState sampleStateUndone := by
  refine ⟨reachable_sampleState, rfl, rfl, rfl, rfl, rfl, fun h => ?_⟩
  have hfree : (2 : AccountId) = 1 := h.freeId
  exact absurd hfree (by decide)

/-- The condition, for this batch. -/
theorem batch_atomic_iff_sampleBatch :
    Same (Env.signedBy 1).hasher sampleState sampleStateUndone ↔
      RestoredWhen sampleState
        (executedBefore (Env.signedBy 1) sampleState (sampleBatch.map (·.tx))) :=
  batch_atomic_iff (noZeroSigner_signedBy (by decide)) reachable_sampleState sampleBatch_fails
    ⟨_, List.mem_cons_self⟩

end ZkSync
