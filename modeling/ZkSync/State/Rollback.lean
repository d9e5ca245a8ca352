import ZkSync.State.Emitted
import ZkSync.State.Writes

/-!
# Going back over a batch

What undoing a batch leaves behind, beyond the ledger (`undo_restores`):

* `Kept` — when no account was created, the undone accounts hold the balance
  entries they held before and those the batch wrote, as explicit zeros if
  need be;
* `index_of_undo` — then an address ends up with the account the batch touched
  first under it (`firstOwner`);
* `reachable_located` — an account at an address other than zero is in the
  index. Undoing erases from it only addresses that were not there.
-/

namespace ZkSync

/-- The list writes the balance of a token at an id. -/
def WritesBalance (us : AccountUpdates) (id : AccountId) (token : TokenId) : Prop :=
  ∃ n n' old new, (id, AccountUpdate.UpdateBalance n n' (token, old, new)) ∈ us

/-- From `m` to `m'` no account appears, and an account keeps its address and
its balance entries, and gains those of the list. -/
structure Kept (us : AccountUpdates) (m m' : Ledger) : Prop where
  vacant : ∀ id, m id = none → m' id = none
  account : ∀ id a, m id = some a → ∃ a', m' id = some a' ∧ a'.address = a.address ∧
    ∀ token, token ∈ a'.balances ↔ token ∈ a.balances ∨ WritesBalance us id token

/-- The address of the account at an id. -/
def Ledger.addressOf (m : Ledger) (id : AccountId) : Option Address := (m id).map (·.address)

/-- Who holds an address once the updates are undone, last first: the first
account the list touches there, else the one who holds it now. -/
def firstOwner (adr : AccountId → Option Address) (us : AccountUpdates) (address : Address)
    (now : Option AccountId) : Option AccountId :=
  us.foldr (fun u owner => if adr u.1 = some address then some u.1 else owner) now

section Ledger

variable {m m' m'' : Ledger} {us vs : AccountUpdates}

/-- A balance is written in the first part or in the second. -/
theorem writesBalance_append {id : AccountId} {token : TokenId} :
    WritesBalance (us ++ vs) id token ↔ WritesBalance us id token ∨ WritesBalance vs id token := by
  unfold WritesBalance
  simp only [List.mem_append]
  refine ⟨fun ⟨n, n', old, new, h⟩ => ?_, fun h => ?_⟩
  · exact h.imp (fun h => ⟨n, n', old, new, h⟩) fun h => ⟨n, n', old, new, h⟩
  · rcases h with ⟨n, n', old, new, h⟩ | ⟨n, n', old, new, h⟩
    · exact ⟨n, n', old, new, Or.inl h⟩
    · exact ⟨n, n', old, new, Or.inr h⟩

/-- A list and its reverse write the same balances. -/
theorem WritesBalance.reverse {id : AccountId} {token : TokenId} (h : WritesBalance us id token) :
    WritesBalance (reverseUpdates us) id token := by
  obtain ⟨n, n', old, new, h⟩ := h
  exact ⟨n', n, new, old, List.mem_map.mpr ⟨_, List.mem_reverse.mpr h, rfl⟩⟩

/-- Reversing twice changes nothing. -/
theorem reverseUpdates_reverseUpdates (us : AccountUpdates) :
    reverseUpdates (reverseUpdates us) = us := by
  unfold reverseUpdates
  rw [← List.map_reverse, List.reverse_reverse, List.map_map]
  refine (List.map_congr_left fun u _ => ?_).trans (List.map_id us)
  exact Prod.ext rfl u.2.reversedUpdate_reversedUpdate

/-- Reversing writes the same balances. -/
theorem writesBalance_reverse {id : AccountId} {token : TokenId} :
    WritesBalance (reverseUpdates us) id token ↔ WritesBalance us id token :=
  ⟨fun h => reverseUpdates_reverseUpdates us ▸ h.reverse, WritesBalance.reverse⟩

theorem kept_refl (m : Ledger) : Kept [] m m where
  vacant := fun _ h => h
  account := fun id a ha => ⟨a, ha, rfl, fun token => by simp [WritesBalance]⟩

/-- What two parts keep, both keep. -/
theorem Kept.trans (h : Kept us m m') (h' : Kept vs m' m'') : Kept (us ++ vs) m m'' where
  vacant := fun id hid => h'.vacant id (h.vacant id hid)
  account := fun id a ha => by
    obtain ⟨a', ha', hadr, hbal⟩ := h.account id a ha
    obtain ⟨a'', ha'', hadr', hbal'⟩ := h'.account id a' ha'
    refine ⟨a'', ha'', hadr'.trans hadr, fun token => ?_⟩
    rw [hbal', hbal, writesBalance_append, or_assoc]

/-- An update keeps what it does not write. -/
theorem kept_of_step {u : AccountId × AccountUpdate} (h : Ledger.Step m u m')
    (hc : ∀ address nonce, u.2 ≠ .Create address nonce) : Kept [u] m m' := by
  obtain ⟨id, update⟩ := u
  obtain ⟨hfits, rfl⟩ := h
  dsimp only at hfits hc ⊢
  -- the update writes over an account `b`, which keeps its address
  have hover : ∀ b b' : Account, m id = some b → b'.address = b.address →
      (∀ token, token ∈ b'.balances ↔ token ∈ b.balances ∨ WritesBalance [(id, update)] id token) →
      Kept [(id, update)] m (Function.update m id (some b')) := by
    intro b b' hb hadr hbal
    refine ⟨fun id' hid' => ?_, fun id' a ha => ?_⟩
    · by_cases he : id' = id
      · rw [he, hb] at hid'
        cases hid'
      · rw [Function.update_of_ne he, hid']
    · by_cases he : id' = id
      · subst he
        rw [hb] at ha
        obtain rfl := Option.some.inj ha
        exact ⟨b', Function.update_self _ _ _, hadr, hbal⟩
      · refine ⟨a, by rw [Function.update_of_ne he, ha], rfl, fun token => ?_⟩
        simp [WritesBalance, he]
  cases update with
  | Create address nonce => exact absurd rfl (hc address nonce)
  | Delete address nonce => exact hfits.elim
  | UpdateBalance oldNonce newNonce upd =>
    obtain ⟨token', oldBalance, newBalance⟩ := upd
    obtain ⟨b, hb, -⟩ := hfits
    rw [hb]
    refine hover b _ hb rfl fun token => ?_
    have hw : WritesBalance [(id, .UpdateBalance oldNonce newNonce (token', oldBalance,
        newBalance))] id token ↔ token = token' := by
      simp [WritesBalance]
    rw [hw, or_comm]
    exact Finmap.mem_insert
  | ChangePubKeyHash oldPubKeyHash newPubKeyHash oldNonce newNonce =>
    obtain ⟨b, hb, -⟩ := hfits
    rw [hb]
    refine hover b _ hb rfl fun token => ?_
    simp [WritesBalance]

theorem NoCreate.of_append (h : NoCreate (us ++ vs)) : NoCreate us ∧ NoCreate vs :=
  ⟨fun u hu => h u (List.mem_append_left _ hu), fun u hu => h u (List.mem_append_right _ hu)⟩

/-- Updates that create no account keep what they do not write. -/
theorem kept_of_run (h : Run Ledger.Step m us m') (hc : NoCreate us) : Kept us m m' := by
  induction h with
  | nil m => exact kept_refl m
  | cons hstep _ ih =>
    exact (kept_of_step hstep (hc _ List.mem_cons_self)).trans
      (ih fun v hv => hc v (List.mem_cons_of_mem _ hv))

/-- Addresses are never written. -/
theorem Kept.addressOf (h : Kept us m m') : m'.addressOf = m.addressOf := by
  funext id
  unfold Ledger.addressOf
  cases hm : m id with
  | none => rw [h.vacant id hm]
  | some a =>
    obtain ⟨a', ha', hadr, -⟩ := h.account id a hm
    rw [ha']
    exact congrArg some hadr

/-- The first part decides, where it knows an owner. -/
theorem firstOwner_append (adr : AccountId → Option Address) (us vs : AccountUpdates)
    (address : Address) (now : Option AccountId) :
    firstOwner adr (us ++ vs) address now =
      firstOwner adr us address (firstOwner adr vs address now) :=
  List.foldr_append

end Ledger

/-! ## Undoing without creation -/

section Undo

variable {env : Env} {s s' s₁ : ZkSyncState}

/-- An update that neither creates nor deletes is applied as a step of the
ledger, and puts its account into the index. -/
theorem step_of_applyAccountUpdate {id : AccountId} {update : AccountUpdate}
    (hc : ∀ address nonce, update ≠ .Create address nonce)
    (hd : ∀ address nonce, update ≠ .Delete address nonce)
    (h : s.applyAccountUpdate id update = .ok s') :
    Ledger.Step s.getAccount (id, update) s'.getAccount ∧
      ∀ address, s'.accountIdByAddress.lookup address =
        if Ledger.addressOf s.getAccount id = some address then some id
        else s.accountIdByAddress.lookup address := by
  -- a write that keeps the address keeps the index
  have hwrite : ∀ a a' : Account, s.getAccount id = some a → a'.address = a.address →
      ∀ address, (s.insertAccount id a').accountIdByAddress.lookup address =
        if Ledger.addressOf s.getAccount id = some address then some id
        else s.accountIdByAddress.lookup address := by
    intro a a' ha hadr address
    rw [ZkSyncState.lookup_insertAccount, hadr]
    have hadr' : Ledger.addressOf s.getAccount id = some a.address := by
      unfold Ledger.addressOf
      rw [ha]
      rfl
    rw [hadr']
    by_cases h : address = a.address
    · rw [if_pos h, if_pos (congrArg some h.symm)]
    · rw [if_neg h, if_neg fun he => h (Option.some.inj he).symm]
  cases update with
  | Create address nonce => exact absurd rfl (hc address nonce)
  | Delete address nonce => exact absurd rfl (hd address nonce)
  | UpdateBalance oldNonce newNonce upd =>
    -- the amount is written back
    obtain ⟨token, oldBalance, newBalance⟩ := upd
    simp only [ZkSyncState.applyAccountUpdate, Outcome.bind_eq_ok, Outcome.expect_eq_ok,
      Outcome.assert_eq_ok] at h
    obtain ⟨a, ha, _, h1, _, h2, h⟩ := h
    cases h
    refine ⟨⟨⟨a, ha, h1, h2⟩, ?_⟩, hwrite a _ ha rfl⟩
    rw [ZkSyncState.getAccount_insertAccount]
    dsimp only
    rw [ha]
    rfl
  | ChangePubKeyHash oldPubKeyHash newPubKeyHash oldNonce newNonce =>
    simp only [ZkSyncState.applyAccountUpdate, Outcome.bind_eq_ok, Outcome.expect_eq_ok,
      Outcome.assert_eq_ok] at h
    obtain ⟨a, ha, _, h1, _, h2, h⟩ := h
    cases h
    refine ⟨⟨⟨a, ha, h1, h2⟩, ?_⟩, hwrite a _ ha rfl⟩
    rw [ZkSyncState.getAccount_insertAccount]
    dsimp only
    rw [ha]
    rfl

/-- Undoing gives an address to the account that was undone first. -/
theorem applyAccountUpdates_index {vs : AccountUpdates} (hc : NoCreate vs) (hd : NoDelete vs)
    (h : s.applyAccountUpdates vs = .ok s') :
    Run Ledger.Step s.getAccount vs s'.getAccount ∧
      ∀ address, s'.accountIdByAddress.lookup address =
        vs.foldl (fun owner u => if Ledger.addressOf s.getAccount u.1 = some address then some u.1
          else owner) (s.accountIdByAddress.lookup address) := by
  induction vs generalizing s with
  | nil =>
    cases h
    exact ⟨.nil _, fun _ => rfl⟩
  | cons u vs ih =>
    obtain ⟨id, update⟩ := u
    unfold ZkSyncState.applyAccountUpdates at h
    rw [Outcome.bind_eq_ok] at h
    obtain ⟨s₁, h₁, h⟩ := h
    obtain ⟨hstep, hidx⟩ := step_of_applyAccountUpdate (hc _ List.mem_cons_self)
      (hd _ List.mem_cons_self) h₁
    obtain ⟨hrun, hidx'⟩ := ih (fun v hv => hc v (List.mem_cons_of_mem _ hv))
      (fun v hv => hd v (List.mem_cons_of_mem _ hv)) h
    refine ⟨.cons hstep hrun, fun address => ?_⟩
    rw [hidx', hidx, (kept_of_step hstep (hc _ List.mem_cons_self)).addressOf, List.foldl_cons]

/-- The reverse of a list that creates nothing deletes nothing. -/
theorem NoCreate.reverse {us : AccountUpdates} (h : NoCreate us) :
    NoDelete (reverseUpdates us) := by
  intro u hu address nonce he
  obtain ⟨v, hv, rfl⟩ := List.mem_map.mp hu
  refine h v (List.mem_reverse.mp hv) address nonce ?_
  rw [← AccountUpdate.reversedUpdate_reversedUpdate v.2]
  exact congrArg AccountUpdate.reversedUpdate he

/-- Undoing updates that created no account: the ledger runs on, and every
address goes to its first owner. -/
theorem index_of_undo {us : AccountUpdates} (hc : NoCreate us) (hd : NoDelete us)
    (h : s₁.applyAccountUpdates (reverseUpdates us) = .ok s') :
    Run Ledger.Step s₁.getAccount (reverseUpdates us) s'.getAccount ∧
      ∀ address, s'.accountIdByAddress.lookup address =
        firstOwner (Ledger.addressOf s₁.getAccount) us address
          (s₁.accountIdByAddress.lookup address) := by
  obtain ⟨hrun, hidx⟩ := applyAccountUpdates_index hd.reverse hc.reverse h
  refine ⟨hrun, fun address => ?_⟩
  rw [hidx, reverseUpdates, List.foldl_map, List.foldl_reverse]
  rfl

end Undo

/-! ## Addresses in the index -/

section Located

variable {env : Env} {s s' s₁ : ZkSyncState} {p : Address → Prop}

/-- Every address of an account is in the index, if it has property `p`. -/
def Located (p : Address → Prop) (s : ZkSyncState) : Prop :=
  ∀ id a, s.getAccount id = some a → p a.address →
    (s.accountIdByAddress.lookup a.address).isSome

/-- The addresses in the index of `s` are in that of `s'`. -/
def IndexGrows (s s' : ZkSyncState) : Prop :=
  ∀ address, (s.accountIdByAddress.lookup address).isSome →
    (s'.accountIdByAddress.lookup address).isSome

theorem indexGrows_refl (s : ZkSyncState) : IndexGrows s s := fun _ h => h

/-- Writing an account takes no address from the index. -/
theorem indexGrows_insertAccount (s : ZkSyncState) (id : AccountId) (account : Account) :
    IndexGrows s (s.insertAccount id account) := by
  intro address h
  rw [ZkSyncState.lookup_insertAccount]
  split
  next => rfl
  next => exact h

/-- An account that is written is found at its address. -/
theorem located_insertAccount (h : Located p s) (id : AccountId) (account : Account) :
    Located p (s.insertAccount id account) := by
  intro id' a ha hne
  by_cases hid : id' = id
  · subst hid
    rw [ZkSyncState.getAccount_insertAccount_self] at ha
    obtain rfl := Option.some.inj ha
    rw [ZkSyncState.lookup_insertAccount, if_pos rfl]
    rfl
  · rw [ZkSyncState.getAccount_insertAccount_of_ne _ _ _ hid] at ha
    exact indexGrows_insertAccount s id account _ (h id' a ha hne)

/-- Transactions keep accounts at their addresses. -/
theorem TxEffect.located {tx : ZkSyncTx} {r : OpSuccess} (h : TxEffect env s tx r s')
    (hs : Located p s) : Located p s' := by
  cases h with
  | transfer => exact located_insertAccount (located_insertAccount hs _ _) _ _
  | transferToSelf => exact located_insertAccount hs _ _
  | transferToNew => exact located_insertAccount (located_insertAccount hs _ _) _ _
  | withdraw => exact located_insertAccount hs _ _
  | changePubKey => exact located_insertAccount hs _ _
  | forcedExit => exact located_insertAccount (located_insertAccount hs _ _) _ _

/-- They take no address from the index. -/
theorem TxEffect.indexGrows {tx : ZkSyncTx} {r : OpSuccess} (h : TxEffect env s tx r s') :
    IndexGrows s s' := by
  have htwo : ∀ (i j : AccountId) (a b : Account),
      IndexGrows s ((s.insertAccount i a).insertAccount j b) := fun i j a b address hadr =>
    indexGrows_insertAccount _ j b address (indexGrows_insertAccount s i a address hadr)
  cases h with
  | transfer => exact htwo _ _ _ _
  | transferToSelf => exact indexGrows_insertAccount s _ _
  | transferToNew => exact htwo _ _ _ _
  | withdraw => exact indexGrows_insertAccount s _ _
  | changePubKey => exact indexGrows_insertAccount s _ _
  | forcedExit => exact htwo _ _ _ _

/-- A run of transactions creates no account at an address of the index. -/
theorem indexGrows_of_run {es : List Executed} (h : Run (TxStep env) s es s') :
    IndexGrows s s' ∧ ∀ address, (s.accountIdByAddress.lookup address).isSome →
      ∀ u ∈ updatesOf es, ∀ nonce, u.2 ≠ .Create address nonce := by
  induction h with
  | nil => exact ⟨fun _ h => h, fun _ _ u hu => absurd hu List.not_mem_nil⟩
  | @cons s s₁ s' e es hstep _ ih =>
    have heff := executeTx_effect hstep
    refine ⟨fun address h => ih.1 address (heff.indexGrows address h), fun address h u hu n he => ?_⟩
    unfold updatesOf at hu
    rw [List.flatMap_cons, List.mem_append] at hu
    rcases hu with hu | hu
    · have hfirst := heff.createsFirst
      cases hups : e.2.updates with
      | nil =>
        rw [hups] at hu
        exact absurd hu List.not_mem_nil
      | cons v vs =>
        rw [hups] at hu hfirst
        rcases List.mem_cons.mp hu with rfl | hu
        · rw [hfirst.head u rfl address n he] at h
          cases h
        · exact hfirst.tail u hu address n he
    · exact ih.2 address (heff.indexGrows address h) u hu n he

/-- Applying updates loses only the addresses it deletes. -/
theorem applyAccountUpdates_indexGrows {vs : AccountUpdates} {address : Address}
    (hd : ∀ u ∈ vs, ∀ nonce, u.2 ≠ .Delete address nonce)
    (h : s.applyAccountUpdates vs = .ok s')
    (hadr : (s.accountIdByAddress.lookup address).isSome) :
    (s'.accountIdByAddress.lookup address).isSome := by
  induction vs generalizing s with
  | nil =>
    cases h
    exact hadr
  | cons u vs ih =>
    obtain ⟨id, update⟩ := u
    unfold ZkSyncState.applyAccountUpdates at h
    rw [Outcome.bind_eq_ok] at h
    obtain ⟨s₁, h₁, h⟩ := h
    refine ih (fun v hv => hd v (List.mem_cons_of_mem _ hv)) h ?_
    have hne := hd _ List.mem_cons_self
    cases update with
    | Create address' nonce =>
      simp only [ZkSyncState.applyAccountUpdate, Outcome.bind_eq_ok] at h₁
      obtain ⟨found, -, _, -, h₁⟩ := h₁
      cases h₁
      exact indexGrows_insertAccount s _ _ address hadr
    | Delete address' nonce =>
      simp only [ZkSyncState.applyAccountUpdate, Outcome.bind_eq_ok, Outcome.expect_eq_ok,
        Outcome.assert_eq_ok] at h₁
      obtain ⟨a, ha, _, rfl, _, -, h₁⟩ := h₁
      cases h₁
      rw [lookup_removeAccount ha, if_neg]
      · exact hadr
      · rintro rfl
        exact hne nonce rfl
    | UpdateBalance oldNonce newNonce upd =>
      simp only [ZkSyncState.applyAccountUpdate, Outcome.bind_eq_ok] at h₁
      obtain ⟨a, -, _, -, _, -, h₁⟩ := h₁
      cases h₁
      exact indexGrows_insertAccount s _ _ address hadr
    | ChangePubKeyHash oldPubKeyHash newPubKeyHash oldNonce newNonce =>
      simp only [ZkSyncState.applyAccountUpdate, Outcome.bind_eq_ok] at h₁
      obtain ⟨a, -, _, -, _, -, h₁⟩ := h₁
      cases h₁
      exact indexGrows_insertAccount s _ _ address hadr

/-- A batch that is undone leaves the addresses of the index in it. -/
theorem indexGrows_of_undo {es : List Executed} (hrun : Run (TxStep env) s es s₁)
    (hundo : s₁.applyAccountUpdates (reverseUpdates (updatesOf es)) = .ok s') :
    IndexGrows s s' := by
  obtain ⟨hgrows, hno⟩ := indexGrows_of_run hrun
  intro address h
  refine applyAccountUpdates_indexGrows (fun u hu nonce he => ?_) hundo (hgrows address h)
  obtain ⟨v, hv, rfl⟩ := List.mem_map.mp hu
  refine hno address h v (List.mem_reverse.mp hv) nonce ?_
  rw [← AccountUpdate.reversedUpdate_reversedUpdate v.2]
  exact congrArg AccountUpdate.reversedUpdate he

/-- So does a row of them. -/
theorem located_of_txRun {es : List Executed} (h : Run (TxStep env) s es s') (hs : Located p s) :
    Located p s' := by
  induction h with
  | nil => exact hs
  | cons hstep _ ih => exact ih ((executeTx_effect hstep).located hs)

/-- Each step keeps them there, but for the zero address. -/
theorem Step.located (hz : env.NoZeroSigner) {e : Event} (h : Step env s e s')
    (hs : Located (· ≠ 0) s) : Located (· ≠ 0) s' := by
  cases h with
  | txOk h => exact (executeTx_effect h).located hs
  | txFailed h => exact hs
  | batch h =>
    cases executeTxsBatch_outcome h with
    | done _ run => exact located_of_txRun run hs
    | undone _ run _ undo =>
      intro id a ha hne
      have hr := undo_restores hz run undo
      cases hs0 : s.getAccount id with
      | none =>
        rcases hr.vacant hs0 with hn | hdef
        · rw [hn] at ha
          cases ha
        · rw [hdef] at ha
          obtain rfl := Option.some.inj ha
          exact absurd rfl hne
      | some a₀ =>
        obtain ⟨a', ha', he⟩ := hr.account hs0
        rw [ha'] at ha
        obtain rfl := Option.some.inj ha
        rw [he.address] at hne ⊢
        exact indexGrows_of_undo run undo _ (hs id a₀ hs0 hne)
  | priorityOp h =>
    cases executePriorityOp_effect h with
    | deposit => exact located_insertAccount hs _ _
    | depositToNew => exact located_insertAccount hs _ _
    | fullExit => exact located_insertAccount hs _ _
    | fullExitRefused => exact hs
  | collectFee h =>
    obtain ⟨a, a', -, -, rfl, -, -⟩ := collectFee_effect h
    exact located_insertAccount hs _ _
  | rootHash h =>
    unfold Located
    rw [getAccount_of_rootHash h, index_of_rootHash h]
    exact hs

/-- A loaded state has every account at its address. -/
theorem located_fromAccMap (H : Hasher Fr) (accounts : AList fun _ : AccountId => Account)
    (block : BlockNumber) : Located (fun _ => True) (ZkSyncState.fromAccMap H accounts block) := by
  unfold ZkSyncState.fromAccMap
  have hfold : ∀ (entries : List (Sigma fun _ : AccountId => Account)) (s : ZkSyncState),
      Located (fun _ => True) s → Located (fun _ => True) (entries.foldl (fun s entry => s.insertAccount entry.1 entry.2) s) := by
    intro entries
    induction entries with
    | nil => exact fun s hs => hs
    | cons entry entries ih => exact fun s hs => ih _ (located_insertAccount hs _ _)
  refine hfold _ _ fun id a ha _ => ?_
  cases ha

/-- In every reachable state every account at an address other than zero is in
the index. -/
theorem reachable_located (hz : env.NoZeroSigner) (h : Reachable env s) :
    Located (· ≠ 0) s := by
  obtain ⟨accounts, block, tr, hrun⟩ := h
  exact hrun.invariant (fun _ _ _ hs h => h.located hz hs)
    fun id a ha _ => located_fromAccMap _ _ _ id a ha trivial

end Located

end ZkSync
