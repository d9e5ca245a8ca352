import ZkSync.Core.MempoolStorage
import ZkSync.Storage.StateDiffs

/-!
# What the mempool checks of a nonce

The mempool knows the nonces of the committed accounts: it starts from the
stored accounts, and follows the account updates of every committed block. Its
table is keyed by address, with a second one from ids to addresses, so this
works as long as no two accounts share an address. They never do: an update
creates an account only at an address that the index of the keeper does not
have, and the index has all addresses of all accounts that were committed or
wait in the pending block (`Awaits`). So in every life of the server the table
holds the committed nonces and nothing else (`tracks_after`).

Which nonce is compared is decided by `ZkSyncTx::account`. For a forced exit
that is the account to be emptied, but the handler compares the nonce with that
of the initiator. The admission is right for every transaction that is not a
forced exit, and for those it goes wrong just where the two nonces disagree about
the transaction (`admissionRight_iff`).
-/

namespace ZkSync

/-! ## Updates that create at new addresses -/

namespace Ledger

/-- One update that holds, and creates no second account at an address. -/
def NewStep (m : Ledger) (u : AccountId × AccountUpdate) (m' : Ledger) : Prop :=
  HoldStep m u m' ∧ ∀ address nonce, u.2 = .Create address nonce →
    ∀ id a, m id = some a → a.address ≠ address

/-- No two accounts have the same address. -/
def DistinctAddresses (m : Ledger) : Prop :=
  ∀ id id' a a', m id = some a → m id' = some a' → a.address = a'.address → id = id'

/-- Every address of the accounts is in the index of the state. -/
def AddressesIn (m : Ledger) (s : ZkSyncState) : Prop :=
  ∀ id a, m id = some a → (s.accountIdByAddress.lookup a.address).isSome

section Addresses

variable {m m' : Ledger} {us : AccountUpdates} {s s' : ZkSyncState}

/-- An account after an update has the address of the account before, or was
created. -/
theorem address_applyUpdate {o : Option Account} {update : AccountUpdate} {a' : Account}
    (h : Account.applyUpdate o update = some a') :
    (∃ a, o = some a ∧ a.address = a'.address) ∨ ∃ nonce, update = .Create a'.address nonce := by
  cases o with
  | none =>
    cases update with
    | Create address nonce =>
      cases h
      exact Or.inr ⟨nonce, rfl⟩
    | Delete => cases h
    | UpdateBalance => cases h
    | ChangePubKeyHash => cases h
  | some a =>
    refine Or.inl ⟨a, rfl, ?_⟩
    cases update with
    | Delete => cases h
    | Create | UpdateBalance | ChangePubKeyHash =>
      cases h
      rfl

/-- Addresses stay in the index. -/
theorem AddressesIn.grows (h : m.AddressesIn s) (hg : IndexGrows s s') : m.AddressesIn s' :=
  fun id a ha => hg a.address (h id a ha)

/-- What is created is in the index. -/
theorem AddressesIn.apply (h : m.AddressesIn s) (hc : CreatesKnown us s) :
    (m.apply us).AddressesIn s := by
  induction us generalizing m with
  | nil => exact h
  | cons u us ih =>
    have hsplit : m.apply (u :: us) = (m.apply [u]).apply us := rfl
    rw [hsplit]
    refine ih (fun id a' ha' => ?_) fun v hv => hc v (List.mem_cons_of_mem _ hv)
    rw [apply_single, Function.update_apply] at ha'
    split at ha'
    · rcases address_applyUpdate ha' with ⟨a, ha, hadr⟩ | ⟨nonce, he⟩
      · rw [← hadr]
        exact h u.1 a ha
      · exact hc u List.mem_cons_self a'.address nonce he
    · exact h id a' ha'

/-- Updates of which only the first creates an account, at an address that is not
in the index. -/
theorem newRun_of_createsFirst (h : m.AddressesIn s) (hrun : Run HoldStep m us m')
    (hc : CreatesFirst s us) : Run NewStep m us m' := by
  cases hrun with
  | nil => exact .nil _
  | @cons m m₁ m' u us hstep hrest =>
    refine .cons ⟨hstep, fun address nonce he id a ha hadr => ?_⟩ ?_
    · have hin := h id a ha
      rw [hadr, hc.head u rfl address nonce he] at hin
      cases hin
    · clear hstep h
      have hno : NoCreate us := hc.tail
      clear hc
      induction hrest with
      | nil => exact .nil _
      | cons hstep _ ih =>
        exact .cons ⟨hstep, fun address nonce he => absurd he (hno _ List.mem_cons_self _ _)⟩
          (ih fun v hv => hno v (List.mem_cons_of_mem _ hv))

/-- A new account has an address of its own. -/
theorem DistinctAddresses.step (h : m.DistinctAddresses) {u : AccountId × AccountUpdate}
    (hstep : NewStep m u m') : m'.DistinctAddresses := by
  obtain ⟨⟨-, rfl⟩, hnew⟩ := hstep
  rw [apply_single]
  -- what the account at `u.1` has in common with another one
  have hother : ∀ id a a', id ≠ u.1 → m id = some a → Account.applyUpdate (m u.1) u.2 = some a' →
      a.address ≠ a'.address := by
    intro id a a' hne ha ha' hadr
    rcases address_applyUpdate ha' with ⟨b, hb, hadr'⟩ | ⟨nonce, he⟩
    · exact hne (h id u.1 a b ha hb (hadr.trans hadr'.symm))
    · exact hnew a'.address nonce he id a ha hadr
  intro id id' a a' ha ha' hadr
  rw [Function.update_apply] at ha ha'
  split at ha
  next heq =>
    split at ha'
    next heq' => exact heq.trans heq'.symm
    next hne' => exact absurd hadr.symm (hother id' a' a hne' ha' ha)
  next hne =>
    split at ha'
    next heq' => exact absurd hadr (hother id a a' hne ha ha')
    next hne' => exact h id id' a a' ha ha' hadr

/-- So no two accounts ever share one. -/
theorem DistinctAddresses.run (h : m.DistinctAddresses) (hrun : Run NewStep m us m') :
    m'.DistinctAddresses :=
  hrun.invariant (I := DistinctAddresses) (fun _ _ _ h hstep => h.step hstep) h

/-- The run leads to the accounts behind its updates. -/
theorem apply_of_newRun (hrun : Run NewStep m us m') : m' = m.apply us := by
  induction hrun with
  | nil => rfl
  | cons hstep _ ih =>
    obtain ⟨⟨-, rfl⟩, -⟩ := hstep
    exact ih

end Addresses

end Ledger

/-! ## The nonces of the mempool -/

/-- The mempool knows exactly these accounts: their addresses by id, and their
nonces by address. -/
structure MempoolState.TracksNonces (mp : MempoolState) (m : Ledger) : Prop where
  ids : ∀ id, mp.accountIds.lookup id = (m id).map (·.address)
  nonces : ∀ address nonce, mp.accountNonces.lookup address = some nonce ↔
    ∃ id a, m id = some a ∧ a.address = address ∧ a.nonce = nonce

section Tracked

variable {mp : MempoolState} {m m' : Ledger} {us : AccountUpdates}

/-- The account at an id gets a new nonce and keeps its address. -/
theorem tracksNonces_setNonce (h : mp.TracksNonces m) (hd : m.DistinctAddresses) {id : AccountId}
    {o : Option Account} {newNonce : Nonce} (hnone : m id = none → o = none)
    (hsome : ∀ a, m id = some a → ∃ a', o = some a' ∧ a'.address = a.address ∧ a'.nonce = newNonce) :
    (mp.setNonce id newNonce).TracksNonces (Function.update m id o) := by
  unfold MempoolState.setNonce
  rw [h.ids]
  -- whether the mempool knows the id already
  cases hm : m id with
  | none =>
    have hsame : Function.update m id o = m := by
      rw [hnone hm, ← hm, Function.update_eq_self]
    rw [hsame]
    exact h
  | some a =>
    obtain ⟨a', rfl, hadr, rfl⟩ := hsome a hm
    have hmem : a.address ∈ mp.accountNonces :=
      Finmap.mem_of_lookup_eq_some ((h.nonces a.address a.nonce).mpr ⟨id, a, hm, rfl, rfl⟩)
    dsimp only [Option.map_some]
    rw [if_pos hmem]
    refine ⟨fun id' => ?_, fun address nonce => ?_⟩
    · rw [Function.update_apply]
      split
      next heq => rw [heq, h.ids, hm, Option.map_some, Option.map_some, hadr]
      next => exact h.ids id'
    · by_cases hat : address = a.address
      · subst hat
        rw [Finmap.lookup_insert]
        constructor
        · rintro hn
          exact ⟨id, a', Function.update_self .., hadr, Option.some.inj hn⟩
        · rintro ⟨id', b, hb, hadr', rfl⟩
          rw [Function.update_apply] at hb
          split at hb
          next => rw [Option.some.inj hb]
          next hne => exact absurd (hd id' id b a hb hm hadr') hne
      · rw [Finmap.lookup_insert_of_ne _ hat, h.nonces]
        constructor
        · rintro ⟨id', b, hb, rfl, hn⟩
          have hne : id' ≠ id := by
            rintro rfl
            rw [hm] at hb
            exact hat (congrArg Account.address (Option.some.inj hb)).symm
          exact ⟨id', b, (Function.update_of_ne hne ..).trans hb, rfl, hn⟩
        · rintro ⟨id', b, hb, rfl, hn⟩
          rw [Function.update_apply] at hb
          split at hb
          next =>
            obtain rfl := Option.some.inj hb
            exact absurd hadr hat
          next => exact ⟨id', b, hb, rfl, hn⟩

/-- A new account at a new address. -/
theorem tracksNonces_create (h : mp.TracksNonces m) {id : AccountId} {a : Account}
    (hfree : m id = none) (hnew : ∀ id' b, m id' = some b → b.address ≠ a.address) :
    MempoolState.TracksNonces { mp with
      accountIds := mp.accountIds.insert id a.address
      accountNonces := mp.accountNonces.insert a.address a.nonce }
      (Function.update m id (some a)) := by
  refine ⟨fun id' => ?_, fun address nonce => ?_⟩
  · rw [Function.update_apply]
    split
    next heq =>
      subst heq
      exact Finmap.lookup_insert _
    next hne => exact (Finmap.lookup_insert_of_ne _ hne).trans (h.ids id')
  · by_cases hat : address = a.address
    · subst hat
      refine Iff.trans (by rw [Finmap.lookup_insert]) ?_
      constructor
      · rintro hn
        exact ⟨id, a, Function.update_self .., rfl, Option.some.inj hn⟩
      · rintro ⟨id', b, hb, hadr, rfl⟩
        rw [Function.update_apply] at hb
        split at hb
        next => rw [Option.some.inj hb]
        next => exact absurd hadr (hnew id' b hb)
    · refine Iff.trans (by rw [Finmap.lookup_insert_of_ne _ hat]) ((h.nonces address nonce).trans ?_)
      constructor
      · rintro ⟨id', b, hb, hadr, hn⟩
        have hne : id' ≠ id := by
          rintro rfl
          rw [hfree] at hb
          cases hb
        exact ⟨id', b, (Function.update_of_ne hne ..).trans hb, hadr, hn⟩
      · rintro ⟨id', b, hb, hadr, hn⟩
        rw [Function.update_apply] at hb
        split at hb
        next =>
          obtain rfl := Option.some.inj hb
          exact absurd hadr.symm hat
        next => exact ⟨id', b, hb, hadr, hn⟩

/-- The mempool follows an update of the accounts. -/
theorem MempoolState.TracksNonces.step (h : mp.TracksNonces m) (hd : m.DistinctAddresses)
    {u : AccountId × AccountUpdate} (hstep : Ledger.NewStep m u m') :
    (mp.updateNonce u.1 u.2).TracksNonces m' := by
  obtain ⟨id, update⟩ := u
  obtain ⟨⟨hholds, rfl⟩, hnew⟩ := hstep
  rw [Ledger.apply_single]
  dsimp only at hholds hnew ⊢
  cases update with
  | Create address nonce =>
    have hfree : m id = none := hholds
    rw [hfree]
    exact tracksNonces_create (a := { Account.default with address := address, nonce := nonce }) h
      hfree (hnew address nonce rfl)
  | Delete address nonce => exact hholds.elim
  | UpdateBalance oldNonce newNonce upd =>
    refine tracksNonces_setNonce h hd (fun hm => by rw [hm]; rfl) fun a ha => ?_
    rw [ha]
    exact ⟨_, rfl, rfl, rfl⟩
  | ChangePubKeyHash oldKey newKey oldNonce newNonce =>
    refine tracksNonces_setNonce h hd (fun hm => by rw [hm]; rfl) fun a ha => ?_
    rw [ha]
    exact ⟨_, rfl, rfl, rfl⟩

/-- So it follows a block of them. -/
theorem MempoolState.TracksNonces.run (hrun : Run Ledger.NewStep m us m') :
    ∀ {mp : MempoolState}, mp.TracksNonces m → m.DistinctAddresses →
      (mp.updateNonces us).TracksNonces m' := by
  induction hrun with
  | nil => exact fun h _ => h
  | cons hstep _ ih => exact fun h hd => ih (h.step hd hstep) (hd.step hstep)

/-- The loop over the stored accounts; none of them is written over another, and no
two have the same address. -/
theorem tracksNonces_foldl :
    ∀ (entries : List (Sigma fun _ : AccountId => Account)) (mp : MempoolState) (m : Ledger),
      entries.NodupKeys → (∀ entry ∈ entries, m entry.1 = none) →
      Ledger.DistinctAddresses (fun id => (entries.dlookup id).or (m id)) → mp.TracksNonces m →
      (entries.foldl (fun mp entry => { mp with
        accountIds := mp.accountIds.insert entry.1 entry.2.address
        accountNonces := mp.accountNonces.insert entry.2.address entry.2.nonce }) mp).TracksNonces
        fun id => (entries.dlookup id).or (m id) := by
  intro entries
  induction entries with
  | nil => exact fun mp m _ _ _ h => h
  | cons entry entries ih =>
    intro mp m hnd hfree hd h
    obtain ⟨hnot, hnd'⟩ := List.nodupKeys_cons.mp hnd
    have hsame : (fun id => ((entry :: entries).dlookup id).or (m id)) =
        fun id => (entries.dlookup id).or (Function.update m entry.1 (some entry.2) id) := by
      funext id
      by_cases hid : id = entry.1
      · subst hid
        rw [List.dlookup_cons_eq, List.dlookup_eq_none.mpr hnot, Function.update_self]
        rfl
      · rw [List.dlookup_cons_ne _ _ hid, Function.update_of_ne hid]
    rw [List.foldl_cons, hsame]
    refine ih _ _ hnd' (fun entry' he => ?_) (hsame ▸ hd)
      (tracksNonces_create h (hfree entry List.mem_cons_self) fun id' b hb hadr => ?_)
    · have hne : entry'.1 ≠ entry.1 := fun he' => hnot (he' ▸ List.mem_keys_of_mem he)
      rw [Function.update_of_ne hne]
      exact hfree _ (List.mem_cons_of_mem _ he)
    · have hout : (entry :: entries).dlookup id' = none := List.dlookup_eq_none.mpr fun hmem => by
        obtain ⟨e, he, rfl⟩ := List.mem_map.mp hmem
        rw [hfree e he] at hb
        cases hb
      have hid : id' = entry.1 := hd id' entry.1 b entry.2
        (by dsimp only; rw [hout]; exact hb) (by dsimp only; rw [List.dlookup_cons_eq]; rfl) hadr
      rw [hid, hfree entry List.mem_cons_self] at hb
      cases hb

/-- A restored mempool knows the stored accounts. -/
theorem tracksNonces_restore {accounts : AList fun _ : AccountId => Account}
    (hd : Ledger.DistinctAddresses fun id => accounts.lookup id) :
    (MempoolState.restore accounts).TracksNonces fun id => accounts.lookup id := by
  have hor : (fun id => accounts.lookup id) =
      fun id => (accounts.entries.dlookup id).or ((fun _ => none : Ledger) id) :=
    funext fun id => Option.or_none.symm
  rw [hor] at hd ⊢
  refine tracksNonces_foldl accounts.entries _ _ accounts.nodupKeys (fun _ _ => rfl) hd ⟨?_, ?_⟩
  · exact fun id => Finmap.lookup_empty _
  · refine fun address nonce => ⟨fun h => ?_, fun ⟨_, _, h, _⟩ => (by cases h)⟩
    rw [Finmap.lookup_empty] at h
    cases h

/-- An address that no account has gets the nonce zero. -/
def Ledger.NonceAt (m : Ledger) (address : Address) (nonce : Nonce) : Prop :=
  (∃ id a, m id = some a ∧ a.address = address ∧ a.nonce = nonce) ∨
    (∀ id a, m id = some a → a.address ≠ address) ∧ nonce = 0

/-- What it knows of an address is the nonce of its account. -/
theorem MempoolState.TracksNonces.nonceAt (h : mp.TracksNonces m) {address : Address}
    {nonce : Nonce} : m.NonceAt address nonce ↔ mp.nonce address = nonce := by
  unfold MempoolState.nonce Ledger.NonceAt
  cases hlookup : mp.accountNonces.lookup address with
  | none =>
    have hnone : ∀ id a, m id = some a → a.address ≠ address := fun id a ha hadr => by
      rw [(h.nonces address a.nonce).mpr ⟨id, a, ha, hadr, rfl⟩] at hlookup
      cases hlookup
    exact ⟨fun hat => hat.elim (fun ⟨id, a, ha, hadr, _⟩ => absurd hadr (hnone id a ha))
      fun hat => hat.2.symm, fun hn => Or.inr ⟨hnone, hn.symm⟩⟩
  | some known =>
    obtain ⟨id, a, ha, hadr, hn⟩ := (h.nonces address known).mp hlookup
    refine ⟨fun hat => ?_, fun hnonce => ?_⟩
    · rcases hat with hat | ⟨hnone, -⟩
      · rw [(h.nonces address nonce).mpr hat] at hlookup
        exact (Option.some.inj hlookup).symm
      · exact absurd hadr (hnone id a ha)
    · exact Or.inl ⟨id, a, ha, hadr, hn.trans hnonce⟩

end Tracked

/-! ## What a keeper commits -/

/-- The state has these accounts, and all their addresses in its index. -/
structure Ledger.FollowedBy (m : Ledger) (s : ZkSyncState) : Prop where
  backed : BackedBy m s.getAccount
  addresses : m.AddressesIn s

/-- From the accounts `m` of the committed blocks, the pending block creates accounts
only at new addresses, and leads to what the state goes on from. -/
structure Awaits (m : Ledger) (k : ZkSyncStateKeeper) : Prop where
  run : Run Ledger.NewStep m k.pendingBlock.accountUpdates (m.apply k.pendingBlock.accountUpdates)
  followed : (m.apply k.pendingBlock.accountUpdates).FollowedBy k.state

/-- The account updates of the block that a reply sends, if it sends one. -/
def KeeperReply.committedUpdates (reply : KeeperReply) : AccountUpdates :=
  reply.sent.flatMap CommitRequest.accountsUpdated

section Keeper

variable {env : Env} {m m' : Ledger} {s s' : ZkSyncState} {k k' : ZkSyncStateKeeper}
  {us : AccountUpdates}

/-- Operations only add to the index. -/
theorem OpStep.index (h : OpStep env s us s') : IndexGrows s s' ∧ CreatesKnown us s' := by
  cases h with
  | tx h => exact ⟨(executeTx_effect h).indexGrows, (executeTx_effect h).createsKnown⟩
  | priorityOp h =>
    exact ⟨(executePriorityOp_effect h).indexGrows, (executePriorityOp_effect h).createsKnown⟩
  | collectFee h =>
    obtain ⟨_, _, -, -, -, hno, -⟩ := collectFee_effect h
    exact ⟨indexGrows_collectFee h, hno.createsKnown _⟩

namespace Ledger.FollowedBy

/-- An operation creates only at new addresses, and is followed. -/
theorem op (hz : env.NoZeroSigner) (h : m.FollowedBy s) (hop : OpStep env s us s') :
    Run NewStep m us (m.apply us) ∧ (m.apply us).FollowedBy s' := by
  obtain ⟨hfirst, hrun⟩ := hop.run hz
  obtain ⟨hgrows, hknown⟩ := hop.index
  obtain ⟨hhold, hbacked⟩ := h.backed.run hrun
  exact ⟨newRun_of_createsFirst h.addresses hhold hfirst,
    ⟨hbacked, (h.addresses.grows hgrows).apply hknown⟩⟩

/-- The accounts behind some transactions are those behind their updates. -/
theorem txRun (hz : env.NoZeroSigner) {es : List Executed} (hrun : Run (TxStep env) s es s') :
    ∀ {m : Ledger}, m.FollowedBy s → Run NewStep m (updatesOf es) (m.apply (updatesOf es)) ∧
      (m.apply (updatesOf es)).FollowedBy s' := by
  induction hrun with
  | nil => exact fun h => ⟨.nil _, h⟩
  | @cons s s₁ s' e es hstep _ ih =>
    intro m h
    obtain ⟨hfirst, h₁⟩ := h.op hz (.tx hstep)
    obtain ⟨hrest, h'⟩ := ih h₁
    unfold updatesOf
    rw [List.flatMap_cons, apply_append]
    exact ⟨hfirst.append hrest, h'⟩

/-- What gives the accounts back, and loses no address, goes on. -/
theorem restores (h : m.FollowedBy s) (hr : Restores s'.getAccount s.getAccount)
    (hg : IndexGrows s s') : m.FollowedBy s' :=
  ⟨h.backed.restores hr, h.addresses.grows hg⟩

/-- The same for a batch, which may have failed. -/
theorem batch (hz : env.NoZeroSigner) (h : m.FollowedBy s) {txs : List SignedZkSyncTx}
    {results : BatchResults} (hbatch : s.executeTxsBatch env txs = .ok (results, s')) :
    Run NewStep m (updatesOf (succeeded txs results))
        (m.apply (updatesOf (succeeded txs results))) ∧
      (m.apply (updatesOf (succeeded txs results))).FollowedBy s' := by
  cases executeTxsBatch_outcome hbatch with
  | done batch run =>
    rw [succeeded_ok batch]
    exact txRun hz run h
  | undone batch run fails undo =>
    rw [succeeded_error]
    exact ⟨.nil _, h.restores (undo_restores hz run undo) (indexGrows_of_undo run undo)⟩

/-- Hashing changes no account. -/
theorem rootHash (h : m.FollowedBy s) {H : Hasher Fr} {hash : Fr}
    (hroot : s.rootHash H = .ok (hash, s')) : m.FollowedBy s' := by
  refine ⟨?_, h.addresses.grows (indexGrows_rootHash hroot)⟩
  rw [getAccount_of_rootHash hroot]
  exact h.backed

end Ledger.FollowedBy

namespace Awaits

theorem countIteration (h : Awaits m k) : Awaits m k.countIteration := by
  unfold ZkSyncStateKeeper.countIteration
  split
  · exact ⟨h.1, h.2⟩
  · exact h

/-- An operation was pushed. -/
theorem push (h : Awaits m k) {count : Nat} {p : PendingBlock} {next : UInt64}
    (hpush : PushedBy us count k.pendingBlock p)
    (hdone : ∀ m' : Ledger, m'.FollowedBy k.state →
      Run Ledger.NewStep m' us (m'.apply us) ∧ (m'.apply us).FollowedBy s') :
    Awaits m { k with state := s', pendingBlock := p, currentUnprocessedPriorityOp := next } := by
  obtain ⟨hrun, hfollowed⟩ := hdone _ h.followed
  refine ⟨?_, ?_⟩
  · show Run Ledger.NewStep m p.accountUpdates (m.apply p.accountUpdates)
    rw [hpush.updates, apply_append]
    exact h.run.append hrun
  · show (m.apply p.accountUpdates).FollowedBy s'
    rw [hpush.updates, apply_append]
    exact hfollowed

/-- Nothing new is pending. -/
theorem of_nil (hnil : k.pendingBlock.accountUpdates = []) (h : m.FollowedBy k.state) :
    Awaits m k := by
  refine ⟨?_, ?_⟩
  · rw [hnil]
    exact .nil _
  · rw [hnil]
    exact h

/-- A sealed block carries all of its updates, with the fees. -/
theorem sealBlock (hz : env.NoZeroSigner) (h : Awaits m k) {request : BlockCommitRequest}
    {updates : AppliedUpdatesRequest}
    (hseal : k.sealPendingBlock env = .ok ((request, updates), k')) :
    Run Ledger.NewStep m request.accountsUpdated (m.apply request.accountsUpdated) ∧
      Awaits (m.apply request.accountsUpdated) k' := by
  obtain ⟨feeUpdates, paid, hashed, _, _, hs, -, -, rfl⟩ := sealPendingBlock_eq_ok hseal
  obtain ⟨hfees, hpaid⟩ := h.followed.op hz (.collectFee hs.fees)
  rw [hs.accounts, apply_append]
  have hhashed := hpaid.rootHash hs.root
  exact ⟨h.run.append hfees, of_nil rfl ⟨hhashed.backed, hhashed.addresses⟩⟩

/-- Each step of the keeper sends what the mempool has to be told. -/
theorem step (hz : env.NoZeroSigner) (h : Awaits m k) {e : KeeperCall × KeeperReply}
    (hstep : KeeperStep env k e k') :
    Run Ledger.NewStep m e.2.committedUpdates (m.apply e.2.committedUpdates) ∧
      Awaits (m.apply e.2.committedUpdates) k' := by
  obtain ⟨call, reply⟩ := e
  have heff := hstep.effect
  dsimp only at heff ⊢
  have hsilent : ∀ m' : Ledger, m'.FollowedBy k.state →
      Run Ledger.NewStep m' [] (m'.apply []) ∧ (m'.apply []).FollowedBy k.state :=
    fun _ hm => ⟨.nil _, hm⟩
  cases heff with
  | full counted => exact ⟨.nil _, h.push counted.pushedBy hsilent⟩
  | @priorityOp op nonExecutedOp gasCounter success state e p next _ _ _ executed pushed counter =>
    -- what is pushed has to be told, and the request of the seal tells it
    obtain ⟨_, _, -, -, -, rfl⟩ := PendingBlock.pushSuccess_eq_ok.mp pushed
    obtain ⟨hrun, hfollowed⟩ := h.followed.op hz (.priorityOp executed)
    rw [← apply_append] at hfollowed
    refine ⟨.nil _, ⟨?_, hfollowed⟩⟩
    show Run Ledger.NewStep m (k.pendingBlock.accountUpdates ++ success.updates)
      (m.apply (k.pendingBlock.accountUpdates ++ success.updates))
    rw [apply_append]
    exact h.run.append hrun
  | @tx tx chunksNeeded p p' result state e _ _ admitted executed pushed =>
    have hpush := (PendingBlock.counted_admitTx admitted).pushedBy.trans
      (pushedBy_pushTxResult pushed)
    rw [List.nil_append] at hpush
    cases result with
    | ok success =>
      exact ⟨.nil _, h.push hpush fun _ hm => hm.op hz (.tx (executeTx_of_result executed))⟩
    | error error =>
      obtain rfl := state_of_failed executed
      exact ⟨.nil _, h.push hpush hsilent⟩
  | @batch txs batchId chunksNeeded p p' results state ops _ _ admitted executed pushed =>
    have hpush := (PendingBlock.counted_admitBatch admitted).pushedBy.trans
      (pushedBy_pushBatchResults pushed)
    rw [List.nil_append, updatesOf_succeeded] at hpush
    exact ⟨.nil _, h.push hpush fun _ hm => hm.batch hz executed⟩
  | @sealed _ request updates k₁ _ before hseal =>
    have hcommitted : (KeeperReply.sealed request updates).committedUpdates =
        request.accountsUpdated := List.append_nil _
    rw [hcommitted]
    rcases before with ⟨-, rfl⟩ | ⟨-, rfl⟩
    · exact h.sealBlock hz hseal
    · exact h.countIteration.sealBlock hz hseal
  | stored hstore =>
    obtain ⟨-, -, -, rfl⟩ := storePendingBlock_eq_ok hstore
    have hcounted := h.countIteration
    exact ⟨.nil _, ⟨hcounted.run, hcounted.followed⟩⟩

/-- So does a row of calls. -/
theorem calls (hz : env.NoZeroSigner) {tr : List (KeeperCall × KeeperReply)}
    (hrun : Run (KeeperStep env) k tr k') : ∀ {m : Ledger}, Awaits m k →
      Run Ledger.NewStep m ((sentBy tr).flatMap CommitRequest.accountsUpdated)
          (m.apply ((sentBy tr).flatMap CommitRequest.accountsUpdated)) ∧
        Awaits (m.apply ((sentBy tr).flatMap CommitRequest.accountsUpdated)) k' := by
  induction hrun with
  | nil => exact fun h => ⟨.nil _, h⟩
  | @cons k k₁ k' e tr hstep _ ih =>
    intro m h
    obtain ⟨hfirst, h₁⟩ := h.step hz hstep
    obtain ⟨hrest, h'⟩ := ih h₁
    have hsplit : (sentBy (e :: tr)).flatMap CommitRequest.accountsUpdated =
        e.2.committedUpdates ++ (sentBy tr).flatMap CommitRequest.accountsUpdated :=
      List.flatMap_append
    rw [hsplit, apply_append]
    exact ⟨hfirst.append hrest, h'⟩

/-- Operations that are restored send nothing. -/
theorem restore (hz : env.NoZeroSigner) {ops : List ExecutedOperations}
    (hfold : ops.foldlM (ZkSyncStateKeeper.restoreOperation env) k = .ok k') (h : Awaits m k) :
    Awaits m k' := by
  induction ops generalizing k with
  | nil =>
    cases hfold
    exact h
  | cons op ops ih =>
    rw [List.foldlM_cons, Outcome.bind_eq_ok] at hfold
    obtain ⟨k₁, hop, hfold⟩ := hfold
    obtain ⟨e, hstep⟩ := restoreOperation_step hop
    exact ih hfold (h.step hz hstep).2

/-- A restored keeper has told the mempool what was stored. -/
theorem initializeWith (hz : env.NoZeroSigner) {pendingBlock : Option SendablePendingBlock}
    (hinit : k.initializeWith env pendingBlock = .ok k') (h : Awaits m k) : Awaits m k' := by
  cases pendingBlock with
  | none =>
    cases hinit
    exact h
  | some block =>
    obtain ⟨k₁, hfold, rfl⟩ := initializeWith_eq_ok.mp hinit
    have h₁ := h.restore hz hfold
    exact ⟨h₁.run, h₁.followed⟩

end Awaits

end Keeper

/-! ## Lives of the server -/

/-- One life of the server: a keeper is started on the stored accounts, restores the
pending block, if there is one, and answers calls. The committer stores what it is
sent, in order, and tells the mempool; `told` is as far as it has come. -/
inductive Life (env : Env) (accounts : AList fun _ : AccountId => Account) :
    List CommitRequest → Prop
  | served {lastBlockNumber : BlockNumber} {unprocessedPriorityOp : UInt64}
      {feeAccountAddress : Address} {sizes : List Nat} {maxMini fastMini maxWithdrawals : Nat}
      {pendingBlock : Option SendablePendingBlock} {k₀ k₁ k : ZkSyncStateKeeper}
      {tr : List (KeeperCall × KeeperReply)} {told : List CommitRequest}
      (started : ZkSyncStateKeeper.new env (.fromAccMap env.hasher accounts lastBlockNumber
        unprocessedPriorityOp) feeAccountAddress sizes maxMini fastMini maxWithdrawals = .ok k₀)
      (restored : k₀.initializeWith env pendingBlock = .ok k₁)
      (answered : Run (KeeperStep env) k₁ tr k) (told_front : told <+: sentBy tr) :
      Life env accounts told

/-- The accounts after the committed blocks of a life. -/
def committedLedger (accounts : AList fun _ : AccountId => Account) (told : List CommitRequest) :
    Ledger :=
  Ledger.apply (fun id => accounts.lookup id) (told.flatMap CommitRequest.accountsUpdated)

/-- What the lives of a server can commit, from the genesis block on: each starts on
what the one before has committed. -/
inductive Committed (env : Env) : Ledger → Prop
  | genesis (feeAccountAddress : Address) :
      Committed env (Ledger.apply (fun _ => none) [(0, .Create feeAccountAddress 0)])
  | life {accounts : AList fun _ : AccountId => Account} {told : List CommitRequest}
      (before : Committed env fun id => accounts.lookup id) (life : Life env accounts told) :
      Committed env (committedLedger accounts told)

section Lives

variable {env : Env} {accounts : AList fun _ : AccountId => Account} {told : List CommitRequest}

/-- A new keeper has nothing to tell. -/
theorem awaits_new {lastBlockNumber : BlockNumber} {unprocessedPriorityOp : UInt64}
    {feeAccountAddress : Address} {sizes : List Nat} {maxMini fastMini maxWithdrawals : Nat}
    {k : ZkSyncStateKeeper}
    (hnew : ZkSyncStateKeeper.new env (.fromAccMap env.hasher accounts lastBlockNumber
      unprocessedPriorityOp) feeAccountAddress sizes maxMini fastMini maxWithdrawals = .ok k) :
    Awaits (fun id => accounts.lookup id) k := by
  have hget := getAccount_fromAccMap env.hasher accounts lastBlockNumber
  obtain ⟨hstate, hnil, -⟩ := getAccount_new hnew
  obtain ⟨_, _, _, -, ⟨hash, hroot⟩, -⟩ := ZkSyncStateKeeper.new_eq_ok hnew
  refine Awaits.of_nil hnil ⟨fun id a ha => ⟨a, ?_, Account.Equiv.refl a⟩, fun id a ha => ?_⟩
  · rw [hstate]
    exact (hget id).trans ha
  · refine indexGrows_rootHash hroot a.address ?_
    exact located_fromAccMap env.hasher accounts lastBlockNumber id a ((hget id).trans ha) trivial

/-- The committed blocks of a life create accounts at new addresses only. -/
theorem Life.run (hz : env.NoZeroSigner) (h : Life env accounts told) :
    Run Ledger.NewStep (fun id => accounts.lookup id) (told.flatMap CommitRequest.accountsUpdated)
      (committedLedger accounts told) := by
  cases h with
  | served started restored answered told_front =>
    obtain ⟨later, hsent⟩ := told_front
    obtain ⟨hrun, -⟩ := ((awaits_new started).initializeWith hz restored).calls hz answered
    rw [← hsent, List.flatMap_append] at hrun
    obtain ⟨m, htold, -⟩ := hrun.of_append
    rwa [Ledger.apply_of_newRun htold] at htold

/-- Committed accounts have addresses of their own. -/
theorem Committed.distinct (hz : env.NoZeroSigner) {m : Ledger} (h : Committed env m) :
    m.DistinctAddresses := by
  induction h with
  | genesis feeAccountAddress =>
    have hempty : Ledger.DistinctAddresses fun _ => none := fun _ _ _ _ h => by cases h
    have hholds : AccountUpdate.Holds none (.Create feeAccountAddress 0) := rfl
    exact hempty.step (u := (0, .Create feeAccountAddress 0))
      ⟨⟨hholds, rfl⟩, fun _ _ _ _ _ h => by cases h⟩
  | life _ hlife ih => exact ih.run (hlife.run hz)

/-- A mempool that was started with the keeper, and told of the committed blocks,
knows exactly the committed accounts. -/
theorem tracks_after (hz : env.NoZeroSigner) (hbefore : Committed env fun id => accounts.lookup id)
    (hlife : Life env accounts told) :
    (MempoolState.after accounts told).TracksNonces (committedLedger accounts told) := by
  have hafter : MempoolState.after accounts told =
      (MempoolState.restore accounts).updateNonces
        (told.flatMap CommitRequest.accountsUpdated) := by
    unfold MempoolState.after
    generalize MempoolState.restore accounts = mp
    clear hlife
    induction told generalizing mp with
    | nil => rfl
    | cons request told ih =>
      rw [List.foldl_cons, ih]
      cases request with
      | Block request updates => exact List.foldl_append.symm
      | PendingBlock => rfl
  rw [hafter]
  exact (tracksNonces_restore (hbefore.distinct hz)).run (hlife.run hz) (hbefore.distinct hz)

end Lives

/-! ## Admission -/

/-- The committed account whose nonce the handler compares with that of the
transaction: the sender, and the initiator of a forced exit. -/
def ZkSyncTx.ComparedIn (m : Ledger) (a : Account) : ZkSyncTx → Prop
  | .ForcedExit tx => m tx.initiatorAccountId = some a
  | tx => ∃ id, m id = some a ∧ a.address = tx.account

/-- What the mempool should do with a transaction, alone or in a batch: the table has
the nonce that execution compares; a transaction is admitted only if its nonce is
not below that one, and is not turned down, and does not bring its batch down, if
its nonce is that one. -/
structure AdmissionRight (mp : MempoolState) (m : Ledger) (tx : SignedZkSyncTx) : Prop where
  entry : ∀ a, tx.tx.ComparedIn m a → mp.accountNonces.lookup a.address = some a.nonce
  notBelow : ∀ a, tx.tx.ComparedIn m a → ∀ mp', mp.addTx tx = .ok mp' → a.nonce ≤ tx.tx.nonce
  notBelowInBatch : ∀ a, tx.tx.ComparedIn m a → ∀ batch mp', tx ∈ batch.txs →
    mp.addBatch batch = .ok mp' → a.nonce ≤ tx.tx.nonce
  admitted : ∀ a, tx.tx.ComparedIn m a → tx.tx.nonce = a.nonce → ∃ mp', mp.addTx tx = .ok mp'
  admittedInBatch : ∀ a, tx.tx.ComparedIn m a → tx.tx.nonce = a.nonce → ∀ batch,
    batch.batchId ≠ 0 → (∀ tx' ∈ batch.txs, tx' ≠ tx → ∃ mp', mp.addTx tx' = .ok mp') →
    ∃ mp', mp.addBatch batch = .ok mp'

/-- A forced exit whose nonce the target would have sent already and the initiator not,
or the other way round. -/
def ZkSyncTx.Misjudged (m : Ledger) : ZkSyncTx → Prop
  | .ForcedExit tx => ∃ a targetNonce, m tx.initiatorAccountId = some a ∧
      m.NonceAt tx.target targetNonce ∧
      (targetNonce ≤ tx.nonce ∧ tx.nonce < a.nonce ∨ tx.nonce = a.nonce ∧ tx.nonce < targetNonce)
  | _ => False

section Admitted

variable {env : Env} {mp : MempoolState} {m : Ledger} {tx : SignedZkSyncTx}

/-- A transaction is admitted if its nonce is not below the known one. -/
theorem exists_addTx_iff :
    (∃ mp', mp.addTx tx = .ok mp') ↔ mp.nonce tx.tx.account ≤ tx.tx.nonce := by
  by_cases hstale : mp.Stale tx
  · rw [MempoolState.addTx_of_stale hstale]
    exact ⟨fun ⟨_, h⟩ => absurd h Outcome.bail_ne_ok,
      fun h => absurd h (MempoolState.stale_iff.mp hstale)⟩
  · exact ⟨fun _ => not_not.mp fun h => hstale (MempoolState.stale_iff.mpr h),
      fun _ => MempoolState.addTx_of_not_stale hstale⟩

/-- A batch is admitted if it has an id and no nonce is too low. -/
theorem exists_addBatch_iff {batch : SignedTxsBatch} :
    (∃ mp', mp.addBatch batch = .ok mp') ↔
      batch.batchId ≠ 0 ∧ ∀ tx ∈ batch.txs, mp.nonce tx.tx.account ≤ tx.tx.nonce := by
  constructor
  · rintro ⟨mp', h⟩
    simp only [MempoolState.addBatch, Outcome.bind_eq_ok, Outcome.assert_eq_ok,
      Outcome.ensure_eq_ok] at h
    obtain ⟨_, hid, _, hall, -⟩ := h
    exact ⟨hid, hall⟩
  · rintro ⟨hid, hall⟩
    exact MempoolState.addBatch_of_not_stale hid fun tx htx hstale =>
      MempoolState.stale_iff.mp hstale (hall tx htx)

/-- All that matters is the one comparison. -/
theorem admissionRight_iff_compare (h : ∀ a, tx.tx.ComparedIn m a →
      mp.accountNonces.lookup a.address = some a.nonce) :
    AdmissionRight mp m tx ↔ ∀ a, tx.tx.ComparedIn m a →
      (mp.nonce tx.tx.account ≤ tx.tx.nonce → a.nonce ≤ tx.tx.nonce) ∧
        (tx.tx.nonce = a.nonce → mp.nonce tx.tx.account ≤ tx.tx.nonce) := by
  constructor
  · intro hright a ha
    refine ⟨fun hle => ?_, fun heq => exists_addTx_iff.mp (hright.admitted a ha heq)⟩
    obtain ⟨mp', hadd⟩ := exists_addTx_iff.mpr hle
    exact hright.notBelow a ha mp' hadd
  · intro hcompare
    refine ⟨h, fun a ha mp' hadd => ?_, fun a ha batch mp' htx hadd => ?_, fun a ha heq => ?_,
      fun a ha heq batch hid hothers => ?_⟩
    · exact (hcompare a ha).1 (exists_addTx_iff.mp ⟨mp', hadd⟩)
    · exact (hcompare a ha).1 ((exists_addBatch_iff.mp ⟨mp', hadd⟩).2 tx htx)
    · exact exists_addTx_iff.mpr ((hcompare a ha).2 heq)
    · refine exists_addBatch_iff.mpr ⟨hid, fun tx' htx' => ?_⟩
      by_cases hsame : tx' = tx
      · rw [hsame]
        exact (hcompare a ha).2 heq
      · exact exists_addTx_iff.mp (hothers tx' htx' hsame)

/-- The account that is compared has an address, and there the table has its nonce. -/
theorem lookup_of_comparedIn (h : mp.TracksNonces m) {tx : ZkSyncTx} {a : Account}
    (ha : tx.ComparedIn m a) : mp.accountNonces.lookup a.address = some a.nonce := by
  refine (h.nonces a.address a.nonce).mpr ?_
  cases tx with
  | ForcedExit tx => exact ⟨tx.initiatorAccountId, a, ha, rfl, rfl⟩
  | Transfer | Withdraw | Close | ChangePubKey =>
    obtain ⟨id, hid, -⟩ := ha
    exact ⟨id, a, hid, rfl, rfl⟩

/-- The nonce of the account itself decides right. -/
theorem compare_of_own {nonce newNonce : Nonce} (h : nonce = newNonce) (n : Nonce) :
    (nonce ≤ n → newNonce ≤ n) ∧ (n = newNonce → nonce ≤ n) := by
  subst h
  exact ⟨id, fun heq => heq ▸ UInt32.le_refl _⟩

/-- With the right nonces only a forced exit can be misjudged. -/
theorem admissionRight_iff_of_tracks (h : mp.TracksNonces m) :
    AdmissionRight mp m tx ↔ ¬ tx.tx.Misjudged m := by
  rw [admissionRight_iff_compare fun a ha => lookup_of_comparedIn h ha]
  obtain ⟨tx, ethSignData⟩ := tx
  -- The account of all the others is the one that is compared.
  have hown : ∀ (address : Address) (n : Nonce) (a : Account),
      (∃ id, m id = some a ∧ a.address = address) →
      (mp.nonce address ≤ n → a.nonce ≤ n) ∧ (n = a.nonce → mp.nonce address ≤ n) := by
    rintro address n a ⟨id, ha, hadr⟩
    exact compare_of_own (h.nonceAt.mp (Or.inl ⟨id, a, ha, hadr, rfl⟩)) n
  cases tx with
  | Transfer tx => exact ⟨fun _ hm => hm, fun _ a ha => hown tx.fromAddress tx.nonce a ha⟩
  | Withdraw tx => exact ⟨fun _ hm => hm, fun _ a ha => hown tx.fromAddress tx.nonce a ha⟩
  | Close tx => exact ⟨fun _ hm => hm, fun _ a ha => hown tx.account tx.nonce a ha⟩
  | ChangePubKey tx => exact ⟨fun _ hm => hm, fun _ a ha => hown tx.account tx.nonce a ha⟩
  | ForcedExit tx =>
    constructor
    · rintro hcompare ⟨a, targetNonce, ha, htarget, hcases⟩
      obtain rfl := h.nonceAt.mp htarget
      obtain ⟨hbelow, hadmitted⟩ := hcompare a ha
      rcases hcases with ⟨hle, hlt⟩ | ⟨heq, hlt⟩
      · exact UInt32.not_le.mpr hlt (hbelow hle)
      · exact UInt32.not_le.mpr hlt (hadmitted heq)
    · intro hnot a ha
      have htarget : m.NonceAt tx.target (mp.nonce tx.target) := h.nonceAt.mpr rfl
      refine ⟨fun hle => ?_, fun heq => ?_⟩
      · exact UInt32.not_lt.mp fun hlt => hnot ⟨a, _, ha, htarget, Or.inl ⟨hle, hlt⟩⟩
      · exact UInt32.not_lt.mp fun hlt => hnot ⟨a, _, ha, htarget, Or.inr ⟨heq, hlt⟩⟩

/-- In every life of the server, after any of its committed blocks: the mempool treats
a transaction as execution will, unless it is a forced exit about which the nonces
of target and initiator disagree. -/
theorem admissionRight_iff (hz : env.NoZeroSigner)
    {accounts : AList fun _ : AccountId => Account} {told : List CommitRequest}
    (hbefore : Committed env fun id => accounts.lookup id) (hlife : Life env accounts told)
    (tx : SignedZkSyncTx) :
    AdmissionRight (MempoolState.after accounts told) (committedLedger accounts told) tx ↔
      ¬ tx.tx.Misjudged (committedLedger accounts told) :=
  admissionRight_iff_of_tracks (tracks_after hz hbefore hlife)

end Admitted

/-! ## A forced exit that was executed already, to the mempool -/

/-- The fee account of the genesis block sets its key. -/
def keyChangeTx : SignedZkSyncTx :=
  ⟨.ChangePubKey ⟨0, 1, 1, 0, 0, 0, ⟨0, 0⟩, none⟩, none⟩

/-- The fee account forces the exit of an address without an account. Its nonce is
zero, as in the key change. -/
def staleForcedExit : SignedZkSyncTx :=
  ⟨.ForcedExit ⟨0, 7, 0, 0, 0, ⟨0, 0⟩⟩, none⟩

theorem committed_genesisAccounts :
    Committed Env.leafOne fun id => genesisAccounts.lookup id := by
  have hgenesis : (Ledger.apply (fun _ => none) [(0, .Create 1 0)] : Ledger) =
      fun id => genesisAccounts.lookup id := by
    rw [← lookup_applyUpdates_empty]
    exact funext lookup_genesis
  rw [← hgenesis]
  exact .genesis 1

/-- A life in which one block is committed, with the key change. -/
theorem exists_keyChange_life : ∃ told, Life Env.leafOne genesisAccounts told ∧
    told.flatMap CommitRequest.accountsUpdated =
      [(0, .ChangePubKeyHash 0 1 0 1), (0, .UpdateBalance 1 1 (0, 0, 0))] := by
  obtain ⟨k₀, hnew, halike, hhashable⟩ : ∃ k₀,
      ZkSyncStateKeeper.new Env.leafOne genesisParams 1 [6, 30] 10 2 5 = .ok k₀ ∧
      KeeperAlike genesisKeeper k₀ ∧ Hashable Env.leafOne k₀ :=
    Hashable.exists_new _ _ _ (fun _ _ => genesisAccounts_fit)
      ⟨by decide, by decide, rfl, ⟨Account.defaultWithAddress 1, rfl⟩, rfl⟩
  let calls : List KeeperCall := [.tx keyChangeTx]
  -- what the keeper does with the key change, computed
  have hsum : ((genesisKeeper.answers Env.leafOne calls).toOption.map fun r =>
      decide (r.2.pendingBlock.accountUpdates =
        [(0, .ChangePubKeyHash 0 1 0 1), (0, .UpdateBalance 1 1 (0, 0, 0))]) &&
      decide (r.2.pendingBlock.storedAccountUpdates = 0) &&
      decide (r.2.availableBlockChunkSizes = [6, 30]) &&
      decide (smallestBlockSizeForChunks (chunksOf (r.2.pendingBlock.successOperations ++
        r.2.pendingBlock.failedTxs.map ExecutedOperations.Tx)) [6, 30] = .ok 6) &&
      decide ((r.2.state.collectFee r.2.pendingBlock.collectedFees r.2.feeAccountId).toOption.map
        Prod.fst = some [])) = some true := by
    decide +kernel
  obtain ⟨⟨tr, k₁⟩, hsome, hsum⟩ := Option.map_eq_some_iff.mp hsum
  simp only [Bool.and_eq_true, decide_eq_true_eq] at hsum
  obtain ⟨⟨⟨⟨hupdates, hstored⟩, hsizes⟩, hsize⟩, hfees⟩ := hsum
  obtain ⟨⟨us, paid₁⟩, hpaid₁, rfl⟩ := Option.map_eq_some_iff.mp hfees
  have hentries : ∀ call ∈ calls, call.IsEntry := fun call hcall => by
    rw [List.mem_singleton.mp hcall]
    exact trivial
  obtain ⟨k, paid, hanswers, hk, -, hpaid, -, request, updates, k', hseal⟩ :=
    exists_sealed halike hhashable rfl hentries
      (fun call hcall => by
        rw [List.mem_singleton.mp hcall]
        show (0 : TokenId).toNat < 2 ^ balanceTreeDepth
        decide)
      (Outcome.toOption_eq_some.mp hsome)
      (Outcome.toOption_eq_some.mp hpaid₁) (by rw [hsizes]; rfl) (by rw [hsizes]; exact hsize)
      (by rw [hstored]; exact Nat.zero_le _)
  have hpending : k.pendingBlock = k₁.pendingBlock := by rw [show k = _ from hk.rest]
  obtain ⟨hrun, -⟩ := answers_run hanswers
  have hsent : sentBy (tr ++ [(.sealBlock, .sealed request updates)]) = [.Block request updates] :=
    sentBy_seal hentries hanswers
  have hrestored : k₀.initializeWith Env.leafOne none = .ok k₀ := rfl
  refine ⟨[.Block request updates], .served hnew hrestored
    (hrun.append (Run.single (sealStep hseal))) (by rw [hsent]), ?_⟩
  obtain ⟨feeUpdates, paid', hashed, _, _, hs, -⟩ := sealPendingBlock_eq_ok hseal
  have hfee : feeUpdates = [] := by
    have h := hs.fees
    rw [hpaid] at h
    cases h
    rfl
  rw [List.flatMap_singleton]
  show request.accountsUpdated = _
  rw [hs.accounts, hfee, hpending, hupdates]
  rfl

/-- After that block there is one account, with the nonce one. -/
theorem committedLedger_keyChange {told : List CommitRequest}
    (htold : told.flatMap CommitRequest.accountsUpdated =
      [(0, .ChangePubKeyHash 0 1 0 1), (0, .UpdateBalance 1 1 (0, 0, 0))]) :
    (∃ a, committedLedger genesisAccounts told 0 = some a ∧ a.nonce = 1) ∧
      ∀ id a, committedLedger genesisAccounts told id = some a → a.address = 1 := by
  unfold committedLedger
  rw [htold]
  refine ⟨⟨_, rfl, rfl⟩, fun id a ha => ?_⟩
  by_cases hid : id = 0
  · subst hid
    cases ha
    rfl
  · have hnone : genesisAccounts.lookup id = none :=
      AList.lookup_eq_none.mpr fun hmem => hid (List.mem_singleton.mp hmem)
    rw [← List.singleton_append, apply_append, Ledger.apply_single, Ledger.apply_single,
      Function.update_of_ne hid, Function.update_of_ne hid, hnone] at ha
    cases ha

/-- The initiator has the nonce one, the target has none: the mempool admits the
forced exit with the nonce zero. -/
theorem admits_dead_forcedExit : ∃ told,
    (Committed Env.leafOne fun id => genesisAccounts.lookup id) ∧
      Life Env.leafOne genesisAccounts told ∧
      (∃ mp', (MempoolState.after genesisAccounts told).addTx staleForcedExit = .ok mp') ∧
      ¬ AdmissionRight (MempoolState.after genesisAccounts told)
        (committedLedger genesisAccounts told) staleForcedExit := by
  obtain ⟨told, hlife, htold⟩ := exists_keyChange_life
  obtain ⟨⟨a, ha, hnonce⟩, haddress⟩ := committedLedger_keyChange htold
  have htracks := tracks_after noZeroSigner_leafOne committed_genesisAccounts hlife
  have htarget : (committedLedger genesisAccounts told).NonceAt 7 0 :=
    Or.inr ⟨fun id b hb hadr => absurd ((haddress id b hb).symm.trans hadr) (by decide), rfl⟩
  refine ⟨told, committed_genesisAccounts, hlife, ?_, fun hright => ?_⟩
  · refine exists_addTx_iff.mpr ?_
    show (MempoolState.after genesisAccounts told).nonce 7 ≤ 0
    rw [htracks.nonceAt.mp htarget]
    decide
  · refine (admissionRight_iff_of_tracks htracks).mp hright ⟨a, 0, ha, htarget, Or.inl ⟨?_, ?_⟩⟩
    · exact UInt32.le_refl _
    · show (0 : Nonce) < a.nonce
      rw [hnonce]
      decide

/-- The key change itself, sent once more, is turned down as it should be. -/
theorem admissionRight_keyChange : ∃ told, Life Env.leafOne genesisAccounts told ∧
    AdmissionRight (MempoolState.after genesisAccounts told)
      (committedLedger genesisAccounts told) keyChangeTx := by
  obtain ⟨told, hlife, -⟩ := exists_keyChange_life
  exact ⟨told, hlife,
    (admissionRight_iff noZeroSigner_leafOne committed_genesisAccounts hlife keyChangeTx).mpr id⟩

end ZkSync
