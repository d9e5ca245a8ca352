import ZkSync.Crypto.SmtRuns
import ZkSync.State.Emitted
import ZkSync.State.RootHash

/-!
# The stored accounts and the running state

The server stores the updates it emits, and the stored updates make an account
map. `Mirrors m s` says what the map `m` and the running state `s` have in
common: every stored account is in the state, up to explicit zeros; what the
state has besides is a default account that a rolled-back creation left, and no
address leads to it. Such an account hashes like a missing one, so the map and
the state have the same root hash (`Mirrors.root`).

An emitted update has to land on a stored account, or create one. For
transactions it always does: they find their accounts through the index, or by
a signature that a default account has not. A full exit names an account by its
id alone; `OwnedExit` asks that the index knows the account it finds.

An undone batch is followed update by update: `undo_mirrors` goes back along
the run of the ledger, in the map and in the state at once.
-/

namespace ZkSync

open Ledger

/-! ## Accounts -/

namespace Account

/-- `a'` is `a` up to explicit zeros, and stores every balance that `a` stores. -/
structure Covers (a' a : Account) : Prop where
  equiv : a'.Equiv a
  tokens : ∀ token, token ∈ a.balances → token ∈ a'.balances

theorem Covers.refl (a : Account) : a.Covers a := ⟨Equiv.refl a, fun _ h => h⟩

theorem Covers.trans {a b c : Account} (h : a.Covers b) (h' : b.Covers c) : a.Covers c :=
  ⟨h.equiv.trans h'.equiv, fun token ht => h.tokens token (h'.tokens token ht)⟩

/-- An account that covers one fits only if that one does. -/
theorem Covers.fits {a' a : Account} (h : a'.Covers a) (hfits : a'.Fits) : a.Fits :=
  fun token ht => hfits token (h.tokens token ht)

/-- A balance that is set has an entry. -/
theorem mem_setBalance {a : Account} {token token' : TokenId} {amount : Nat} :
    token' ∈ (a.setBalance token amount).balances ↔ token' = token ∨ token' ∈ a.balances :=
  Finmap.mem_insert

/-- The same balance and nonce written to both. -/
theorem Covers.setBalance {a' a : Account} (h : a'.Covers a) (token : TokenId) (amount : Nat)
    (nonce : Nonce) : Covers { a'.setBalance token amount with nonce := nonce }
      { a.setBalance token amount with nonce := nonce } where
  equiv := by
    refine ⟨h.equiv.pubKeyHash, h.equiv.address, rfl, fun token' => ?_⟩
    refine (getBalance_setBalance a' token token' amount).trans ?_
    rw [h.equiv.balance]
    exact (getBalance_setBalance a token token' amount).symm
  tokens token' ht := by
    rcases mem_setBalance.mp ht with rfl | ht
    · exact mem_setBalance.mpr (Or.inl rfl)
    · exact mem_setBalance.mpr (Or.inr (h.tokens token' ht))

/-- The same key and nonce written to both. -/
theorem Covers.setPubKeyHash {a' a : Account} (h : a'.Covers a) (pubKeyHash : PubKeyHash)
    (nonce : Nonce) : Covers { a' with pubKeyHash := pubKeyHash, nonce := nonce }
      { a with pubKeyHash := pubKeyHash, nonce := nonce } :=
  ⟨⟨rfl, h.equiv.address, rfl, h.equiv.balance⟩, h.tokens⟩

end Account

/-! ## The relation -/

/-- The map `m` is what the state `s` stores. -/
structure Mirrors (m : Ledger) (s : ZkSyncState) : Prop where
  stored : ∀ id a, m id = some a → ∃ a', s.getAccount id = some a' ∧ a'.Covers a
  absent : ∀ id a', m id = none → s.getAccount id = some a' → a'.Equiv Account.default
  index : ∀ address id, s.accountIdByAddress.lookup address = some id →
    ∃ a, m id = some a ∧ a.address = address
  hidden : ∀ id, m id = none → (s.getAccount id).isSome →
    0 < id.toNat ∧ id.toNat < s.balanceTree.tree.items.size

section Relation

variable {m n : Ledger} {s s' : ZkSyncState}

/-- The state mirrors itself. -/
theorem mirrors_self (h : Indexed s) : Mirrors s.getAccount s where
  stored _ a ha := ⟨a, ha, Account.Covers.refl a⟩
  absent _ _ hn ha := by
    rw [hn] at ha
    cases ha
  index := h
  hidden _ hn ha := by
    rw [hn] at ha
    cases ha

/-- What the index leads to is stored. -/
theorem Mirrors.indexed (h : Mirrors m s) {address : Address} {id : AccountId}
    (hidx : s.accountIdByAddress.lookup address = some id) : (m id).isSome := by
  obtain ⟨a, ha, -⟩ := h.index address id hidx
  rw [ha]
  rfl

/-- The number of items never shrinks. -/
theorem size_le_insertAccount (s : ZkSyncState) (id : AccountId) (account : Account) :
    s.balanceTree.tree.items.size ≤ (s.insertAccount id account).balanceTree.tree.items.size := by
  cases ha : s.getAccount id with
  | none =>
    rw [s.size_insertAccount_of_none id account ha]
    omega
  | some a => rw [s.size_insertAccount_of_some id account ha]

/-- An account written in both. -/
theorem Mirrors.insertAccount (h : Mirrors m s) {id : AccountId} {b b' : Account}
    (hb : b'.Covers b) (haddr : ∀ a, m id = some a → a.address = b.address) :
    Mirrors (Function.update m id (some b)) (s.insertAccount id b') where
  stored id' a ha := by
    rw [ZkSyncState.getAccount_insertAccount]
    rw [Function.update_apply] at ha ⊢
    split at ha
    next he =>
      rw [if_pos he]
      exact ⟨b', rfl, by rw [← Option.some.inj ha]; exact hb⟩
    next he =>
      rw [if_neg he]
      exact h.stored id' a ha
  absent id' a' hn ha := by
    rw [Function.update_apply] at hn
    split at hn
    next => cases hn
    next he =>
      rw [ZkSyncState.getAccount_insertAccount_of_ne _ _ _ he] at ha
      exact h.absent id' a' hn ha
  index address id' hl := by
    rw [ZkSyncState.lookup_insertAccount] at hl
    rw [Function.update_apply]
    split at hl
    next hadr =>
      rw [if_pos (Option.some.inj hl).symm]
      exact ⟨b, rfl, by rw [hadr, hb.equiv.address]⟩
    next =>
      obtain ⟨a, ha, hadr⟩ := h.index address id' hl
      split
      next he =>
        rw [he] at ha
        exact ⟨b, rfl, by rw [← haddr a ha, hadr]⟩
      next => exact ⟨a, ha, hadr⟩
  hidden id' hn ha := by
    rw [Function.update_apply] at hn
    split at hn
    next => cases hn
    next he =>
      rw [ZkSyncState.getAccount_insertAccount_of_ne _ _ _ he] at ha
      obtain ⟨h0, hlt⟩ := h.hidden id' hn ha
      exact ⟨h0, Nat.lt_of_lt_of_le hlt (size_le_insertAccount s id b')⟩

/-- An account of the map removed from the state. -/
theorem Mirrors.removeAccount (h : Mirrors m s) {id : AccountId} {a : Account}
    (ha : m id = some a) (hpos : 0 < id.toNat) (hlt : id.toNat < s.balanceTree.tree.items.size) :
    Mirrors (Function.update m id none) (s.removeAccount id) := by
  obtain ⟨a', ha', hcov⟩ := h.stored id a ha
  have hsize : (s.removeAccount id).balanceTree.tree.items.size = s.balanceTree.tree.items.size := by
    unfold ZkSyncState.removeAccount
    rw [ha']
    exact s.size_insertAccount_of_some id Account.default ha'
  refine ⟨fun id' b hb => ?_, fun id' b hn hb => ?_, fun address id' hl => ?_, fun id' hn hb => ?_⟩
  · rw [Function.update_apply] at hb
    split at hb
    next => cases hb
    next he =>
      rw [getAccount_removeAccount ha', Function.update_of_ne he]
      exact h.stored id' b hb
  · rw [getAccount_removeAccount ha', Function.update_apply] at hb
    rw [Function.update_apply] at hn
    split at hb
    next => rw [← Option.some.inj hb]; exact Account.Equiv.refl _
    next he =>
      rw [if_neg he] at hn
      exact h.absent id' b hn hb
  · rw [lookup_removeAccount ha'] at hl
    split at hl
    next => cases hl
    next hne =>
      obtain ⟨b, hb, hadr⟩ := h.index address id' hl
      rw [Function.update_apply]
      split
      next he =>
        -- the removed account lived at the erased address
        rw [he, ha] at hb
        exact absurd (by rw [← hadr, ← Option.some.inj hb, hcov.equiv.address]) hne
      next => exact ⟨b, hb, hadr⟩
  · rw [hsize]
    rw [Function.update_apply] at hn
    split at hn
    next he =>
      rw [he]
      exact ⟨hpos, hlt⟩
    next he =>
      rw [getAccount_removeAccount ha', Function.update_of_ne he] at hb
      exact h.hidden id' hn hb

/-- Hashing changes no account. -/
theorem Mirrors.rootHash {H : Hasher Fr} {hash : Fr} (h : Mirrors m s)
    (heq : s.rootHash H = .ok (hash, s')) : Mirrors m s' := by
  have hget := getAccount_of_rootHash heq
  have hsize : s'.balanceTree.tree.items = s.balanceTree.tree.items := by
    rw [SparseMerkleTree.rootHash_frame (rootHash_eq_ok heq)]
  refine ⟨by rw [hget]; exact h.stored, by rw [hget]; exact h.absent, ?_, ?_⟩
  · rw [index_of_rootHash heq]
    exact h.index
  · rw [hget, hsize]
    exact h.hidden

end Relation

/-! ## Updates in the map and in the state -/

namespace Ledger

/-- `Mirrors`, as far as the accounts go. -/
structure Shadows (m cur : Ledger) : Prop where
  stored : ∀ id a, m id = some a → ∃ a', cur id = some a' ∧ a'.Covers a
  absent : ∀ id a', m id = none → cur id = some a' → a'.Equiv Account.default

/-- Every update is about an account that is stored, or about a vacant id. -/
def Lands (m cur : Ledger) (us : AccountUpdates) : Prop :=
  ∀ u ∈ us, (m u.1).isSome ∨ cur u.1 = none

variable {m cur cur' : Ledger}

theorem apply_cons (m : Ledger) (u : AccountId × AccountUpdate) (us : AccountUpdates) :
    m.apply (u :: us) = (m.apply [u]).apply us := rfl

theorem apply_single (m : Ledger) (u : AccountId × AccountUpdate) :
    m.apply [u] = Function.update m u.1 (Account.applyUpdate (m u.1) u.2) := rfl

/-- A fitting update of the state fits the map as well, and does the same. -/
theorem Shadows.step (h : Shadows m cur) {u : AccountId × AccountUpdate} (hstep : Step cur u cur')
    (hland : (m u.1).isSome ∨ cur u.1 = none) :
    Step m u (m.apply [u]) ∧ (m.apply [u] u.1).isSome ∧ Shadows (m.apply [u]) cur' := by
  obtain ⟨id, update⟩ := u
  obtain ⟨hfits, rfl⟩ := hstep
  dsimp only at hfits hland ⊢
  -- the update fits in both, since they agree on what it describes
  have hboth : ∃ b b', update.Fits (m id) ∧ Account.applyUpdate (m id) update = some b ∧
      Account.applyUpdate (cur id) update = some b' ∧ b'.Covers b := by
    rcases hland with hm | hnone
    · obtain ⟨a, ha⟩ := Option.isSome_iff_exists.mp hm
      obtain ⟨a', ha', hcov⟩ := h.stored id a ha
      rw [ha'] at hfits ⊢
      rw [ha]
      cases update with
      | Create address nonce => cases hfits
      | Delete address nonce => exact hfits.elim
      | UpdateBalance oldNonce newNonce upd =>
        obtain ⟨token, oldBalance, newBalance⟩ := upd
        obtain ⟨c, hc, hbal, hnon⟩ := hfits
        obtain rfl := Option.some.inj hc
        exact ⟨_, _, ⟨a, rfl, by rw [← hcov.equiv.balance]; exact hbal,
          by rw [← hcov.equiv.nonce]; exact hnon⟩, rfl, rfl, hcov.setBalance _ _ _⟩
      | ChangePubKeyHash oldPubKeyHash newPubKeyHash oldNonce newNonce =>
        obtain ⟨c, hc, hpk, hnon⟩ := hfits
        obtain rfl := Option.some.inj hc
        exact ⟨_, _, ⟨a, rfl, by rw [← hcov.equiv.pubKeyHash]; exact hpk,
          by rw [← hcov.equiv.nonce]; exact hnon⟩, rfl, rfl, hcov.setPubKeyHash _ _⟩
    · have hm : m id = none := by
        by_contra hne
        obtain ⟨a, ha⟩ := Option.ne_none_iff_exists'.mp hne
        obtain ⟨a', ha', -⟩ := h.stored id a ha
        rw [hnone] at ha'
        cases ha'
      rw [hnone] at hfits ⊢
      rw [hm]
      cases update with
      | Create address nonce => exact ⟨_, _, hfits, rfl, rfl, Account.Covers.refl _⟩
      | Delete address nonce => exact hfits.elim
      | UpdateBalance oldNonce newNonce upd =>
        obtain ⟨c, hc, -⟩ := hfits
        cases hc
      | ChangePubKeyHash oldPubKeyHash newPubKeyHash oldNonce newNonce =>
        obtain ⟨c, hc, -⟩ := hfits
        cases hc
  obtain ⟨b, b', hfitsm, hb, hb', hcov⟩ := hboth
  rw [apply_single]
  dsimp only
  rw [hb, hb']
  refine ⟨⟨hfitsm, by dsimp only; rw [hb]⟩, by rw [Function.update_self]; rfl, ⟨?_, ?_⟩⟩
  · intro id' a ha
    rw [Function.update_apply] at ha ⊢
    split at ha
    next he =>
      rw [if_pos he, ← Option.some.inj ha]
      exact ⟨b', rfl, hcov⟩
    next he =>
      rw [if_neg he]
      exact h.stored id' a ha
  · intro id' a' hn ha
    rw [Function.update_apply] at hn ha
    split at hn
    next => cases hn
    next he =>
      rw [if_neg he] at ha
      exact h.absent id' a' hn ha

/-- A run of the state whose updates land is a run of the map. Exactly the ids
of the updates are stored afterwards that were not before. -/
theorem Shadows.run {us : AccountUpdates} (hrun : Run Step cur us cur') :
    ∀ {m : Ledger}, Shadows m cur → Lands m cur us →
      Run Step m us (m.apply us) ∧ Shadows (m.apply us) cur' ∧
      (∀ id, (m.apply us id).isSome ↔ (m id).isSome ∨ id ∈ us.map Prod.fst) ∧
      ∀ id, id ∉ us.map Prod.fst → cur' id = cur id := by
  induction hrun with
  | nil => exact fun h _ => ⟨.nil _, h, fun id => by simp [apply], fun id _ => rfl⟩
  | @cons cur cur₁ cur' u us hstep hrest ih =>
    intro m h hlands
    obtain ⟨hm, hsome, h₁⟩ := h.step hstep (hlands u List.mem_cons_self)
    have hoff : ∀ id, id ≠ u.1 → m.apply [u] id = m id ∧ cur₁ id = cur id := by
      intro id hne
      obtain ⟨-, rfl⟩ := hstep
      rw [apply_single, Function.update_of_ne hne, Function.update_of_ne hne]
      exact ⟨rfl, rfl⟩
    obtain ⟨hrun', h', hids, hframe⟩ := ih h₁ fun v hv => by
      by_cases hvu : v.1 = u.1
      · exact Or.inl (by rw [hvu]; exact hsome)
      · rw [(hoff v.1 hvu).1, (hoff v.1 hvu).2]
        exact hlands v (List.mem_cons_of_mem _ hv)
    refine ⟨.cons hm hrun', h', fun id => ?_, fun id hnot => ?_⟩
    · rw [apply_cons, hids, List.map_cons, List.mem_cons]
      by_cases hid : id = u.1
      · rw [hid]
        exact ⟨fun _ => Or.inr (Or.inl rfl), fun _ => Or.inl hsome⟩
      · rw [(hoff id hid).1]
        exact ⟨fun h => h.elim Or.inl fun h => Or.inr (Or.inr h),
          fun h => h.elim Or.inl fun h => h.elim (fun he => absurd he hid) Or.inr⟩
    · rw [List.map_cons, List.mem_cons, not_or] at hnot
      rw [hframe id hnot.2, (hoff id hnot.1).2]

/-- A run keeps every account. -/
theorem isSome_of_run {m m' : Ledger} {us : AccountUpdates} (h : Run Step m us m')
    {id : AccountId} (hid : (m id).isSome) : (m' id).isSome := by
  refine Run.invariant (I := fun m : Ledger => (m id).isSome) (fun m u m' hm hstep => ?_) h hid
  obtain ⟨hfits, rfl⟩ := hstep
  rw [Function.update_apply]
  split
  next he =>
    subst he
    obtain ⟨a, ha⟩ := Option.isSome_iff_exists.mp hm
    obtain ⟨id, update⟩ := u
    dsimp only at ha hfits ⊢
    rw [ha] at hfits ⊢
    cases update with
    | Delete address nonce => exact hfits.elim
    | _ => rfl
  next => exact hm

end Ledger

section Effects

variable {env : Env} {m : Ledger} {s s' : ZkSyncState}

/-- A mirror is a shadow. -/
theorem Mirrors.shadows (h : Mirrors m s) : Shadows m s.getAccount := ⟨h.stored, h.absent⟩

/-- What an operation did to the state, it did to the map, if its updates land
and the index leads to no account it did not write. -/
theorem Mirrors.run (h : Mirrors m s) {us : AccountUpdates}
    (hrun : Run Ledger.Step s.getAccount us s'.getAccount) (hlands : Lands m s.getAccount us)
    (hindexed : Indexed s')
    (hwrote : ∀ address id, s'.accountIdByAddress.lookup address = some id →
      (m id).isSome ∨ id ∈ us.map Prod.fst)
    (hsize : s.balanceTree.tree.items.size ≤ s'.balanceTree.tree.items.size) :
    Mirrors (m.apply us) s' ∧ Run Ledger.Step m us (m.apply us) := by
  obtain ⟨hrunm, hsh, hids, hframe⟩ := Shadows.run hrun h.shadows hlands
  refine ⟨⟨hsh.stored, hsh.absent, fun address id hl => ?_, fun id hn hs => ?_⟩, hrunm⟩
  · have hsome : (m.apply us id).isSome := by
      rw [hids]
      exact hwrote address id hl
    obtain ⟨a, ha⟩ := Option.isSome_iff_exists.mp hsome
    obtain ⟨a', ha', hcov⟩ := hsh.stored id a ha
    obtain ⟨b, hb, hadr⟩ := hindexed address id hl
    rw [ha'] at hb
    exact ⟨a, ha, by rw [← hadr, ← Option.some.inj hb, hcov.equiv.address]⟩
  · have hnot : ¬ ((m id).isSome ∨ id ∈ us.map Prod.fst) := by
      rw [← hids, hn]
      exact Bool.false_ne_true
    rw [not_or] at hnot
    rw [hframe id hnot.2] at hs
    obtain ⟨h0, hlt⟩ := h.hidden id (by simpa using hnot.1) hs
    exact ⟨h0, Nat.lt_of_lt_of_le hlt hsize⟩

/-- An id that the index leads to, or that is vacant, is one to land on. -/
theorem Mirrors.lands_index (h : Mirrors m s) {address : Address} {id : AccountId}
    (hidx : s.accountIdByAddress.lookup address = some id) :
    (m id).isSome ∨ s.getAccount id = none :=
  Or.inl (h.indexed hidx)

/-- An account with a key is no default account. -/
theorem Mirrors.lands_key (h : Mirrors m s) {id : AccountId} {a : Account}
    (ha : s.getAccount id = some a) (hkey : a.pubKeyHash ≠ 0) :
    (m id).isSome ∨ s.getAccount id = none := by
  refine Or.inl (Option.isSome_iff_ne_none.mpr fun hn => hkey ?_)
  exact (h.absent id a hn ha).pubKeyHash

/-- The transactions that succeed land on stored accounts. -/
theorem TxEffect.lands {tx : ZkSyncTx} {r : OpSuccess} (hz : env.NoZeroSigner)
    (h : TxEffect env s tx r s') (hm : Mirrors m s) : Lands m s.getAccount r.updates := by
  intro u hu
  cases h with
  | transfer sender _ target =>
    simp only [List.mem_cons, List.not_mem_nil, or_false] at hu
    rcases hu with rfl | rfl
    · exact hm.lands_index sender.index
    · exact hm.lands_index target
  | transferToSelf sender =>
    rw [List.mem_singleton.mp hu]
    exact hm.lands_index sender.index
  | transferToNew sender _ _ free =>
    simp only [List.mem_cons, List.not_mem_nil, or_false] at hu
    rcases hu with rfl | rfl | rfl
    · exact Or.inr free
    · exact hm.lands_index sender.index
    · exact Or.inr free
  | withdraw sender =>
    rw [List.mem_singleton.mp hu]
    exact hm.lands_index sender.index
  | changePubKey index =>
    simp only [List.mem_cons, List.not_mem_nil, or_false] at hu
    rcases hu with rfl | rfl <;> exact hm.lands_index index
  | forcedExit account signed _ target =>
    simp only [List.mem_cons, List.not_mem_nil, or_false] at hu
    rcases hu with rfl | rfl
    · exact hm.lands_key account fun hkey => hz _ (hkey ▸ signed)
    · exact hm.lands_index target

/-- A write puts its own id into the index and no other. -/
theorem lookup_insertAccount_cases {id id' : AccountId} {a : Account} {address : Address}
    (h : (s.insertAccount id a).accountIdByAddress.lookup address = some id') :
    id' = id ∨ s.accountIdByAddress.lookup address = some id' := by
  rw [ZkSyncState.lookup_insertAccount] at h
  split at h
  next => exact Or.inl (Option.some.inj h).symm
  next => exact Or.inr h

/-- A transaction puts only ids into the index that it reports. -/
theorem TxEffect.wrote {tx : ZkSyncTx} {r : OpSuccess} (h : TxEffect env s tx r s')
    (address : Address) (id : AccountId) (hl : s'.accountIdByAddress.lookup address = some id) :
    s.accountIdByAddress.lookup address = some id ∨ id ∈ r.updates.map Prod.fst := by
  cases h with
  | transfer =>
    rcases lookup_insertAccount_cases hl with rfl | hl
    · simp
    · rcases lookup_insertAccount_cases hl with rfl | hl
      · simp
      · exact Or.inl hl
  | transferToSelf =>
    rcases lookup_insertAccount_cases hl with rfl | hl
    · simp
    · exact Or.inl hl
  | transferToNew =>
    rcases lookup_insertAccount_cases hl with rfl | hl
    · simp
    · rcases lookup_insertAccount_cases hl with rfl | hl
      · simp
      · exact Or.inl hl
  | withdraw =>
    rcases lookup_insertAccount_cases hl with rfl | hl
    · simp
    · exact Or.inl hl
  | changePubKey =>
    rcases lookup_insertAccount_cases hl with rfl | hl
    · simp
    · exact Or.inl hl
  | forcedExit =>
    rcases lookup_insertAccount_cases hl with rfl | hl
    · simp
    · rcases lookup_insertAccount_cases hl with rfl | hl
      · simp
      · exact Or.inl hl

/-- Transactions remove no leaf. -/
theorem TxEffect.size_le {tx : ZkSyncTx} {r : OpSuccess} (h : TxEffect env s tx r s') :
    s.balanceTree.tree.items.size ≤ s'.balanceTree.tree.items.size := by
  have htwo : ∀ (i j : AccountId) (a b : Account), s.balanceTree.tree.items.size ≤
      ((s.insertAccount i a).insertAccount j b).balanceTree.tree.items.size := fun i j a b =>
    Nat.le_trans (size_le_insertAccount s i a) (size_le_insertAccount _ j b)
  cases h with
  | transfer => exact htwo _ _ _ _
  | transferToSelf => exact size_le_insertAccount _ _ _
  | transferToNew => exact htwo _ _ _ _
  | withdraw => exact size_le_insertAccount _ _ _
  | changePubKey => exact size_le_insertAccount _ _ _
  | forcedExit => exact htwo _ _ _ _

/-- A successful transaction, in the map and in the state. -/
theorem TxEffect.mirrors {tx : ZkSyncTx} {r : OpSuccess} (hz : env.NoZeroSigner)
    (h : TxEffect env s tx r s') (hm : Mirrors m s) (hi : Indexed s) :
    Mirrors (m.apply r.updates) s' ∧ Run Ledger.Step m r.updates (m.apply r.updates) :=
  hm.run (h.run hz) (h.lands hz hm) ((h.writes (H := env.hasher)).indexed hi)
    (fun address id hl => (h.wrote address id hl).imp_left hm.indexed) h.size_le

/-! ## Priority operations and fees -/

/-- A full exit of the zero address names the account that the index knows: the
accounts that a rolled-back creation left have this address and are not in the
index. -/
def OwnedExit (s : ZkSyncState) : ZkSyncPriorityOp → Prop
  | .Deposit _ => True
  | .FullExit op => op.ethAddress = 0 → ∀ a, s.getAccount op.accountId = some a →
      a.address = 0 → s.accountIdByAddress.lookup 0 = some op.accountId

/-- There are no more leaves than ids. -/
theorem size_items_le (t : AccountTree) : t.tree.items.size ≤ 2 ^ 32 := by
  have hsub : t.tree.items.keys ⊆ Finset.range (2 ^ 32) := fun i hi =>
    Finset.mem_range.mpr (t.lt_of_mem_items (Finmap.mem_keys.mp hi))
  have hcard := Finset.card_le_card hsub
  rw [Finset.card_range] at hcard
  exact hcard

/-- The free id is never an account that the map does not have. -/
theorem Mirrors.free_isSome (h : Mirrors m s)
    (hs : (s.getAccount s.getFreeAccountId).isSome) : (m s.getFreeAccountId).isSome := by
  by_contra hn
  obtain ⟨h0, hlt⟩ := h.hidden _ (by simpa using hn) hs
  unfold ZkSyncState.getFreeAccountId at h0 hlt
  rw [UInt32.toNat_ofNat'] at h0 hlt
  by_cases hsize : s.balanceTree.tree.items.size < 2 ^ 32
  · rw [Nat.mod_eq_of_lt hsize] at hlt
    exact absurd hlt (Nat.lt_irrefl _)
  · have hle := size_items_le s.balanceTree
    have heq : s.balanceTree.tree.items.size = 2 ^ 32 := Nat.le_antisymm hle (Nat.le_of_not_lt hsize)
    rw [heq, Nat.mod_self] at h0
    exact absurd h0 (Nat.lt_irrefl _)

/-- The updates land on the accounts that they describe. -/
theorem PriorityEffect.lands {op : ZkSyncPriorityOp} {r : OpSuccess} (h : PriorityEffect s op r s')
    (hm : Mirrors m s) (howned : OwnedExit s op) : Lands m s.getAccount r.updates := by
  intro u hu
  cases h with
  | deposit _ target account =>
    rw [List.mem_singleton.mp hu]
    rcases target with hidx | ⟨-, rfl⟩
    · exact hm.lands_index hidx
    · exact Or.inl (hm.free_isSome (by rw [account]; rfl))
  | depositToNew _ _ free =>
    simp only [List.mem_cons, List.not_mem_nil, or_false] at hu
    rcases hu with rfl | rfl <;> exact Or.inr free
  | @fullExit op a _ account owner =>
    rw [List.mem_singleton.mp hu]
    by_cases hadr : a.address = 0
    · exact hm.lands_index (howned (owner ▸ hadr) a account hadr)
    · refine Or.inl (Option.isSome_iff_ne_none.mpr fun hn => hadr ?_)
      exact (hm.absent _ a hn account).address
  | fullExitRefused => cases hu

/-- Who is in the index was there before, or was written. -/
theorem PriorityEffect.wrote {op : ZkSyncPriorityOp} {r : OpSuccess} (h : PriorityEffect s op r s')
    (address : Address) (id : AccountId) (hl : s'.accountIdByAddress.lookup address = some id) :
    s.accountIdByAddress.lookup address = some id ∨ id ∈ r.updates.map Prod.fst := by
  cases h with
  | deposit =>
    rcases lookup_insertAccount_cases hl with rfl | hl
    · simp
    · exact Or.inl hl
  | depositToNew =>
    rcases lookup_insertAccount_cases hl with rfl | hl
    · simp
    · exact Or.inl hl
  | fullExit =>
    rcases lookup_insertAccount_cases hl with rfl | hl
    · simp
    · exact Or.inl hl
  | fullExitRefused => exact Or.inl hl

/-- Priority operations remove no leaf, either. -/
theorem PriorityEffect.size_le {op : ZkSyncPriorityOp} {r : OpSuccess}
    (h : PriorityEffect s op r s') :
    s.balanceTree.tree.items.size ≤ s'.balanceTree.tree.items.size := by
  cases h with
  | deposit => exact size_le_insertAccount _ _ _
  | depositToNew => exact size_le_insertAccount _ _ _
  | fullExit => exact size_le_insertAccount _ _ _
  | fullExitRefused => exact Nat.le_refl _

/-- What is stored follows a priority operation. -/
theorem PriorityEffect.mirrors {op : ZkSyncPriorityOp} {r : OpSuccess}
    (h : PriorityEffect s op r s') (hm : Mirrors m s) (hi : Indexed s) (howned : OwnedExit s op) :
    Mirrors (m.apply r.updates) s' ∧ Run Ledger.Step m r.updates (m.apply r.updates) :=
  hm.run h.run (h.lands hm howned)
    ((h.writes (H := ⟨fun _ => 0, fun _ => 0, fun _ _ _ => 0⟩)).indexed hi)
    (fun address id hl => (h.wrote address id hl).imp_left hm.indexed) h.size_le

/-- Fees change the fee account only. -/
theorem collectFeeLoop_ids (id : AccountId) (fees : List CollectedFee) (a : Account)
    (us : AccountUpdates) :
    ∀ u ∈ (ZkSyncState.collectFeeLoop id fees a us).2, u ∈ us ∨ u.1 = id := by
  induction fees generalizing a us with
  | nil => exact fun u hu => Or.inl hu
  | cons fee fees ih =>
    unfold ZkSyncState.collectFeeLoop
    split
    next => exact ih a us
    next =>
      intro u hu
      rcases ih _ _ u hu with hu | hu
      · rcases List.mem_append.mp hu with hu | hu
        · exact Or.inl hu
        · exact Or.inr (by rw [List.mem_singleton.mp hu])
      · exact Or.inr hu

/-- Fees are reported at the fee account. -/
theorem collectFee_ids {fees : List CollectedFee} {feeAccount : AccountId} {us : AccountUpdates}
    (h : s.collectFee fees feeAccount = .ok (us, s')) : ∀ u ∈ us, u.1 = feeAccount := by
  unfold ZkSyncState.collectFee at h
  rw [Outcome.bind_eq_ok] at h
  obtain ⟨a, -, h⟩ := h
  cases h
  exact fun u hu => (collectFeeLoop_ids feeAccount fees a [] u hu).resolve_left List.not_mem_nil

/-- The fees go to an account of the map. -/
theorem mirrors_collectFee {fees : List CollectedFee} {feeAccount : AccountId}
    {us : AccountUpdates} (h : s.collectFee fees feeAccount = .ok (us, s')) (hm : Mirrors m s)
    (hi : Indexed s) (hfee : (m feeAccount).isSome) :
    Mirrors (m.apply us) s' ∧ Run Ledger.Step m us (m.apply us) := by
  have hids := collectFee_ids h
  obtain ⟨a, a', ha, hc, rfl, -, hrun⟩ := collectFee_effect h
  refine hm.run hrun (fun u hu => Or.inl (by rw [hids u hu]; exact hfee))
    (indexed_insertAccount hi fun b hb => ?_) (fun address id hl => ?_) (size_le_insertAccount _ _ _)
  · rw [ha] at hb
    rw [← Option.some.inj hb, hc.address]
  · rcases lookup_insertAccount_cases hl with rfl | hl
    · exact Or.inl hfee
    · exact Or.inl (hm.indexed hl)

end Effects

/-! ## Undone batches -/

namespace Ledger

/-- Two maps with the same ids, and accounts of the first that cover those of the second. -/
def Covers (n m : Ledger) : Prop := ∀ id, Option.Rel Account.Covers (n id) (m id)

variable {m m' n' : Ledger}

theorem Covers.refl (m : Ledger) : Covers m m := by
  intro id
  cases m id with
  | none => exact .none
  | some a => exact .some (Account.Covers.refl a)

/-- Back over one update: `n` is the map with the account at the id as it is then. -/
theorem Covers.back {id : AccountId} {o o' : Option Account}
    (h : Covers n' (Function.update m id o')) (ho : Option.Rel Account.Covers o (m id)) :
    Covers (Function.update n' id o) m := by
  intro id'
  rw [Function.update_apply]
  split
  next he =>
    rw [he]
    exact ho
  next he =>
    have := h id'
    rwa [Function.update_of_ne he] at this

end Ledger

section Undo

variable {env : Env} {m m' n n' : Ledger} {s s' s₁ : ZkSyncState}

/-- Entries of the balance zero do not matter. -/
theorem Mirrors.of_covers (h : Mirrors n s) (hcov : Ledger.Covers n m) : Mirrors m s where
  stored id a ha := by
    obtain ⟨b, hb, hba⟩ := rel_some (hcov id) ha
    obtain ⟨a', ha', hab⟩ := h.stored id b hb
    exact ⟨a', ha', hab.trans hba⟩
  absent id a' hn := h.absent id a' (rel_none (hcov id) hn)
  index address id hl := by
    obtain ⟨b, hb, hadr⟩ := h.index address id hl
    cases hm : m id with
    | none =>
      rw [rel_none (hcov id) hm] at hb
      cases hb
    | some a =>
      obtain ⟨b', hb', hba⟩ := rel_some (hcov id) hm
      rw [hb] at hb'
      obtain rfl := Option.some.inj hb'
      exact ⟨a, rfl, by rw [← hadr, hba.equiv.address]⟩
  hidden id hn := h.hidden id (rel_none (hcov id) hn)

/-- The ids that a list creates lie between `0` and `size`. -/
def CreatesBelow (us : AccountUpdates) (size : Nat) : Prop :=
  ∀ u ∈ us, ∀ address nonce, u.2 = .Create address nonce → 0 < u.1.toNat ∧ u.1.toNat < size

/-- Undoing one update, in the map and in the state. -/
theorem undoStep_mirrors {id : AccountId} {update : AccountUpdate}
    (hstep : Ledger.Step m (id, update) m') (hn : Mirrors n' s₁) (hcov : Ledger.Covers n' m')
    (hbelow : CreatesBelow [(id, update)] s₁.balanceTree.tree.items.size)
    (h : s₁.applyAccountUpdate id update.reversedUpdate = .ok s') :
    (∃ n, Mirrors n s' ∧ Ledger.Covers n m) ∧
      s₁.balanceTree.tree.items.size ≤ s'.balanceTree.tree.items.size := by
  obtain ⟨hfits, rfl⟩ := hstep
  dsimp only at hfits hcov
  have hat : ∀ b, Account.applyUpdate (m id) update = some b →
      ∃ c c', n' id = some c ∧ c.Covers b ∧ s₁.getAccount id = some c' ∧ c'.Covers c := by
    intro b hb
    obtain ⟨c, hc, hcb⟩ := rel_some (hcov id) (by rw [Function.update_self, hb])
    obtain ⟨c', hc', hcc⟩ := hn.stored id c hc
    exact ⟨c, c', hc, hcb, hc', hcc⟩
  cases update with
  | Create address nonce =>
    -- the account goes, and its address with it
    have hnone : m id = none := hfits
    rw [hnone] at hat
    obtain ⟨c, c', hc, -, hc', -⟩ := hat _ rfl
    obtain ⟨hpos, hlt⟩ := hbelow _ List.mem_cons_self address nonce rfl
    simp only [AccountUpdate.reversedUpdate, ZkSyncState.applyAccountUpdate,
      Outcome.bind_eq_ok] at h
    obtain ⟨_, -, _, -, _, -, h⟩ := h
    cases h
    refine ⟨⟨_, hn.removeAccount hc hpos hlt, hcov.back (by rw [hnone]; exact .none)⟩, ?_⟩
    unfold ZkSyncState.removeAccount
    rw [hc']
    exact size_le_insertAccount s₁ id Account.default
  | Delete address nonce => exact hfits.elim
  | UpdateBalance oldNonce newNonce upd =>
    -- the old balance is written back, which may leave an entry of zero
    obtain ⟨token, oldBalance, newBalance⟩ := upd
    obtain ⟨a, ha, hbal, hnon⟩ := hfits
    rw [ha] at hat
    obtain ⟨c, c', hc, hcb, hc', hcc⟩ := hat _ rfl
    simp only [AccountUpdate.reversedUpdate, ZkSyncState.applyAccountUpdate, Outcome.bind_eq_ok,
      Outcome.expect_eq_ok, Outcome.assert_eq_ok] at h
    obtain ⟨d, hd, _, -, _, -, h⟩ := h
    rw [hc'] at hd
    obtain rfl := Option.some.inj hd
    cases h
    have hback : Account.Covers { c.setBalance token oldBalance with nonce := oldNonce } a := by
      refine ⟨⟨hcb.equiv.pubKeyHash, hcb.equiv.address, hnon.symm, fun token' => ?_⟩,
        fun token' ht => ?_⟩
      · refine (Account.getBalance_setBalance c token token' oldBalance).trans ?_
        split
        next he => rw [he, hbal]
        next he =>
          rw [hcb.equiv.balance]
          exact (Account.getBalance_setBalance a token token' newBalance).trans (if_neg he)
      · exact Account.mem_setBalance.mpr
          (Or.inr (hcb.tokens token' (Account.mem_setBalance.mpr (Or.inr ht))))
    refine ⟨⟨_, hn.insertAccount (hcc.setBalance token oldBalance oldNonce) fun d hd => ?_,
      hcov.back (by rw [ha]; exact .some hback)⟩, size_le_insertAccount _ _ _⟩
    rw [hc] at hd
    rw [← Option.some.inj hd]
    rfl
  | ChangePubKeyHash oldPubKeyHash newPubKeyHash oldNonce newNonce =>
    obtain ⟨a, ha, hpk, hnon⟩ := hfits
    rw [ha] at hat
    obtain ⟨c, c', hc, hcb, hc', hcc⟩ := hat _ rfl
    simp only [AccountUpdate.reversedUpdate, ZkSyncState.applyAccountUpdate, Outcome.bind_eq_ok,
      Outcome.expect_eq_ok, Outcome.assert_eq_ok] at h
    obtain ⟨d, hd, _, -, _, -, h⟩ := h
    rw [hc'] at hd
    obtain rfl := Option.some.inj hd
    cases h
    have hback : Account.Covers { c with pubKeyHash := oldPubKeyHash, nonce := oldNonce } a :=
      ⟨⟨hpk.symm, hcb.equiv.address, hnon.symm, hcb.equiv.balance⟩, hcb.tokens⟩
    refine ⟨⟨_, hn.insertAccount (hcc.setPubKeyHash oldPubKeyHash oldNonce) fun d hd => ?_,
      hcov.back (by rw [ha]; exact .some hback)⟩, size_le_insertAccount _ _ _⟩
    rw [hc] at hd
    rw [← Option.some.inj hd]

/-- Undoing a run, in the map and in the state. The induction is on the run: the
updates after the first are undone before it. -/
theorem undo_mirrors {us : AccountUpdates} (hrun : Run Ledger.Step m us m') :
    ∀ {n' : Ledger} {s' : ZkSyncState}, Mirrors n' s₁ → Ledger.Covers n' m' →
      CreatesBelow us s₁.balanceTree.tree.items.size →
      s₁.applyAccountUpdates (reverseUpdates us) = .ok s' →
      (∃ n, Mirrors n s' ∧ Ledger.Covers n m) ∧
        s₁.balanceTree.tree.items.size ≤ s'.balanceTree.tree.items.size := by
  induction hrun with
  | nil m =>
    intro n' s' hn hcov _ h
    cases h
    exact ⟨⟨n', hn, hcov⟩, Nat.le_refl _⟩
  | @cons m m₁ m' u us hstep _ ih =>
    intro n' s' hn hcov hbelow h
    rw [← List.singleton_append, reverseUpdates_append, ZkSyncState.applyAccountUpdates_append,
      Outcome.bind_eq_ok] at h
    obtain ⟨s₂, h₂, h⟩ := h
    obtain ⟨⟨n₁, hn₁, hcov₁⟩, hsize⟩ := ih hn hcov
      (fun v hv => hbelow v (List.mem_cons_of_mem _ hv)) h₂
    have happly : s₂.applyAccountUpdate u.1 u.2.reversedUpdate = .ok s' := by
      obtain ⟨s₃, h₃, hnil⟩ := Outcome.bind_eq_ok.mp h
      cases hnil
      exact h₃
    obtain ⟨hback, hsize'⟩ := undoStep_mirrors hstep hn₁ hcov₁
      (fun v hv address nonce he => by
        obtain ⟨h0, hlt⟩ := hbelow v (List.mem_singleton.mp hv ▸ List.mem_cons_self) address nonce he
        exact ⟨h0, Nat.lt_of_lt_of_le hlt hsize⟩) happly
    exact ⟨hback, Nat.le_trans hsize hsize'⟩

/-- Updates that create nothing create nothing too high. -/
theorem createsBelow_of_noCreate {us : AccountUpdates} (h : NoCreate us) (size : Nat) :
    CreatesBelow us size :=
  fun u hu address nonce he => absurd he (h u hu address nonce)

/-- A vacant id exists only while there are fewer items than ids. -/
theorem toNat_free_of_vacant (h : s.getAccount s.getFreeAccountId = none) :
    s.getFreeAccountId.toNat = s.balanceTree.tree.items.size := by
  refine UInt32.toNat_ofNat_of_lt' (Nat.lt_of_le_of_ne (size_items_le s.balanceTree) fun heq => ?_)
  have hall : s.balanceTree.tree.items.keys = Finset.range (2 ^ 32) := by
    refine Finset.eq_of_subset_of_card_le (fun i hi =>
      Finset.mem_range.mpr (s.balanceTree.lt_of_mem_items (Finmap.mem_keys.mp hi))) ?_
    rw [Finset.card_range]
    exact Nat.le_of_eq heq.symm
  have hmem : s.getFreeAccountId.toNat ∈ s.balanceTree.tree.items := by
    rw [← Finmap.mem_keys, hall]
    exact Finset.mem_range.mpr (UInt32.toNat_lt _)
  have hsome := ((AccountTree.mem_items _ _).mp hmem).2
  rw [UInt32.ofNat_toNat] at hsome
  unfold ZkSyncState.getAccount at h
  rw [h] at hsome
  cases hsome

theorem size_pos {id : AccountId} {a : Account} (h : s.getAccount id = some a) :
    0 < s.balanceTree.tree.items.size := by
  refine Finset.card_pos.mpr ⟨id.toNat, ?_⟩
  rw [Finmap.mem_keys]
  exact Finmap.mem_of_lookup_eq_some h

/-- A transaction creates at the free id. -/
theorem TxEffect.createsBelow {tx : ZkSyncTx} {r : OpSuccess} (h : TxEffect env s tx r s') :
    CreatesBelow r.updates s'.balanceTree.tree.items.size := by
  cases h with
  | transfer =>
    exact createsBelow_of_noCreate
      (noCreate_updateBalance (noCreate_updateBalance noCreate_nil)) _
  | transferToSelf => exact createsBelow_of_noCreate (noCreate_updateBalance noCreate_nil) _
  | @transferToNew tx a sender _ _ free =>
    intro u hu address nonce he
    have ne : s.getFreeAccountId ≠ tx.accountId := by
      intro h
      rw [h, sender.account] at free
      cases free
    have hsize := ZkSyncState.size_insertAccount_of_none
      (s.insertAccount tx.accountId (a.debit tx.token (tx.amount + tx.fee))) s.getFreeAccountId
      ((Account.defaultWithAddress tx.toAddress).addBalance tx.token tx.amount)
      (by rw [s.getAccount_insertAccount_of_ne _ _ ne, free])
    rw [hsize, ZkSyncState.size_insertAccount_of_some _ _ _ sender.account]
    simp only [List.mem_cons, List.not_mem_nil, or_false] at hu
    rcases hu with rfl | rfl | rfl
    · rw [toNat_free_of_vacant free]
      exact ⟨size_pos sender.account, Nat.lt_succ_self _⟩
    · cases he
    · cases he
  | withdraw => exact createsBelow_of_noCreate (noCreate_updateBalance noCreate_nil) _
  | changePubKey =>
    exact createsBelow_of_noCreate
      (noCreate_cons (fun _ _ h => by cases h) (noCreate_updateBalance noCreate_nil)) _
  | forcedExit =>
    exact createsBelow_of_noCreate
      (noCreate_updateBalance (noCreate_updateBalance noCreate_nil)) _

/-- What a run of transactions did, in the map and in the state. -/
structure TxRunMirrors (m : Ledger) (us : AccountUpdates) (s' : ZkSyncState) : Prop where
  mirrors : Mirrors (m.apply us) s'
  run : Run Ledger.Step m us (m.apply us)
  below : CreatesBelow us s'.balanceTree.tree.items.size

/-- What is stored follows a row of transactions. -/
theorem txRun_mirrors (hz : env.NoZeroSigner) {es : List Executed}
    (h : Run (TxStep env) s es s') : ∀ {m : Ledger}, Mirrors m s → Indexed s →
    TxRunMirrors m (updatesOf es) s' ∧
      s.balanceTree.tree.items.size ≤ s'.balanceTree.tree.items.size := by
  induction h with
  | nil s =>
    exact fun hm _ => ⟨⟨hm, .nil _, fun u hu => absurd hu List.not_mem_nil⟩, Nat.le_refl _⟩
  | @cons s s₁ s' e es hstep _ ih =>
    intro m hm hi
    have heff := executeTx_effect hstep
    obtain ⟨hm₁, hrun₁⟩ := heff.mirrors hz hm hi
    obtain ⟨hrest, hsize⟩ := ih hm₁ ((heff.writes (H := env.hasher)).indexed hi)
    have hsplit : updatesOf (e :: es) = e.2.updates ++ updatesOf es := List.flatMap_cons
    have happly : m.apply (updatesOf (e :: es)) = (m.apply e.2.updates).apply (updatesOf es) := by
      rw [hsplit]
      exact List.foldl_append
    refine ⟨⟨by rw [happly]; exact hrest.mirrors, ?_, ?_⟩, Nat.le_trans heff.size_le hsize⟩
    · rw [happly, hsplit]
      exact hrun₁.append hrest.run
    · rw [hsplit]
      intro u hu address nonce he
      rcases List.mem_append.mp hu with hu | hu
      · obtain ⟨h0, hlt⟩ := heff.createsBelow u hu address nonce he
        exact ⟨h0, Nat.lt_of_lt_of_le hlt hsize⟩
      · exact hrest.below u hu address nonce he

/-- A batch stores the updates of its transactions, or nothing. -/
theorem mirrors_batch (hz : env.NoZeroSigner) {txs : List SignedZkSyncTx} {results : BatchResults}
    (h : s.executeTxsBatch env txs = .ok (results, s')) (hm : Mirrors m s) (hi : Indexed s) :
    Mirrors (m.apply (updatesOf (succeeded txs results))) s' ∧
      Run Ledger.Step m (updatesOf (succeeded txs results))
        (m.apply (updatesOf (succeeded txs results))) := by
  cases executeTxsBatch_outcome h with
  | done batch run =>
    rw [succeeded_ok batch]
    have hrun := (txRun_mirrors hz run hm hi).1
    exact ⟨hrun.mirrors, hrun.run⟩
  | undone batch run fails undo =>
    rw [succeeded_error]
    have hrun := (txRun_mirrors hz run hm hi).1
    obtain ⟨⟨n, hn, hcov⟩, -⟩ := undo_mirrors hrun.run hrun.mirrors (Ledger.Covers.refl _)
      hrun.below undo
    exact ⟨hn.of_covers hcov, .nil m⟩

end Undo

/-! ## The root of the stored accounts -/

/-- The root hash of an account map. -/
def Ledger.root (H : Hasher Fr) (m : Ledger) : Outcome Fr :=
  treeHash (accountParams H) (fun i => (m (UInt32.ofNat i)).getD Account.default)
    accountTreeDepth 0

section Root

variable {H : Hasher Fr} {m : Ledger} {s : ZkSyncState}

/-- The map has the root hash of the state. -/
theorem Mirrors.root (h : Mirrors m s) (hs : Hashed H s) {hash : Fr} (heq : s.root H = .ok hash) :
    m.root H = .ok hash := by
  have hfits : ∀ id a, s.getAccount id = some a → a.Fits := by
    rcases rootHash_cases hs with ⟨-, hall⟩ | ⟨herr, -⟩
    · exact hall
    · rw [heq] at herr
      cases herr
  rw [← heq]
  unfold ZkSyncState.root Ledger.root
  rw [rootHash_eq_fullRoot hs, SparseMerkleTree.fullRoot_eq_treeHash fun i => rfl]
  refine treeHash_bits accountTreeDepth 0 fun i hi => ?_
  have hlt : i < 2 ^ 32 := by
    unfold accountTreeDepth at hi
    omega
  rw [AccountTree.lookup_items, if_pos hlt]
  show Account.getBitsLe H _ = Account.getBitsLe H _
  have hdefault : Account.default.Fits := fun token ht => absurd ht Finmap.notMem_empty
  cases hm : m (UInt32.ofNat i) with
  | some a =>
    obtain ⟨a', ha', hcov⟩ := h.stored _ a hm
    unfold ZkSyncState.getAccount at ha'
    rw [ha']
    have hfit' := hfits _ a' ha'
    exact (Account.getBitsLe_congr H hcov.equiv ⟨fun _ => hcov.fits hfit', fun _ => hfit'⟩).symm
  | none =>
    cases ha : s.balanceTree.get (UInt32.ofNat i) with
    | none => rfl
    | some a' =>
      have hfit' := hfits _ a' ha
      exact (Account.getBitsLe_congr H (h.absent _ a' hm ha)
        ⟨fun _ => hdefault, fun _ => hfit'⟩).symm

end Root

end ZkSync
