import Mathlib.Algebra.BigOperators.Group.Finset.Piecewise
import Mathlib.Tactic.Abel
import ZkSync.Lib.Run
import ZkSync.State.Effects

/-!
# The ledger: what account updates mean

The abstract layer over the state machine. A `Ledger` says which account
stands at which id, and nothing about trees, indices or hashes. An update is a
step of the ledger when it *fits*: the old values it carries are those of the
account it changes. A list of fitting updates is a run of such steps, so what
a list does is one induction away from what an update does:

* `total_run` — a run moves the sum of all balances of a token by the sum of
  the differences its updates carry;
* `Restores` and `run_undo` — going back. The updates of a run, reversed, assert
  what holds from the last to the first, and lead back to the ledger before — up
  to explicit zero balances, and up to a default account where there was none.
  This holds of every interpreter of updates (`Interprets`).

No operation deletes an account (closing is disabled), so a `Delete` fits
nowhere; it appears in reversed lists only, as the reverse of a `Create`.
-/

namespace ZkSync

/-- The account at each id. -/
abbrev Ledger := AccountId → Option Account

namespace AccountUpdate

/-- What an update says about the account it changes. -/
def Asserts (a : Account) : AccountUpdate → Prop
  | Create _ _ => False
  | Delete address nonce => a.address = address ∧ a.nonce = nonce
  | UpdateBalance oldNonce _ (token, oldBalance, _) =>
    a.getBalance token = oldBalance ∧ a.nonce = oldNonce
  | ChangePubKeyHash oldPubKeyHash _ oldNonce _ =>
    a.pubKeyHash = oldPubKeyHash ∧ a.nonce = oldNonce

/-- The update describes a change of the account at its id. -/
def Fits (o : Option Account) : AccountUpdate → Prop
  | Create _ _ => o = none
  | Delete _ _ => False
  | update => ∃ a, o = some a ∧ update.Asserts a

/-- How an update moves the balance of a token. -/
def delta (token : TokenId) : AccountUpdate → Int
  | UpdateBalance _ _ (token', oldBalance, newBalance) =>
    if token' = token then (newBalance : Int) - oldBalance else 0
  | _ => 0

end AccountUpdate

namespace Ledger

/-- One fitting update. -/
def Step (m : Ledger) (u : AccountId × AccountUpdate) (m' : Ledger) : Prop :=
  u.2.Fits (m u.1) ∧ m' = Function.update m u.1 (Account.applyUpdate (m u.1) u.2)

/-- The fold of `Account::apply_update` over the ledger. -/
def apply (m : Ledger) (updates : AccountUpdates) : Ledger :=
  updates.foldl (fun m u => Function.update m u.1 (Account.applyUpdate (m u.1) u.2)) m

theorem apply_of_run {m m' : Ledger} {us : AccountUpdates} (h : Run Step m us m') :
    m.apply us = m' := by
  induction h with
  | nil => rfl
  | cons hstep _ ih =>
    obtain ⟨-, rfl⟩ := hstep
    exact ih

/-- `helpers::apply_updates` is the fold over the lookups of the account map. -/
theorem lookup_applyUpdates (accounts : AccountMap) (us : AccountUpdates) :
    (fun id => (applyUpdates accounts us).lookup id) = apply (fun id => accounts.lookup id) us := by
  unfold applyUpdates apply
  induction us generalizing accounts with
  | nil => rfl
  | cons u us ih =>
    rw [List.foldl_cons, List.foldl_cons, ih]
    congr 1
    funext id
    obtain ⟨id', update⟩ := u
    dsimp only
    rw [Function.update_apply]
    cases Account.applyUpdate (accounts.lookup id') update with
    | none => exact Finmap.lookup_erase_if _ _ _
    | some a =>
      dsimp only
      rw [Finmap.insert_erase, Finmap.lookup_insert_if]

/-! ## Sums of balances -/

/-- The balance of a token at an id, zero where no account is. -/
def balanceOf (o : Option Account) (token : TokenId) : Nat := o.elim 0 (·.getBalance token)

/-- The sum of all balances of a token. -/
@[irreducible] def total (m : Ledger) (token : TokenId) : Int := ∑ id, (balanceOf (m id) token : Int)

/-- Writing one account trades its balance. -/
theorem total_update (m : Ledger) (id : AccountId) (o : Option Account) (token : TokenId) :
    total (Function.update m id o) token =
      total m token - balanceOf (m id) token + balanceOf o token := by
  unfold total
  rw [← Finset.add_sum_erase _ _ (Finset.mem_univ id),
    ← Finset.add_sum_erase _ (fun id => (balanceOf (m id) token : Int)) (Finset.mem_univ id),
    Function.update_self]
  have hrest : ∑ x ∈ Finset.univ.erase id,
      (balanceOf (Function.update m id o x) token : Int) =
      ∑ x ∈ Finset.univ.erase id, (balanceOf (m x) token : Int) :=
    Finset.sum_congr rfl fun x hx => by
      rw [Function.update_of_ne (Finset.ne_of_mem_erase hx)]
  rw [hrest]
  abel

theorem total_congr {m m' : Ledger} {token : TokenId}
    (h : ∀ id, balanceOf (m id) token = balanceOf (m' id) token) :
    total m token = total m' token := by
  unfold total
  exact Finset.sum_congr rfl fun id _ => by rw [h]

/-- A fitting update moves the total by what it says. -/
theorem total_step {m m' : Ledger} {u : AccountId × AccountUpdate} (h : Step m u m')
    (token : TokenId) : total m' token = total m token + u.2.delta token := by
  obtain ⟨id, update⟩ := u
  obtain ⟨hfits, rfl⟩ := h
  rw [total_update]
  dsimp only at hfits ⊢
  cases update with
  | Create address nonce =>
    have hnone : m id = none := hfits
    rw [hnone]
    simp [balanceOf, Account.applyUpdate, AccountUpdate.delta, Account.getBalance, Account.default]
  | Delete address nonce => exact hfits.elim
  | UpdateBalance oldNonce newNonce upd =>
    obtain ⟨token', oldBalance, newBalance⟩ := upd
    obtain ⟨a, ha, hold, -⟩ := hfits
    rw [ha]
    have hnew : balanceOf (Account.applyUpdate (some a)
        (.UpdateBalance oldNonce newNonce (token', oldBalance, newBalance))) token =
        if token = token' then newBalance else a.getBalance token :=
      Account.getBalance_setBalance a token' token newBalance
    rw [hnew]
    simp only [balanceOf, Option.elim_some, AccountUpdate.delta]
    by_cases ht : token = token'
    · subst ht
      rw [if_pos rfl, if_pos rfl, hold]
      abel
    · rw [if_neg ht, if_neg (fun h => ht h.symm)]
      abel
  | ChangePubKeyHash oldPubKeyHash newPubKeyHash oldNonce newNonce =>
    obtain ⟨a, ha, -⟩ := hfits
    rw [ha]
    simp [balanceOf, Account.applyUpdate, AccountUpdate.delta]

/-- A run moves the total by what its updates say. -/
theorem total_run {m m' : Ledger} {us : AccountUpdates} (h : Run Step m us m')
    (token : TokenId) : total m' token = total m token + (us.map (·.2.delta token)).sum :=
  Run.sum (fun m => total m token) (fun u => u.2.delta token)
    (fun _ _ _ hs => total_step hs token) h

/-! ## Going back -/

/-- `cur` is `m` up to explicit zero balances, and up to a default account
where `m` has none. -/
def Restores (cur m : Ledger) : Prop :=
  ∀ id, match m id with
    | some a => ∃ a', cur id = some a' ∧ a'.Equiv a
    | none => cur id = none ∨ cur id = some Account.default

theorem Restores.account {cur m : Ledger} (h : Restores cur m) {id : AccountId} {a : Account}
    (ha : m id = some a) : ∃ a', cur id = some a' ∧ a'.Equiv a := by
  have := h id
  rwa [ha] at this

theorem Restores.vacant {cur m : Ledger} (h : Restores cur m) {id : AccountId}
    (ha : m id = none) : cur id = none ∨ cur id = some Account.default := by
  have := h id
  rwa [ha] at this

theorem restores_refl (m : Ledger) : Restores m m := by
  intro id
  cases m id with
  | none => exact Or.inl rfl
  | some a => exact ⟨a, rfl, Account.Equiv.refl a⟩

/-- Both sides of `Restores` hold the same money. -/
theorem Restores.balanceOf_eq {cur m : Ledger} (h : Restores cur m) (id : AccountId)
    (token : TokenId) : balanceOf (cur id) token = balanceOf (m id) token := by
  cases hm : m id with
  | none =>
    rcases h.vacant hm with hc | hc <;> simp [hc, balanceOf]
  | some a =>
    obtain ⟨a', hc, he⟩ := h.account hm
    rw [hc]
    exact he.balance token

theorem Restores.total_eq {cur m : Ledger} (h : Restores cur m) (token : TokenId) :
    total cur token = total m token :=
  total_congr fun id => h.balanceOf_eq id token

/-- What undoing an update leaves at its id: where the source deletes an
account, its tree keeps a default one. -/
def Undone (a : Account) (update : AccountUpdate) (o : Option Account) : Prop :=
  o = Account.applyUpdate (some a) update ∨
    (Account.applyUpdate (some a) update = none ∧ o = some Account.default)

/-- A fitting update can be undone: its reverse asserts what holds, and leads
back. -/
theorem Step.undo {m m' cur : Ledger} {id : AccountId} {update : AccountUpdate}
    (h : Step m (id, update) m') (hr : Restores cur m') :
    ∃ a, cur id = some a ∧ update.reversedUpdate.Asserts a ∧
      ∀ o, Undone a update.reversedUpdate o → Restores (Function.update cur id o) m := by
  obtain ⟨hfits, rfl⟩ := h
  dsimp only at hfits hr
  -- elsewhere nothing has changed
  have hoff : ∀ o, (match m id with
      | some a => ∃ a', o = some a' ∧ a'.Equiv a
      | none => o = none ∨ o = some Account.default) →
      Restores (Function.update cur id o) m := by
    intro o ho id'
    by_cases hid : id' = id
    · subst hid
      rw [Function.update_self]
      exact ho
    · have := hr id'
      rw [Function.update_of_ne hid] at this
      rw [Function.update_of_ne hid]
      exact this
  have hat : ∀ a₀, Account.applyUpdate (m id) update = some a₀ →
      ∃ a', cur id = some a' ∧ a'.Equiv a₀ := by
    intro a₀ ha₀
    refine hr.account ?_
    rw [Function.update_self, ha₀]
  cases update with
  | Create address nonce =>
    have hnone : m id = none := hfits
    rw [hnone] at hat hoff
    obtain ⟨a, ha, he⟩ := hat _ rfl
    refine ⟨a, ha, ⟨he.address, he.nonce⟩, fun o ho => hoff o ?_⟩
    rcases ho with rfl | ⟨-, rfl⟩
    · exact Or.inl rfl
    · exact Or.inr rfl
  | Delete address nonce => exact hfits.elim
  | UpdateBalance oldNonce newNonce upd =>
    -- the amounts are exchanged, and so are the nonces
    obtain ⟨token, oldBalance, newBalance⟩ := upd
    obtain ⟨a₀, ha₀, hbal, hnon⟩ := hfits
    rw [ha₀] at hat hoff
    obtain ⟨a, ha, he⟩ := hat _ rfl
    have hbal' : a.getBalance token = newBalance := by
      rw [he.balance]
      exact Account.getBalance_setBalance_self a₀ token newBalance
    refine ⟨a, ha, ⟨hbal', he.nonce⟩, fun o ho => hoff o ?_⟩
    rcases ho with rfl | ⟨hn, -⟩
    · refine ⟨_, rfl, ⟨he.pubKeyHash, he.address, hnon.symm, fun token' => ?_⟩⟩
      refine (Account.getBalance_setBalance a token token' oldBalance).trans ?_
      split
      next ht => rw [ht, hbal]
      next ht =>
        rw [he.balance]
        exact (Account.getBalance_setBalance a₀ token token' newBalance).trans (if_neg ht)
    · cases hn
  | ChangePubKeyHash oldPubKeyHash newPubKeyHash oldNonce newNonce =>
    obtain ⟨a₀, ha₀, hpk, hnon⟩ := hfits
    rw [ha₀] at hat hoff
    obtain ⟨a, ha, he⟩ := hat _ rfl
    refine ⟨a, ha, ⟨he.pubKeyHash, he.nonce⟩, fun o ho => hoff o ?_⟩
    rcases ho with rfl | ⟨hn, -⟩
    · exact ⟨_, rfl, ⟨hpk.symm, he.address, hnon.symm, he.balance⟩⟩
    · cases hn

/-- An interpreter of updates, seen through the ledger it shows: where an update
asserts what holds, it takes a step, and leaves the account `Undone`. -/
def Interprets {σ : Type*} (R : σ → AccountId × AccountUpdate → σ → Prop) (view : σ → Ledger) :
    Prop :=
  ∀ s id update a, view s id = some a → AccountUpdate.Asserts a update →
    ∃ s' o, R s (id, update) s' ∧ Undone a update o ∧ view s' = Function.update (view s) id o

/-- Any interpreter undoes a run: the reversed updates, last first, all assert
what holds, and lead back. -/
theorem run_undo {σ : Type*} {R : σ → AccountId × AccountUpdate → σ → Prop} {view : σ → Ledger}
    (hR : Interprets R view) {m m' : Ledger} {us : AccountUpdates} (h : Run Step m us m') :
    ∀ s, Restores (view s) m' → ∃ s', Run R s (reverseUpdates us) s' ∧ Restores (view s') m := by
  induction h with
  | nil m => exact fun s hs => ⟨s, .nil s, hs⟩
  | @cons m m₁ m' u us hstep _ ih =>
    intro s hs
    obtain ⟨s₁, hrun, hs₁⟩ := ih s hs
    obtain ⟨id, update⟩ := u
    obtain ⟨a, ha, hasserts, hback⟩ := hstep.undo hs₁
    obtain ⟨s₂, o, hr, ho, hview⟩ := hR s₁ id update.reversedUpdate a ha hasserts
    refine ⟨s₂, ?_, ?_⟩
    · rw [← List.singleton_append, reverseUpdates_append]
      exact hrun.append (Run.single hr)
    · rw [hview]
      exact hback o ho

/-- The fold of `Account::apply_update` interprets updates. -/
theorem interprets_apply : Interprets (fun m u m' => m.apply [u] = m') id :=
  fun m _ update a ha _ => ⟨_, Account.applyUpdate (some a) update,
    by rw [← ha]; rfl, Or.inl rfl, rfl⟩

theorem apply_of_undo {m m' : Ledger} {us : AccountUpdates}
    (h : Run (fun m u m' => m.apply [u] = m') m us m') : m.apply us = m' := by
  induction h with
  | nil => rfl
  | cons hstep _ ih => rw [← ih, ← hstep]; rfl

end Ledger

end ZkSync
