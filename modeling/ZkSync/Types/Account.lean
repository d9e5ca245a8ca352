import ZkSync.Lib.FinMap
import ZkSync.Lib.Outcome

/-!
# Accounts and account updates

`zksync_types::account`: the account record, the four atomic changes of an
account, and the two functions that interpret lists of changes outside the
state machine — `Account.applyUpdate` folded by `applyUpdates` over an account
map (storage, data restore), and `reverseUpdates`, which turns a list of
changes into the list that undoes it.

Machine integers: identifiers and nonces are the source's fixed-width types,
amounts are `BigUint`, hence `Nat`. Subtracting more than a balance holds
panics (`subBalance`), as `BigUint` does.
-/

namespace ZkSync

/-! ## Basic types -/

abbrev AccountId := UInt32
abbrev TokenId := UInt16
abbrev BlockNumber := UInt32
abbrev Nonce := UInt32

/-- An Ethereum address, `H160`. -/
abbrev Address := BitVec 160

/-- The 20 bytes of a public key hash; the default is the hash of a locked
account. -/
abbrev PubKeyHash := BitVec 160

/-- `nonce += 1`: a build with overflow checks panics at the last nonce, a
release build wraps to zero. -/
def Nonce.increment (overflowChecks : Bool) (nonce : Nonce) : Outcome Nonce := do
  Outcome.assert (overflowChecks = false ∨ nonce.toNat + 1 < 2 ^ 32)
    "attempt to add with overflow"
  return nonce + 1

/-! ## Account -/

/-- An account, with a table of its balances. -/
structure Account where
  pubKeyHash : PubKeyHash
  address : Address
  balances : Finmap fun _ : TokenId => Nat
  nonce : Nonce
  deriving DecidableEq

/-- Atomic change in the account state. The balance update is the triple of
token, old balance and new balance. -/
inductive AccountUpdate where
  | Create (address : Address) (nonce : Nonce)
  | Delete (address : Address) (nonce : Nonce)
  | UpdateBalance (oldNonce newNonce : Nonce) (balanceUpdate : TokenId × Nat × Nat)
  | ChangePubKeyHash (oldPubKeyHash newPubKeyHash : PubKeyHash) (oldNonce newNonce : Nonce)
  deriving DecidableEq

/-- What is stored of a change, in the order of execution. -/
abbrev AccountUpdates := List (AccountId × AccountUpdate)

/-- The accounts by their ids. -/
abbrev AccountMap := Finmap fun _ : AccountId => Account

namespace Account

def default : Account :=
  { pubKeyHash := 0, address := 0, balances := ∅, nonce := 0 }

/-- The account that a deposit or a transfer creates. -/
def defaultWithAddress (address : Address) : Account :=
  { default with address := address }

/-- A new account and the updates that create it. -/
def createAccount (id : AccountId) (address : Address) : Account × AccountUpdates :=
  let account := { default with address := address }
  (account, [(id, .Create account.address account.nonce)])

/-- A token without an entry has the balance zero. -/
def getBalance (a : Account) (token : TokenId) : Nat :=
  (a.balances.lookup token).getD 0

/-- A balance that is set has an entry, be it zero. -/
def setBalance (a : Account) (token : TokenId) (amount : Nat) : Account :=
  { a with balances := a.balances.insert token amount }

/-- The amounts are big numbers: adding never overflows. -/
def addBalance (a : Account) (token : TokenId) (amount : Nat) : Account :=
  a.setBalance token (a.getBalance token + amount)

/-- The big numbers panic where they would go below zero. -/
def subBalance (a : Account) (token : TokenId) (amount : Nat) : Outcome Account := do
  Outcome.assert (amount ≤ a.getBalance token) "attempt to subtract with overflow"
  return a.setBalance token (a.getBalance token - amount)

/-- `Account::apply_update`: what an update makes of an account, present or
absent. An update that does not fit is logged and ignored. -/
def applyUpdate (account : Option Account) (update : AccountUpdate) : Option Account :=
  match account with
  | some account =>
    match update with
    | .Delete _ _ => none
    | .UpdateBalance _ newNonce (token, _, amount) =>
      some { account.setBalance token amount with nonce := newNonce }
    | .ChangePubKeyHash _ newPubKeyHash _ newNonce =>
      some { account with pubKeyHash := newPubKeyHash, nonce := newNonce }
    | .Create _ _ => some account
  | none =>
    match update with
    | .Create address nonce => some { default with address := address, nonce := nonce }
    | _ => none

/-- `Account::apply_updates`: the fold of `applyUpdate`. -/
def applyUpdates (account : Option Account) (updates : List AccountUpdate) : Option Account :=
  updates.foldl applyUpdate account

/-! ### Balances after a write -/

/-- Setting a balance leaves the other tokens. -/
theorem getBalance_setBalance (a : Account) (token token' : TokenId) (amount : Nat) :
    (a.setBalance token amount).getBalance token' =
      if token' = token then amount else a.getBalance token' := by
  unfold getBalance setBalance
  rw [Finmap.lookup_insert_if]
  split <;> rfl

@[simp] theorem getBalance_setBalance_self (a : Account) (token : TokenId) (amount : Nat) :
    (a.setBalance token amount).getBalance token = amount := by
  rw [getBalance_setBalance, if_pos rfl]

@[simp] theorem setBalance_nonce (a : Account) (token : TokenId) (amount : Nat) :
    (a.setBalance token amount).nonce = a.nonce := rfl

@[simp] theorem setBalance_address (a : Account) (token : TokenId) (amount : Nat) :
    (a.setBalance token amount).address = a.address := rfl

@[simp] theorem setBalance_pubKeyHash (a : Account) (token : TokenId) (amount : Nat) :
    (a.setBalance token amount).pubKeyHash = a.pubKeyHash := rfl

@[simp] theorem getBalance_default (token : TokenId) : default.getBalance token = 0 := rfl

@[simp] theorem getBalance_mk (p : PubKeyHash) (adr : Address) (a : Account) (n : Nonce)
    (token : TokenId) :
    ({ pubKeyHash := p, address := adr, balances := a.balances, nonce := n } :
      Account).getBalance token = a.getBalance token := rfl

/-- A debit succeeds if the balance covers it. -/
theorem subBalance_eq_ok {a a' : Account} {token : TokenId} {amount : Nat} :
    a.subBalance token amount = .ok a' ↔
      amount ≤ a.getBalance token ∧ a' = a.setBalance token (a.getBalance token - amount) := by
  unfold subBalance
  exact Outcome.guarded_eq_ok Outcome.assert_eq_ok

/-! ### Accounts up to explicit zero balances

A balance that is not stored and a stored zero are the same balance. `≈` is
this equality of accounts; it is what the account leaf sees. -/

/-- Equal up to explicit zero balances. -/
structure Equiv (a b : Account) : Prop where
  pubKeyHash : a.pubKeyHash = b.pubKeyHash
  address : a.address = b.address
  nonce : a.nonce = b.nonce
  balance : ∀ token, a.getBalance token = b.getBalance token

theorem Equiv.refl (a : Account) : a.Equiv a := ⟨rfl, rfl, rfl, fun _ => rfl⟩

theorem Equiv.symm {a b : Account} (h : a.Equiv b) : b.Equiv a :=
  ⟨h.1.symm, h.2.symm, h.3.symm, fun t => (h.4 t).symm⟩

theorem Equiv.trans {a b c : Account} (h : a.Equiv b) (h' : b.Equiv c) : a.Equiv c :=
  ⟨h.1.trans h'.1, h.2.trans h'.2, h.3.trans h'.3, fun t => (h.4 t).trans (h'.4 t)⟩

end Account

/-! ## Updates -/

/-- The update that reverts this one. -/
def AccountUpdate.reversedUpdate : AccountUpdate → AccountUpdate
  | .Create address nonce => .Delete address nonce
  | .Delete address nonce => .Create address nonce
  | .UpdateBalance oldNonce newNonce (token, oldBalance, newBalance) =>
    .UpdateBalance newNonce oldNonce (token, newBalance, oldBalance)
  | .ChangePubKeyHash oldPubKeyHash newPubKeyHash oldNonce newNonce =>
    .ChangePubKeyHash newPubKeyHash oldPubKeyHash newNonce oldNonce

/-- `helpers::apply_updates`: every update replaces the entry of its account by
what `Account::apply_update` makes of it. -/
def applyUpdates (accounts : AccountMap) (updates : AccountUpdates) : AccountMap :=
  updates.foldl (fun accounts (id, update) =>
    match Account.applyUpdate (accounts.lookup id) update with
    | some account => (accounts.erase id).insert id account
    | none => accounts.erase id) accounts

/-- `helpers::reverse_updates`: the list that reverts the list. -/
def reverseUpdates (updates : AccountUpdates) : AccountUpdates :=
  updates.reverse.map fun (id, update) => (id, update.reversedUpdate)

/-- Reversing twice gives the update back. -/
theorem AccountUpdate.reversedUpdate_reversedUpdate (update : AccountUpdate) :
    update.reversedUpdate.reversedUpdate = update := by
  cases update <;> rfl

/-- The last updates are reversed first. -/
theorem reverseUpdates_append (us vs : AccountUpdates) :
    reverseUpdates (us ++ vs) = reverseUpdates vs ++ reverseUpdates us := by
  simp only [reverseUpdates, List.reverse_append, List.map_append]

end ZkSync
