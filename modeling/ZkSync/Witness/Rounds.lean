import Mathlib.Data.ZMod.Defs
import ZkSync.State.Mirror
import ZkSync.State.Validation
import ZkSync.DataRestore.Replay
import ZkSync.Witness.OperationBits

/-!
# One operation, on the state and on the tree

The server executes an operation on its state, the witness code executes it again on the
circuit's account tree. `TxEffect.round` and `PriorityEffect.round`: if the tree shows the
state before, the round of the witness builder returns, with the bits of the public data
and the fee that the server collects, and the tree after it shows the state after.

One operation is different. A deposit to an address without an account takes the free
id; if this is taken, the server credits whoever has it, and the witness code wants the
address of the deposit in the leaf. `FreshDeposit` excludes it.
-/

namespace ZkSync

open Circuit

/-! ## Field elements -/

theorem fromNat_sub {a b : Nat} (h : b ≤ a) : Fr.fromNat a - Fr.fromNat b = Fr.fromNat (a - b) := by
  rw [sub_eq_iff_eq_add, fromNat_add, Nat.sub_add_cancel h]

theorem debitSender_eq {amount fee balance : Nat} (h : amount + fee ≤ balance) :
    debitSender amount fee (Fr.fromNat balance) = Fr.fromNat (balance - (amount + fee)) := by
  unfold debitSender
  rw [fromNat_sub (by omega), fromNat_sub (by omega), Nat.sub_sub]

theorem floatEncoded_ok {number exponentLen mantissaLen n : Nat} {bytes : Bytes}
    (h : FloatConversions.pack number exponentLen mantissaLen = .ok bytes)
    (hn : exponentLen + mantissaLen = 8 * n) :
    ∃ x, floatEncoded number exponentLen mantissaLen = .ok x := by
  obtain ⟨-, bits, hbits, -⟩ := FloatConversions.fromBeBytes_pack h hn
  exact ⟨_, floatEncoded_eq hbits⟩

theorem amountEncoded_ok {amount : Nat} {bytes : Bytes} (h : packTokenAmount amount = .ok bytes) :
    ∃ x, amountEncoded amount = .ok x :=
  floatEncoded_ok (n := 5) h rfl

theorem feeEncoded_ok {fee : Nat} {bytes : Bytes} (h : packFeeAmount fee = .ok bytes) :
    ∃ x, feeEncoded fee = .ok x :=
  floatEncoded_ok (n := 2) h rfl

theorem unwrapU128_ok {n : Nat} (h : n < u128Bound) : unwrapU128 n = .ok n :=
  unwrapU128_eq_ok.mpr ⟨h, rfl⟩

/-! ## States -/

namespace ZkSyncState

variable {s : ZkSyncState} {id : AccountId} {a : Account}

theorem content_insertAccount (s : ZkSyncState) (id : AccountId) (a : Account) :
    (s.insertAccount id a).content = Function.update s.content id a := by
  funext j
  unfold content
  rw [getAccount_insertAccount]
  by_cases hj : j = id
  · rw [hj, Function.update_self, Function.update_self]
    rfl
  · rw [Function.update_of_ne hj, Function.update_of_ne hj]

theorem content_of_getAccount (h : s.getAccount id = some a) : s.content id = a := by
  unfold content
  rw [h]
  rfl

theorem content_of_none (h : s.getAccount id = none) : s.content id = Account.default := by
  unfold content
  rw [h]
  rfl

end ZkSyncState

/-- All balances have 128 bits. -/
def BalancesBelow (s : ZkSyncState) : Prop :=
  ∀ id a token, s.getAccount id = some a → a.getBalance token < u128Bound

/-! ## Leaves -/

section Leaves

variable {H : Hasher Fr} {n : Nat} {tree : CircuitAccountTree} {m : AccountId → Account}
  {token : TokenId}

theorem assertCapacity_ok (h : CircuitTreeOk H tree) : assertCapacity tree = .ok () := by
  unfold assertCapacity
  rw [h.treeOk.capacity_eq, h.depth]
  exact Outcome.assert_ok _ rfl

/-- The next nonce, also past the last `u32`. -/
theorem nextNonce {x : Fr} {nonce : Nonce} (h : x.val % 2 ^ 32 = nonce.toNat)
    (hlt : x.val < 2 ^ 32 + n) (hn : n < 2 ^ 64) :
    (x + Fr.fromNat 1).val % 2 ^ 32 = (nonce + 1).toNat ∧
      (x + Fr.fromNat 1).val < 2 ^ 32 + (n + 1) := by
  have hlarge : 2 ^ 32 + 2 ^ 64 < FR_MODULUS := by decide
  have hval : (x + Fr.fromNat 1).val = x.val + 1 := by
    show (x.val + 1 % FR_MODULUS) % FR_MODULUS = x.val + 1
    have hone : 1 % FR_MODULUS = 1 := Nat.mod_eq_of_lt (by decide)
    rw [hone]
    exact Nat.mod_eq_of_lt (by omega)
  rw [hval, UInt32.toNat_add, ← h]
  refine ⟨?_, by omega⟩
  show _ = (_ + 1) % 2 ^ 32
  omega

theorem CircuitAccount.Shows.nextNonce {c : CircuitAccount} {a : Account} (h : c.Shows n a)
    (hn : n < 2 ^ 64) : (c.nonce + Fr.fromNat 1).val % 2 ^ 32 = (a.nonce + 1).toNat ∧
      (c.nonce + Fr.fromNat 1).val < 2 ^ 32 + (n + 1) :=
  ZkSync.nextNonce h.nonce h.nonce_lt hn

/-- A leaf whose owner pays. -/
theorem TreeShows.debitLeaf (h : TreeShows H n tree m) (id : AccountId) (htoken : HasLeaf token)
    (hn : n < 2 ^ 64) (fb : Fr → Fr) {total : Nat} (hfb : fb (Fr.fromNat ((m id).getBalance token)) =
      Fr.fromNat ((m id).getBalance token - total)) :
    ∃ leaf tree', applyLeafOperation H tree id token (fun acc => return incrementNonce acc) fb =
        .ok (leaf, tree') ∧
      TreeShows H (n + 1) tree' (Function.update m id ((m id).debit token total)) ∧
      ∀ j, (tree.get j).isSome → (tree'.get j).isSome := by
  obtain ⟨leaf, tree', happly, -, hshows, hkeep⟩ := h.leafOperation id htoken
    (Nat.le_succ n) ((m id).debit token total) (fun acc => return incrementNonce acc) fb hfb
    fun c hc hs => by
      obtain ⟨hnonce, hlt⟩ := hs.nextNonce hn
      exact ⟨_, rfl, ⟨hc.treeOk, hc.hashed, hc.depth⟩,
        ⟨hnonce, hlt, hs.pubKeyHash, hs.address, hs.balance⟩⟩
  exact ⟨leaf, tree', happly, hshows, hkeep⟩

/-- A leaf of which only the balance is written. -/
theorem TreeShows.balanceLeaf (h : TreeShows H n tree m) (id : AccountId) (htoken : HasLeaf token)
    (fb : Fr → Fr) {amount : Nat} (hfb : fb (Fr.fromNat ((m id).getBalance token)) = Fr.fromNat amount) :
    ∃ leaf tree', applyLeafOperation H tree id token (fun acc => return acc) fb =
        .ok (leaf, tree') ∧
      TreeShows H n tree' (Function.update m id ((m id).setBalance token amount)) ∧
      ∀ j, (tree.get j).isSome → (tree'.get j).isSome := by
  obtain ⟨leaf, tree', happly, -, hshows, hkeep⟩ := h.leafOperation id htoken
    (Nat.le_refl n) ((m id).setBalance token amount) (fun acc => return acc) fb hfb
    fun c hc hs => ⟨c, rfl, hc, hs⟩
  exact ⟨leaf, tree', happly, hshows, hkeep⟩

/-- A leaf that is credited, and gets an address if it has none or the same. -/
theorem TreeShows.addressLeaf (h : TreeShows H n tree m) (id : AccountId) (htoken : HasLeaf token)
    (amount : Nat) (address : Address) (check : CircuitAccount → Outcome Unit)
    (hcheck : ∀ c : CircuitAccount, c.address = Fr.fromNat (m id).address.toNat → check c = .ok ()) :
    ∃ leaf tree', applyLeafOperation H tree id token
        (fun acc => do
          check acc
          return { acc with address := ethAddressToFr address })
        (fun bal => bal + Fr.fromNat amount) = .ok (leaf, tree') ∧
      TreeShows H n tree' (Function.update m id
        { (m id).addBalance token amount with address := address }) ∧
      ∀ j, (tree.get j).isSome → (tree'.get j).isSome := by
  obtain ⟨leaf, tree', happly, -, hshows, hkeep⟩ := h.leafOperation id htoken
    (Nat.le_refl n) { (m id).addBalance token amount with address := address }
    (fun acc => do
      check acc
      return { acc with address := ethAddressToFr address }) (fun bal => bal + Fr.fromNat amount)
    (fromNat_add _ _) fun c hc hs => by
      refine ⟨{ c with address := ethAddressToFr address }, ?_, ⟨hc.treeOk, hc.hashed, hc.depth⟩,
        ⟨hs.nonce, hs.nonce_lt, hs.pubKeyHash, rfl, hs.balance⟩⟩
      rw [hcheck c hs.address]
      rfl
  exact ⟨leaf, tree', happly, hshows, hkeep⟩

end Leaves

/-! ## Rounds -/

/-- The round of the operation `op` returns, with the bits of its public data and these
fees, and leaves a tree that shows `m`. -/
def RoundShows (H : Hasher Fr) (n : Nat) (tree : CircuitAccountTree) (op : ZkSyncOp)
    (fees : List CollectedFee) (m : AccountId → Account) : Prop :=
  ∃ data tree', op.publicData = .ok data ∧ RoundOk H tree op data fees tree' ∧
    TreeShows H n tree' m ∧ ∀ j, (tree.get j).isSome → (tree'.get j).isSome

section Rounds

variable {env : Env} {H : Hasher Fr} {n : Nat} {tree : CircuitAccountTree} {s s' : ZkSyncState}

/-- A transfer is executed on the tree, whatever it does to the recipient's account. -/
theorem round_transfer {tx : Transfer} {j : AccountId} {m m₁ : AccountId → Account}
    (h : TreeShows H n tree m) (hn : n < 2 ^ 64) (htoken : HasLeaf tx.token)
    (hpackable : (ZkSyncTx.Transfer tx).Packable)
    (hfunds : tx.amount + tx.fee ≤ (m tx.accountId).getBalance tx.token)
    (hbelow : tx.amount + tx.fee < u128Bound)
    (hm₁ : m₁ = Function.update m tx.accountId
      ((m tx.accountId).debit tx.token (tx.amount + tx.fee))) :
    RoundShows H (n + 1) tree (.Transfer ⟨tx, tx.accountId, j⟩) [⟨tx.token, tx.fee⟩]
      (Function.update m₁ j ((m₁ j).addBalance tx.token tx.amount)) := by
  obtain ⟨⟨amount, hamount, -⟩, fee, hfee, -⟩ := hpackable
  have hlt : tx.amount < u128Bound := by omega
  have hfeeLt : tx.fee < u128Bound := by omega
  obtain ⟨x, hx⟩ := amountEncoded_ok hamount
  obtain ⟨y, hy⟩ := feeEncoded_ok hfee
  obtain ⟨leaf₁, tree₁, happly₁, h₁, hkeep₁⟩ := h.debitLeaf tx.accountId htoken hn
    (debitSender tx.amount tx.fee) (debitSender_eq hfunds)
  rw [← hm₁] at h₁
  obtain ⟨leaf₂, tree₂, happly₂, h₂, hkeep₂⟩ := h₁.balanceLeaf j htoken
    (fun bal => bal + Fr.fromNat tx.amount) (fromNat_add _ _)
  obtain ⟨data, hdata⟩ : ∃ data, TransferOp.getPublicData ⟨tx, tx.accountId, j⟩ = .ok data := by
    unfold TransferOp.getPublicData
    rw [hamount, hfee]
    exact ⟨_, rfl⟩
  obtain ⟨w, hw⟩ : ∃ w, TransferWitness.applyTx H tree ⟨tx, tx.accountId, j⟩ = .ok (w, tree₂) := by
    unfold TransferWitness.applyTx
    rw [unwrapU128_ok hlt, unwrapU128_ok hfeeLt, assertCapacity_ok h.ok]
    simp only [Outcome.ok_bind, hx, hy, happly₁, happly₂]
    exact ⟨_, rfl⟩
  exact ⟨data, tree₂, hdata, roundOk_transfer hw hdata, h₂, fun i hi => hkeep₂ i (hkeep₁ i hi)⟩

theorem round_transferToNew {tx : Transfer} {j : AccountId} {m m₁ : AccountId → Account}
    (h : TreeShows H n tree m) (hn : n < 2 ^ 64) (htoken : HasLeaf tx.token)
    (hpackable : (ZkSyncTx.Transfer tx).Packable)
    (hfunds : tx.amount + tx.fee ≤ (m tx.accountId).getBalance tx.token)
    (hbelow : tx.amount + tx.fee < u128Bound)
    (hm₁ : m₁ = Function.update m tx.accountId
      ((m tx.accountId).debit tx.token (tx.amount + tx.fee))) (hnew : (m₁ j).address = 0) :
    RoundShows H (n + 1) tree (.TransferToNew ⟨tx, tx.accountId, j⟩) [⟨tx.token, tx.fee⟩]
      (Function.update m₁ j { (m₁ j).addBalance tx.token tx.amount with address := tx.toAddress }) := by
  obtain ⟨⟨amount, hamount, -⟩, fee, hfee, -⟩ := hpackable
  have hlt : tx.amount < u128Bound := by omega
  have hfeeLt : tx.fee < u128Bound := by omega
  obtain ⟨x, hx⟩ := amountEncoded_ok hamount
  obtain ⟨y, hy⟩ := feeEncoded_ok hfee
  obtain ⟨leaf₁, tree₁, happly₁, h₁, hkeep₁⟩ := h.debitLeaf tx.accountId htoken hn
    (debitSender tx.amount tx.fee) (debitSender_eq hfunds)
  rw [← hm₁] at h₁
  obtain ⟨leaf₂, tree₂, happly₂, h₂, hkeep₂⟩ := h₁.addressLeaf j htoken tx.amount
    tx.toAddress (fun acc => Outcome.assert (acc.address = Fr.fromNat 0)
      "assertion failed: (acc.address == Fr::zero())") fun c hc =>
        Outcome.assert_ok _ (by rw [hc, hnew]; rfl)
  obtain ⟨data, hdata⟩ : ∃ data, TransferToNewOp.getPublicData ⟨tx, tx.accountId, j⟩ = .ok data := by
    unfold TransferToNewOp.getPublicData
    rw [hamount, hfee]
    exact ⟨_, rfl⟩
  obtain ⟨w, hw⟩ : ∃ w, TransferToNewWitness.applyTx H tree ⟨tx, tx.accountId, j⟩ =
      .ok (w, tree₂) := by
    unfold TransferToNewWitness.applyTx
    rw [unwrapU128_ok hlt, unwrapU128_ok hfeeLt, assertCapacity_ok h.ok]
    simp only [Outcome.ok_bind, hx, hy, happly₁, happly₂]
    exact ⟨_, rfl⟩
  exact ⟨data, tree₂, hdata, roundOk_transferToNew hw hdata, h₂, fun i hi => hkeep₂ i (hkeep₁ i hi)⟩

theorem round_withdraw {tx : Withdraw} {m : AccountId → Account} (h : TreeShows H n tree m)
    (hn : n < 2 ^ 64) (htoken : HasLeaf tx.token) (hpackable : (ZkSyncTx.Withdraw tx).Packable)
    (hfunds : tx.amount + tx.fee ≤ (m tx.accountId).getBalance tx.token)
    (hbelow : tx.amount + tx.fee < u128Bound) :
    RoundShows H (n + 1) tree (.Withdraw ⟨tx, tx.accountId⟩) [⟨tx.token, tx.fee⟩]
      (Function.update m tx.accountId
        ((m tx.accountId).debit tx.token (tx.amount + tx.fee))) := by
  obtain ⟨fee, hfee, -⟩ := hpackable
  have hlt : tx.amount < u128Bound := by omega
  have hfeeLt : tx.fee < u128Bound := by omega
  obtain ⟨amount, hamount⟩ := succeeds_packTokenAmount hlt
  obtain ⟨x, hx⟩ := amountEncoded_ok hamount
  obtain ⟨y, hy⟩ := feeEncoded_ok hfee
  obtain ⟨leaf, tree', happly, h', hkeep⟩ := h.debitLeaf tx.accountId htoken hn
    (debitSender tx.amount tx.fee) (debitSender_eq hfunds)
  obtain ⟨data, hdata⟩ : ∃ data, WithdrawOp.getPublicData ⟨tx, tx.accountId⟩ = .ok data := by
    unfold WithdrawOp.getPublicData
    rw [u128Bytes_eq hlt, hfee]
    exact ⟨_, rfl⟩
  obtain ⟨w, hw⟩ : ∃ w, WithdrawWitness.applyTx H tree ⟨tx, tx.accountId⟩ = .ok (w, tree') := by
    unfold WithdrawWitness.applyTx
    rw [unwrapU128_ok hlt, unwrapU128_ok hfeeLt, assertCapacity_ok h.ok]
    simp only [Outcome.ok_bind, hx, hy, happly]
    exact ⟨_, rfl⟩
  exact ⟨data, tree', hdata, roundOk_withdraw hw hdata, h', hkeep⟩

/-- The nonce in the public data is that of the account. -/
theorem round_changePubKey {tx : ChangePubKey} {m : AccountId → Account} (h : TreeShows H n tree m)
    (hn : n < 2 ^ 64) (htoken : HasLeaf tx.feeToken)
    (hpackable : (ZkSyncTx.ChangePubKey tx).Packable)
    (haddress : (m tx.accountId).address = tx.account)
    (hnonce : tx.nonce = (m tx.accountId).nonce)
    (hfunds : tx.fee ≤ (m tx.accountId).getBalance tx.feeToken) (hbelow : tx.fee < u128Bound) :
    RoundShows H (n + 1) tree (.ChangePubKeyOffchain ⟨tx, tx.accountId⟩) [⟨tx.feeToken, tx.fee⟩]
      (Function.update m tx.accountId
        { (m tx.accountId).debit tx.feeToken tx.fee with pubKeyHash := tx.newPkHash }) := by
  obtain ⟨fee, hfee, -⟩ := hpackable
  obtain ⟨y, hy⟩ := feeEncoded_ok hfee
  obtain ⟨leaf, tree', happly, -, h', hkeep⟩ := h.leafOperation tx.accountId htoken
    (Nat.le_succ n) { (m tx.accountId).debit tx.feeToken tx.fee with pubKeyHash := tx.newPkHash }
    (fun acc => do
      Outcome.assert (acc.address = ethAddressToFr tx.account) "change pubkey address tx mismatch"
      return { acc with
        pubKeyHash := Fr.fromNat tx.newPkHash.toNat, nonce := acc.nonce + Fr.fromNat 1 })
    (fun bal => bal - Fr.fromNat tx.fee) (fromNat_sub hfunds) fun c hc hs => by
      obtain ⟨hnext, hlt⟩ := hs.nextNonce hn
      have haddr : c.address = ethAddressToFr tx.account := by
        rw [hs.address]
        exact congrArg (fun address : Address => Fr.fromNat address.toNat) haddress
      rw [Outcome.assert_ok _ haddr]
      exact ⟨_, rfl, ⟨hc.treeOk, hc.hashed, hc.depth⟩, ⟨hnext, hlt, rfl, hs.address, hs.balance⟩⟩
  obtain ⟨data, hdata⟩ : ∃ data, ChangePubKeyOp.getPublicData ⟨tx, tx.accountId⟩ = .ok data := by
    unfold ChangePubKeyOp.getPublicData
    rw [hfee]
    exact ⟨_, rfl⟩
  obtain ⟨w, hw⟩ : ∃ w, ChangePubkeyOffChainWitness.applyTx H tree ⟨tx, tx.accountId⟩ =
      .ok (w, tree') := by
    unfold ChangePubkeyOffChainWitness.applyTx
    rw [unwrapU128_ok hbelow, assertCapacity_ok h.ok]
    simp only [Outcome.ok_bind, hy, happly]
    exact ⟨_, rfl⟩
  have hdeclared : (accountAt H tree tx.accountId).nonce.val % 2 ^ 32 = tx.nonce.toNat := by
    rw [(h.accounts tx.accountId).nonce, hnonce]
  exact ⟨data, tree', hdata, roundOk_changePubkey hw hdata hdeclared, h', hkeep⟩

/-- The initiator pays, the whole balance of the target leaves it. -/
theorem round_forcedExit {tx : ForcedExit} {j : AccountId} {withdrawAmount : Option Nat}
    {m m₁ : AccountId → Account} (h : TreeShows H n tree m) (hn : n < 2 ^ 64)
    (htoken : HasLeaf tx.token) (hpackable : (ZkSyncTx.ForcedExit tx).Packable)
    (hfunds : tx.fee ≤ (m tx.initiatorAccountId).getBalance tx.token) (hbelow : tx.fee < u128Bound)
    (hm₁ : m₁ = Function.update m tx.initiatorAccountId
      ((m tx.initiatorAccountId).debit tx.token tx.fee))
    (hamount : withdrawAmount.getD 0 = (m₁ j).getBalance tx.token)
    (hexit : withdrawAmount.getD 0 < u128Bound) :
    RoundShows H (n + 1) tree (.ForcedExit ⟨tx, j, withdrawAmount⟩) [⟨tx.token, tx.fee⟩]
      (Function.update m₁ j ((m₁ j).setBalance tx.token 0)) := by
  obtain ⟨fee, hfee, -⟩ := hpackable
  obtain ⟨packed, hpacked⟩ := succeeds_packTokenAmount hexit
  obtain ⟨x, hx⟩ := amountEncoded_ok hpacked
  obtain ⟨y, hy⟩ := feeEncoded_ok hfee
  obtain ⟨leaf₁, tree₁, happly₁, h₁, hkeep₁⟩ := h.debitLeaf tx.initiatorAccountId htoken hn
    (fun bal => bal - Fr.fromNat tx.fee) (fromNat_sub hfunds)
  rw [← hm₁] at h₁
  obtain ⟨leaf₂, tree₂, happly₂, h₂, hkeep₂⟩ := h₁.balanceLeaf j htoken
    (fun bal => bal - Fr.fromNat (withdrawAmount.getD 0)) (show _ = Fr.fromNat 0 by
      rw [fromNat_sub hamount.le, hamount, Nat.sub_self])
  obtain ⟨data, hdata⟩ : ∃ data, ForcedExitOp.getPublicData ⟨tx, j, withdrawAmount⟩ = .ok data := by
    unfold ForcedExitOp.getPublicData
    rw [u128Bytes_eq hexit, hfee]
    exact ⟨_, rfl⟩
  obtain ⟨w, hw⟩ : ∃ w, ForcedExitWitness.applyTx H tree ⟨tx, j, withdrawAmount⟩ =
      .ok (w, tree₂) := by
    unfold ForcedExitWitness.applyTx
    rw [unwrapU128_ok hexit, unwrapU128_ok hbelow, assertCapacity_ok h.ok]
    simp only [Outcome.ok_bind, hx, hy, happly₁, happly₂]
    exact ⟨_, rfl⟩
  exact ⟨data, tree₂, hdata, roundOk_forcedExit hw hdata, h₂, fun i hi => hkeep₂ i (hkeep₁ i hi)⟩

/-- The leaf has the address of the deposit, or none yet. -/
theorem round_deposit {op : Deposit} {i : AccountId} {m : AccountId → Account}
    (h : TreeShows H n tree m) (htoken : HasLeaf op.token)
    (haddress : (m i).address = op.toAddress ∨ (m i).address = 0) (hbelow : op.amount < u128Bound) :
    RoundShows H n tree (.Deposit ⟨op, i⟩) []
      (Function.update m i { (m i).addBalance op.token op.amount with address := op.toAddress }) := by
  obtain ⟨leaf, tree', happly, h', hkeep⟩ := h.addressLeaf i htoken op.amount
    op.toAddress (fun acc => Outcome.assert
      (acc.address = ethAddressToFr op.toAddress ∨ acc.address = Fr.fromNat 0)
      "assertion failed: (acc.address == deposit.address) || (acc.address == Fr::zero())")
    fun c hc => Outcome.assert_ok _ (by
      rcases haddress with ha | ha
      · exact Or.inl (by rw [hc, ha]; rfl)
      · exact Or.inr (by rw [hc, ha]; rfl))
  obtain ⟨data, hdata⟩ : ∃ data, DepositOp.getPublicData ⟨op, i⟩ = .ok data := by
    unfold DepositOp.getPublicData
    rw [u128Bytes_eq hbelow]
    exact ⟨_, rfl⟩
  obtain ⟨w, hw⟩ : ∃ w, DepositWitness.applyTx H tree ⟨op, i⟩ = .ok (w, tree') := by
    unfold DepositWitness.applyTx
    rw [unwrapU128_ok hbelow, assertCapacity_ok h.ok]
    simp only [Outcome.ok_bind, happly]
    exact ⟨_, rfl⟩
  exact ⟨data, tree', hdata, roundOk_deposit hw hdata, h', hkeep⟩

/-- An exit writes zero, or what is there. -/
theorem round_fullExit {op : FullExit} {withdrawAmount : Option Nat} {m : AccountId → Account}
    (h : TreeShows H n tree m) (htoken : HasLeaf op.token)
    (hexit : withdrawAmount.getD 0 < u128Bound) :
    RoundShows H n tree (.FullExit ⟨op, withdrawAmount⟩) []
      (Function.update m op.accountId ((m op.accountId).setBalance op.token
        (if withdrawAmount.isSome then 0 else (m op.accountId).getBalance op.token))) := by
  obtain ⟨leaf, tree', happly, h', hkeep⟩ := h.balanceLeaf op.accountId htoken
    (fun bal => if withdrawAmount.isSome then Fr.fromNat 0 else bal)
    (apply_ite Fr.fromNat _ _ _).symm
  obtain ⟨data, hdata⟩ : ∃ data, FullExitOp.getPublicData ⟨op, withdrawAmount⟩ = .ok data := by
    unfold FullExitOp.getPublicData
    rw [u128Bytes_eq hexit]
    exact ⟨_, rfl⟩
  obtain ⟨w, hw⟩ : ∃ w, FullExitWitness.applyTx H tree ⟨op, withdrawAmount⟩ withdrawAmount.isSome =
      .ok (w, tree') := by
    unfold FullExitWitness.applyTx
    rw [assertCapacity_ok h.ok]
    simp only [Outcome.ok_bind, happly]
    exact ⟨_, rfl⟩
  exact ⟨data, tree', hdata, roundOk_fullExit hw hdata, h', hkeep⟩

end Rounds

/-! ## Effects -/

section Effects

variable {env : Env} {H : Hasher Fr} {n : Nat} {tree : CircuitAccountTree} {s s' : ZkSyncState}
  {r : OpSuccess}

/-- A transaction that is executed on the state is executed on a tree that shows it. -/
theorem TxEffect.round {tx : ZkSyncTx} (hz : env.NoZeroSigner) (heff : TxEffect env s tx r s')
    (h : TreeShows H n tree s.content) (hn : n < 2 ^ 64) (hindexed : Indexed s)
    (htoken : tx.FeeTokenOk) (hpackable : tx.Packable) (hbelow : BalancesBelow s) :
    RoundShows H (n + 1) tree r.executedOp r.fee.toList s'.content := by
  cases heff with
  | @transfer tx j a b sender notZero target targetAccount target_le ne =>
    have ha := ZkSyncState.content_of_getAccount sender.account
    have hb : Function.update s.content tx.accountId
        (a.debit tx.token (tx.amount + tx.fee)) j = b := by
      rw [Function.update_of_ne (Ne.symm ne), ZkSyncState.content_of_getAccount targetAccount]
    have hround := round_transfer (j := j) h hn (maxTokenId_lt sender.token_le) hpackable
      (by rw [ha]; exact sender.funds)
      (sender.funds.trans_lt (hbelow _ _ _ sender.account)) rfl
    rw [ha, hb] at hround
    rw [ZkSyncState.content_insertAccount, ZkSyncState.content_insertAccount]
    exact hround
  | @transferToSelf tx a sender notZero target =>
    have ha := ZkSyncState.content_of_getAccount sender.account
    have hround := round_transfer (j := tx.accountId) h hn (maxTokenId_lt sender.token_le) hpackable
      (by rw [ha]; exact sender.funds)
      (sender.funds.trans_lt (hbelow _ _ _ sender.account)) rfl
    obtain ⟨data, tree', hdata, hok, hshows, hkeep⟩ := hround
    refine ⟨data, tree', hdata, hok, hshows.equiv fun id => ?_, hkeep⟩
    rw [ha, Function.update_self, Function.update_idem, ZkSyncState.content_insertAccount]
    by_cases hid : id = tx.accountId
    · rw [hid, Function.update_self, Function.update_self]
      -- the amount goes out and comes back
      refine ⟨rfl, rfl, rfl, fun token => ?_⟩
      unfold Account.addBalance
      rw [Account.getBalance_setBalance, Account.getBalance_debit, Account.getBalance_debit,
        Account.getBalance_debit, if_pos rfl]
      have hfunds := sender.funds
      split
      · omega
      · rfl
    · rw [Function.update_of_ne hid, Function.update_of_ne hid]
      exact Account.Equiv.refl _
  | @transferToNew tx a sender notZero target free target_le =>
    have ha := ZkSyncState.content_of_getAccount sender.account
    have hne : s.getFreeAccountId ≠ tx.accountId := by
      intro he
      rw [he, sender.account] at free
      cases free
    have hb : Function.update s.content tx.accountId
        (a.debit tx.token (tx.amount + tx.fee)) s.getFreeAccountId = Account.default := by
      rw [Function.update_of_ne hne, ZkSyncState.content_of_none free]
    have hround := round_transferToNew (j := s.getFreeAccountId) h hn
      (maxTokenId_lt sender.token_le) hpackable (by rw [ha]; exact sender.funds)
      (sender.funds.trans_lt (hbelow _ _ _ sender.account)) rfl (by rw [ha, hb]; rfl)
    rw [ha, hb] at hround
    rw [ZkSyncState.content_insertAccount, ZkSyncState.content_insertAccount]
    exact hround
  | @withdraw tx a sender =>
    have ha := ZkSyncState.content_of_getAccount sender.account
    have hround := round_withdraw h hn (maxTokenId_lt sender.token_le) hpackable
      (by rw [ha]; exact sender.funds) (sender.funds.trans_lt (hbelow _ _ _ sender.account))
    rw [ha] at hround
    rw [ZkSyncState.content_insertAccount]
    exact hround
  | @changePubKey tx a index account ethSigned signed id_le nonce_eq canIncrement funds =>
    have ha := ZkSyncState.content_of_getAccount account
    -- the index leads to the account with the address of the transaction
    obtain ⟨a', ha', haddress⟩ := hindexed _ _ index
    obtain rfl : a = a' := Option.some.inj (account.symm.trans ha')
    have hround := round_changePubKey h hn htoken hpackable (by rw [ha]; exact haddress)
      (by rw [ha]; exact nonce_eq) (by rw [ha]; exact funds)
      (funds.trans_lt (hbelow _ _ _ account))
    rw [ha] at hround
    rw [ZkSyncState.content_insertAccount]
    exact hround
  | @forcedExit tx j a b withdrawAmount account signed token_le target targetAccount locked amount
      id_le nonce_eq canIncrement funds =>
    have ha := ZkSyncState.content_of_getAccount account
    -- the initiator has a key, the target has none
    have hne : j ≠ tx.initiatorAccountId := by
      intro he
      rw [he, account] at targetAccount
      obtain rfl := Option.some.inj targetAccount
      exact hz _ (locked ▸ signed)
    have hb : Function.update s.content tx.initiatorAccountId (a.debit tx.token tx.fee) j = b := by
      rw [Function.update_of_ne hne, ZkSyncState.content_of_getAccount targetAccount]
    have hexit : withdrawAmount.getD 0 < u128Bound := by
      rw [amount]
      exact hbelow _ _ _ targetAccount
    have hround := round_forcedExit (j := j) h hn (maxTokenId_lt token_le) hpackable
      (by rw [ha]; exact funds) (funds.trans_lt (hbelow _ _ _ account)) rfl
      (by rw [ha, hb]; exact amount) hexit
    rw [ha, hb] at hround
    rw [ZkSyncState.content_insertAccount, ZkSyncState.content_insertAccount]
    exact hround

/-- A deposit to an address without an account finds the free id vacant. -/
def FreshDeposit (s : ZkSyncState) : ZkSyncPriorityOp → Prop
  | .Deposit op => s.accountIdByAddress.lookup op.toAddress = none →
      s.getAccount s.getFreeAccountId = none
  | .FullExit _ => True

theorem PriorityEffect.round {op : ZkSyncPriorityOp} (heff : PriorityEffect s op r s')
    (h : TreeShows H n tree s.content) (hindexed : Indexed s) (hfresh : FreshDeposit s op)
    (hbelow : BalancesBelow s) (hbelow' : BalancesBelow s') :
    RoundShows H n tree r.executedOp r.fee.toList s'.content := by
  cases heff with
  | @deposit op i a token_le target account =>
    have ha := ZkSyncState.content_of_getAccount account
    have haddress : a.address = op.toAddress := by
      rcases target with target | ⟨hnone, rfl⟩
      · obtain ⟨a', ha', haddress⟩ := hindexed _ _ target
        obtain rfl : a = a' := Option.some.inj (account.symm.trans ha')
        exact haddress
      · have hfree := hfresh hnone
        rw [account] at hfree
        cases hfree
    have hamount : op.amount < u128Bound := by
      have hafter := hbelow' i _ op.token (s.getAccount_insertAccount_self i _)
      unfold Account.addBalance at hafter
      rw [Account.getBalance_setBalance_self] at hafter
      omega
    have hround := round_deposit (i := i) h (maxTokenId_lt token_le)
      (Or.inl (by rw [ha]; exact haddress)) hamount
    rw [ha, ← haddress] at hround
    rw [ZkSyncState.content_insertAccount]
    exact hround
  | @depositToNew op token_le target free =>
    have ha := ZkSyncState.content_of_none free
    have hamount : op.amount < u128Bound := by
      have hafter := hbelow' _ _ op.token (s.getAccount_insertAccount_self s.getFreeAccountId _)
      unfold Account.addBalance at hafter
      rw [Account.getBalance_setBalance_self] at hafter
      omega
    have hround := round_deposit (i := s.getFreeAccountId) h (maxTokenId_lt token_le)
      (Or.inr (by rw [ha]; rfl)) hamount
    rw [ha] at hround
    rw [ZkSyncState.content_insertAccount]
    exact hround
  | @fullExit op a token_le account owner =>
    have ha := ZkSyncState.content_of_getAccount account
    have hexit : (some (a.getBalance op.token)).getD 0 < u128Bound := hbelow _ _ _ account
    have hround : RoundShows H n tree (.FullExit ⟨op, some (a.getBalance op.token)⟩) [] _ :=
      round_fullExit h (maxTokenId_lt token_le) hexit
    rw [ha] at hround
    rw [ZkSyncState.content_insertAccount]
    exact hround
  | @fullExitRefused op token_le noAccount =>
    have hround : RoundShows H n tree (.FullExit ⟨op, none⟩) [] _ :=
      round_fullExit h (maxTokenId_lt token_le) (by decide)
    obtain ⟨data, tree', hdata, hok, hshows, hkeep⟩ := hround
    refine ⟨data, tree', hdata, hok, hshows.equiv fun id => ?_, hkeep⟩
    -- what was there is written again
    by_cases hid : id = op.accountId
    · rw [hid, Function.update_self]
      refine ⟨rfl, rfl, rfl, fun token => ?_⟩
      show ((s.content op.accountId).setBalance op.token _).getBalance token = _
      rw [Account.getBalance_setBalance]
      split
      next he =>
        rw [he]
        rfl
      next => rfl
    · rw [Function.update_of_ne hid]
      exact Account.Equiv.refl _

end Effects

end ZkSync
