import ZkSync.Core.WithinBlock
import ZkSync.Witness.Rebuilt

/-!
# Nonces along a block

The public data of a key change has the nonce of the account in the circuit's tree, not
the nonce of the transaction. The two agree in every block the server seals: one
operation raises at most one nonce (`ZkSyncOp.signer`), in the tree and in the state
alike, whatever else the operation does to them. So nothing is asked of balances or
addresses here, only that the rounds of the builder returned.

The tree counts in field elements and the state in `u32`; up to `2 ^ 64` operations the
lowest 32 bits are the same.
-/

namespace ZkSync

open Circuit FloatConversions

/-- The account whose nonce is the next one after the operation. -/
def ZkSyncOp.signer : ZkSyncOp → Option AccountId
  | .Transfer op => some op.fromId
  | .TransferToNew op => some op.fromId
  | .Withdraw op => some op.accountId
  | .ChangePubKeyOffchain op => some op.accountId
  | .ForcedExit op => some op.tx.initiatorAccountId
  | .Deposit _ => none
  | .FullExit _ => none
  | .Close _ => none
  | .Noop => none

/-- What the server executes: accounts cannot be closed. -/
def ZkSyncOp.Enabled : ZkSyncOp → Prop
  | .Close _ => False
  | .Noop => False
  | _ => True

/-! ## Trees -/

section Trees

variable {H : Hasher Fr} {tree tree₁ tree' : CircuitAccountTree} {id : AccountId} {token : TokenId}
  {fa : CircuitAccount → Outcome CircuitAccount} {fb : Fr → Fr} {leaf : LeafOperation}
  {signer : Option AccountId}

/-- The nonce that the circuit's tree has for an account. -/
def nonceAt (H : Hasher Fr) (tree : CircuitAccountTree) (id : AccountId) : Fr :=
  (accountAt H tree id).nonce

/-- The nonce of one account was raised, the others are as they were. -/
structure NonceRaised (H : Hasher Fr) (tree tree' : CircuitAccountTree)
    (signer : Option AccountId) : Prop where
  ok : CircuitTreeOk H tree'
  nonce : ∀ id, nonceAt H tree' id =
    if signer = some id then nonceAt H tree id + Fr.fromNat 1 else nonceAt H tree id

/-- A leaf operation returns only if the token has a leaf. -/
theorem hasLeaf_of_applyLeafOperation (h : CircuitTreeOk H tree)
    (happly : applyLeafOperation H tree id token fa fb = .ok (leaf, tree')) : HasLeaf token := by
  unfold applyLeafOperation at happly
  rw [SparseMerkleTree.remove_eq] at happly
  simp only [Outcome.bind_eq_ok] at happly
  obtain ⟨_, ⟨_, -, hremoved⟩, ⟨balance, subtree⟩, hbalance, -⟩ := happly
  cases hremoved
  have haccount : (tree.items.lookup id.toNat).getD (CircuitAccount.default H) =
      accountAt H tree id := rfl
  rw [SparseMerkleTree.remove_eq, haccount] at hbalance
  obtain ⟨_, hinsert, -⟩ := Outcome.bind_eq_ok.mp hbalance
  have hlt := SparseMerkleTree.insert_lt hinsert
  have hok := h.accounts id
  rw [hok.treeOk.capacity_eq, hok.depth] at hlt
  exact hlt

/-- A leaf operation changes the nonce of its own account only. -/
theorem applyLeafOperation_nonce (h : CircuitTreeOk H tree) {g : Fr → Fr}
    (hfa : ∀ c c', fa c = .ok c' → c'.subtree = c.subtree ∧ c'.nonce = g c.nonce)
    (happly : applyLeafOperation H tree id token fa fb = .ok (leaf, tree')) :
    CircuitTreeOk H tree' ∧
      ∀ j, nonceAt H tree' j = if j = id then g (nonceAt H tree j) else nonceAt H tree j := by
  obtain ⟨subtree, hw, herror, hok⟩ :=
    applyLeafOperation_eq h id fa fb (hasLeaf_of_applyLeafOperation h happly)
  cases hc : fa { accountAt H tree id with subtree := subtree } with
  | error e =>
    rw [herror e hc] at happly
    cases happly
  | ok c' =>
    obtain ⟨hsubtree, hnonce⟩ := hfa _ c' hc
    have hok' : c'.Ok H := by
      refine ⟨?_, ?_, ?_⟩
      · rw [hsubtree]
        exact hw.ok.treeOk
      · rw [hsubtree]
        exact hw.ok.hashed
      · rw [hsubtree]
        exact hw.ok.depth
    obtain ⟨tree'', happly', htree, -, -, hat⟩ := hok c' hc hok'
    rw [happly'] at happly
    cases happly
    refine ⟨htree, fun j => ?_⟩
    unfold nonceAt
    rw [hat]
    by_cases hj : j = id
    · rw [if_pos hj, if_pos hj, hj]
      exact hnonce
    · rw [if_neg hj, if_neg hj]

/-- An operation that counts the nonce up does so for its account. -/
theorem NonceRaised.of_raise (h : CircuitTreeOk H tree)
    (hfa : ∀ c c', fa c = .ok c' → c'.subtree = c.subtree ∧ c'.nonce = c.nonce + Fr.fromNat 1)
    (happly : applyLeafOperation H tree id token fa fb = .ok (leaf, tree')) :
    NonceRaised H tree tree' (some id) := by
  obtain ⟨hok, hnonce⟩ := applyLeafOperation_nonce (g := fun x => x + Fr.fromNat 1) h hfa happly
  refine ⟨hok, fun j => ?_⟩
  rw [hnonce]
  by_cases hj : j = id
  · rw [if_pos hj, if_pos (congrArg some hj.symm)]
  · rw [if_neg hj, if_neg fun he => hj (Option.some.inj he).symm]

/-- One that leaves the account its nonce raises none. -/
theorem NonceRaised.of_keep (h : CircuitTreeOk H tree)
    (hfa : ∀ c c', fa c = .ok c' → c'.subtree = c.subtree ∧ c'.nonce = c.nonce)
    (happly : applyLeafOperation H tree id token fa fb = .ok (leaf, tree')) :
    NonceRaised H tree tree' none := by
  obtain ⟨hok, hnonce⟩ := applyLeafOperation_nonce (g := fun x => x) h hfa happly
  refine ⟨hok, fun j => ?_⟩
  rw [hnonce, ite_self]
  rfl

/-- A second leaf, with the nonce it had. -/
theorem NonceRaised.keep (h : NonceRaised H tree tree₁ signer)
    (h' : NonceRaised H tree₁ tree' none) : NonceRaised H tree tree' signer := by
  refine ⟨h'.ok, fun id => ?_⟩
  rw [h'.nonce, if_neg (by simp), h.nonce]

/-- The accounts that `incrementNonce` gives. -/
theorem incrementNonce_ok : ∀ c c' : CircuitAccount, (return incrementNonce c : Outcome _) = .ok c' →
    c'.subtree = c.subtree ∧ c'.nonce = c.nonce + Fr.fromNat 1 := by
  intro c c' h
  cases h
  exact ⟨rfl, rfl⟩

theorem return_ok : ∀ c c' : CircuitAccount, (return c : Outcome _) = .ok c' →
    c'.subtree = c.subtree ∧ c'.nonce = c.nonce := by
  intro c c' h
  cases h
  exact ⟨rfl, rfl⟩

/-- An address that is written, after a check. -/
theorem setAddress_ok (check : CircuitAccount → Outcome Unit) (address : Fr) :
    ∀ c c' : CircuitAccount, (do
        check c
        return { c with address := address } : Outcome _) = .ok c' →
      c'.subtree = c.subtree ∧ c'.nonce = c.nonce := by
  intro c c' h
  obtain ⟨_, -, h⟩ := Outcome.bind_eq_ok.mp h
  cases h
  exact ⟨rfl, rfl⟩

/-! ## Operations -/

/-- A deposit raises no nonce. -/
theorem DepositWitness.applyTx_nonce {op : DepositOp} {w : DepositWitness} (h : CircuitTreeOk H tree)
    (hw : DepositWitness.applyTx H tree op = .ok (w, tree')) : NonceRaised H tree tree' none := by
  unfold DepositWitness.applyTx at hw
  simp only [Outcome.bind_eq_ok] at hw
  obtain ⟨_, -, _, -, ⟨leaf, tree₁⟩, happly, hw⟩ := hw
  cases hw
  exact .of_keep h (setAddress_ok _ _) happly

/-- A transfer raises that of the sender. -/
theorem TransferWitness.applyTx_nonce {op : TransferOp} {w : TransferWitness}
    (h : CircuitTreeOk H tree) (hw : TransferWitness.applyTx H tree op = .ok (w, tree')) :
    NonceRaised H tree tree' (some op.fromId) := by
  unfold TransferWitness.applyTx at hw
  simp only [Outcome.bind_eq_ok] at hw
  obtain ⟨_, -, _, -, _, -, _, -, _, -, ⟨from_, tree₁⟩, hfrom, ⟨to_, tree₂⟩, hto, hw⟩ := hw
  cases hw
  have hfirst := NonceRaised.of_raise h incrementNonce_ok hfrom
  exact hfirst.keep (.of_keep hfirst.ok return_ok hto)

/-- So does a transfer to a new account. -/
theorem TransferToNewWitness.applyTx_nonce {op : TransferToNewOp} {w : TransferToNewWitness}
    (h : CircuitTreeOk H tree) (hw : TransferToNewWitness.applyTx H tree op = .ok (w, tree')) :
    NonceRaised H tree tree' (some op.fromId) := by
  unfold TransferToNewWitness.applyTx at hw
  simp only [Outcome.bind_eq_ok] at hw
  obtain ⟨_, -, _, -, _, -, _, -, _, -, ⟨from_, tree₁⟩, hfrom, ⟨to_, tree₂⟩, hto, hw⟩ := hw
  cases hw
  have hfirst := NonceRaised.of_raise h incrementNonce_ok hfrom
  exact hfirst.keep (.of_keep hfirst.ok (setAddress_ok _ _) hto)

/-- A withdrawal raises that of the account. -/
theorem WithdrawWitness.applyTx_nonce {op : WithdrawOp} {w : WithdrawWitness}
    (h : CircuitTreeOk H tree) (hw : WithdrawWitness.applyTx H tree op = .ok (w, tree')) :
    NonceRaised H tree tree' (some op.accountId) := by
  unfold WithdrawWitness.applyTx at hw
  simp only [Outcome.bind_eq_ok] at hw
  obtain ⟨_, -, _, -, _, -, _, -, _, -, ⟨leaf, tree₁⟩, happly, hw⟩ := hw
  cases hw
  exact .of_raise h incrementNonce_ok happly

/-- A full exit raises no nonce. -/
theorem FullExitWitness.applyTx_nonce {op : FullExitOp} {isSuccess : Bool} {w : FullExitWitness}
    (h : CircuitTreeOk H tree) (hw : FullExitWitness.applyTx H tree op isSuccess = .ok (w, tree')) :
    NonceRaised H tree tree' none := by
  unfold FullExitWitness.applyTx at hw
  simp only [Outcome.bind_eq_ok] at hw
  obtain ⟨_, -, ⟨leaf, tree₁⟩, happly, hw⟩ := hw
  cases hw
  exact .of_keep h return_ok happly

/-- A key change raises that of the account. -/
theorem ChangePubkeyOffChainWitness.applyTx_nonce {op : ChangePubKeyOp}
    {w : ChangePubkeyOffChainWitness} (h : CircuitTreeOk H tree)
    (hw : ChangePubkeyOffChainWitness.applyTx H tree op = .ok (w, tree')) :
    NonceRaised H tree tree' (some op.accountId) := by
  unfold ChangePubkeyOffChainWitness.applyTx at hw
  simp only [Outcome.bind_eq_ok] at hw
  obtain ⟨_, -, _, -, _, -, ⟨leaf, tree₁⟩, happly, hw⟩ := hw
  cases hw
  refine .of_raise h (fun c c' hc => ?_) happly
  obtain ⟨_, -, hc⟩ := Outcome.bind_eq_ok.mp hc
  cases hc
  exact ⟨rfl, rfl⟩

/-- A forced exit raises that of the initiator, not of the target. -/
theorem ForcedExitWitness.applyTx_nonce {op : ForcedExitOp} {w : ForcedExitWitness}
    (h : CircuitTreeOk H tree) (hw : ForcedExitWitness.applyTx H tree op = .ok (w, tree')) :
    NonceRaised H tree tree' (some op.tx.initiatorAccountId) := by
  unfold ForcedExitWitness.applyTx at hw
  simp only [Outcome.bind_eq_ok] at hw
  obtain ⟨_, -, _, -, _, -, _, -, _, -, ⟨initiator, tree₁⟩, hfrom, ⟨target, tree₂⟩, hto, hw⟩ := hw
  cases hw
  have hfirst := NonceRaised.of_raise h incrementNonce_ok hfrom
  exact hfirst.keep (.of_keep hfirst.ok return_ok hto)

/-- A round returns what its witness leaves. -/
theorem exists_witness_of_round {W : Type} {x : Outcome (W × CircuitAccountTree)}
    {f : W → Outcome (List Circuit.Operation)} {g : W → Outcome (List Bool)}
    {fees : List CollectedFee} {added : BlockAccum} (h : (do
      let (w, tree) ← x
      let operations ← f w
      let pubData ← g w
      return (⟨operations, pubData, fees⟩, tree) : Outcome (BlockAccum × CircuitAccountTree)) =
        .ok (added, tree')) : ∃ w, x = .ok (w, tree') := by
  simp only [Outcome.bind_eq_ok] at h
  obtain ⟨⟨w, tree⟩, hw, _, -, _, -, h⟩ := h
  cases h
  exact ⟨w, hw⟩

/-- A round of the builder, whatever its operation is. -/
theorem witnessOperation_nonce {op : ZkSyncOp} {added : BlockAccum} (h : CircuitTreeOk H tree)
    (hop : op.Enabled) (hround : witnessOperation H tree op = .ok (added, tree')) :
    NonceRaised H tree tree' op.signer := by
  unfold witnessOperation at hround
  cases op with
  | Noop => exact hop.elim
  | Close op => exact hop.elim
  | Deposit op =>
    obtain ⟨w, hw⟩ := exists_witness_of_round hround
    exact DepositWitness.applyTx_nonce h hw
  | Transfer op =>
    obtain ⟨w, hw⟩ := exists_witness_of_round hround
    exact TransferWitness.applyTx_nonce h hw
  | TransferToNew op =>
    obtain ⟨w, hw⟩ := exists_witness_of_round hround
    exact TransferToNewWitness.applyTx_nonce h hw
  | Withdraw op =>
    obtain ⟨w, hw⟩ := exists_witness_of_round hround
    exact WithdrawWitness.applyTx_nonce h hw
  | FullExit op =>
    obtain ⟨w, hw⟩ := exists_witness_of_round hround
    exact FullExitWitness.applyTx_nonce h hw
  | ChangePubKeyOffchain op =>
    obtain ⟨w, hw⟩ := exists_witness_of_round hround
    exact ChangePubkeyOffChainWitness.applyTx_nonce h hw
  | ForcedExit op =>
    obtain ⟨w, hw⟩ := exists_witness_of_round hround
    exact ForcedExitWitness.applyTx_nonce h hw

end Trees

/-! ## States -/

section States

variable {env : Env} {s s' : ZkSyncState} {r : OpSuccess}

/-- Writing an account writes its nonce. -/
theorem nonce_insertAccount (s : ZkSyncState) (id j : AccountId) (a : Account) :
    ((s.insertAccount id a).content j).nonce =
      if id = j then a.nonce else (s.content j).nonce := by
  rw [ZkSyncState.content_insertAccount]
  by_cases hj : id = j
  · rw [if_pos hj, hj, Function.update_self]
  · rw [if_neg hj, Function.update_of_ne (Ne.symm hj)]

/-- The account of the signer has the next nonce, a second account that is written has
its own. -/
theorem nonce_insert_second {i j : AccountId} {a b : Account} (hne : j ≠ i) {b' : Account}
    (hb : (s.content j).nonce = b'.nonce) (id : AccountId)
    (ha : a.nonce = (s.content i).nonce + 1) (hb' : b.nonce = b'.nonce) :
    (((s.insertAccount i a).insertAccount j b).content id).nonce =
      if some i = some id then (s.content id).nonce + 1 else (s.content id).nonce := by
  rw [nonce_insertAccount, nonce_insertAccount]
  by_cases hj : j = id
  · have hi : ¬ some i = some id := fun he => hne (hj.trans (Option.some.inj he).symm)
    rw [if_pos hj, if_neg hi, hb', ← hb, hj]
  · rw [if_neg hj]
    by_cases hi : i = id
    · rw [if_pos hi, if_pos (congrArg some hi), ha, hi]
    · rw [if_neg hi, if_neg fun he => hi (Option.some.inj he)]

/-- An account that is written with the next nonce is the only one that has moved. -/
theorem nonce_insert_one {i : AccountId} {a : Account} (ha : a.nonce = (s.content i).nonce + 1)
    (id : AccountId) : ((s.insertAccount i a).content id).nonce =
      if some i = some id then (s.content id).nonce + 1 else (s.content id).nonce := by
  rw [nonce_insertAccount]
  by_cases hi : i = id
  · rw [if_pos hi, if_pos (congrArg some hi), ha, hi]
  · rw [if_neg hi, if_neg fun he => hi (Option.some.inj he)]

/-- A transaction raises the nonce of the account that signed it, and of no other. -/
theorem TxEffect.nonce {tx : ZkSyncTx} (hz : env.NoZeroSigner) (h : TxEffect env s tx r s')
    (id : AccountId) : (s'.content id).nonce =
      if r.executedOp.signer = some id then (s.content id).nonce + 1 else (s.content id).nonce := by
  cases h with
  | transfer sender _ _ targetAccount _ ne =>
    have ha := ZkSyncState.content_of_getAccount sender.account
    have hb := ZkSyncState.content_of_getAccount targetAccount
    exact nonce_insert_second ne.symm (congrArg Account.nonce hb) id (by rw [ha]; rfl) rfl
  | transferToSelf sender =>
    have ha := ZkSyncState.content_of_getAccount sender.account
    exact nonce_insert_one (by rw [ha]; rfl) id
  | @transferToNew tx a sender _ _ free =>
    have ha := ZkSyncState.content_of_getAccount sender.account
    have hb := ZkSyncState.content_of_none free
    have hne : s.getFreeAccountId ≠ tx.accountId := by
      intro he
      rw [he, sender.account] at free
      cases free
    exact nonce_insert_second hne (congrArg Account.nonce hb) id (by rw [ha]; rfl) rfl
  | withdraw sender =>
    have ha := ZkSyncState.content_of_getAccount sender.account
    exact nonce_insert_one (by rw [ha]; rfl) id
  | changePubKey _ account =>
    have ha := ZkSyncState.content_of_getAccount account
    exact nonce_insert_one (by rw [ha]; rfl) id
  | @forcedExit tx j a b _ account signed _ _ targetAccount locked =>
    have ha := ZkSyncState.content_of_getAccount account
    have hb := ZkSyncState.content_of_getAccount targetAccount
    -- the initiator has a key, the target has none
    have hne : j ≠ tx.initiatorAccountId := by
      intro he
      rw [he, account] at targetAccount
      obtain rfl := Option.some.inj targetAccount
      exact hz _ (locked ▸ signed)
    exact nonce_insert_second hne (congrArg Account.nonce hb) id (by rw [ha]; rfl) rfl

/-- Priority operations have no nonce, and move none. -/
theorem PriorityEffect.nonce {op : ZkSyncPriorityOp} (h : PriorityEffect s op r s')
    (id : AccountId) : (s'.content id).nonce = (s.content id).nonce := by
  have hsame : ∀ {i : AccountId} {a : Account}, a.nonce = (s.content i).nonce →
      ((s.insertAccount i a).content id).nonce = (s.content id).nonce := by
    intro i a ha
    rw [nonce_insertAccount]
    by_cases hi : i = id
    · rw [if_pos hi, ha, hi]
    · rw [if_neg hi]
  cases h with
  | deposit _ _ account => exact hsame (by rw [ZkSyncState.content_of_getAccount account]; rfl)
  | depositToNew _ _ free => exact hsame (by rw [ZkSyncState.content_of_none free]; rfl)
  | fullExit _ account => exact hsame (by rw [ZkSyncState.content_of_getAccount account]; rfl)
  | fullExitRefused => rfl

/-- A transaction that was executed is of a kind that the builder accepts. -/
theorem TxEffect.enabled {tx : ZkSyncTx} (h : TxEffect env s tx r s') : r.executedOp.Enabled := by
  cases h <;> exact trivial

/-- So is a priority operation. -/
theorem PriorityEffect.enabled {op : ZkSyncPriorityOp} (h : PriorityEffect s op r s') :
    r.executedOp.Enabled := by
  cases h <;> exact trivial

/-- Nobody has signed a priority operation. -/
theorem PriorityEffect.signer {op : ZkSyncPriorityOp} (h : PriorityEffect s op r s') :
    r.executedOp.signer = none := by
  cases h <;> rfl

/-- The nonce a transaction declares, if its operation has it in its public data. -/
def ZkSyncOp.DeclaresIn (s : ZkSyncState) : ZkSyncOp → Prop
  | .ChangePubKeyOffchain op => op.tx.nonce = (s.content op.accountId).nonce
  | _ => True

/-- The operation declares the nonce that its account has. -/
theorem TxEffect.declares {tx : ZkSyncTx} (h : TxEffect env s tx r s') :
    r.executedOp.DeclaresIn s := by
  cases h with
  | changePubKey _ account _ _ _ nonce_eq =>
    show _ = (s.content _).nonce
    rw [ZkSyncState.content_of_getAccount account]
    exact nonce_eq
  | _ => exact trivial

/-- A priority operation declares none. -/
theorem PriorityEffect.declares {op : ZkSyncPriorityOp} (h : PriorityEffect s op r s') :
    r.executedOp.DeclaresIn s := by
  cases h <;> exact trivial

end States

/-! ## The loop of the builder -/

section Loop

variable {H : Hasher Fr} {tree tree' : CircuitAccountTree} {s s' : ZkSyncState}
  {ops ops' : List ZkSyncOp} {op : ZkSyncOp} {accum accum' added : BlockAccum}

/-- The builder works through operations in their order. -/
theorem witnessOperations_append_eq_ok :
    witnessOperations H accum tree (ops ++ ops') = .ok (accum', tree') ↔
      ∃ accum₁ tree₁, witnessOperations H accum tree ops = .ok (accum₁, tree₁) ∧
        witnessOperations H accum₁ tree₁ ops' = .ok (accum', tree') := by
  induction ops generalizing accum tree with
  | nil =>
    constructor
    · intro h
      exact ⟨accum, tree, rfl, h⟩
    · rintro ⟨accum₁, tree₁, h, h'⟩
      cases h
      exact h'
  | cons first ops ih =>
    rw [List.cons_append, witnessOperations, witnessOperations]
    simp only [Outcome.bind_eq_ok]
    constructor
    · rintro ⟨⟨added, tree₀⟩, hfirst, h⟩
      obtain ⟨accum₁, tree₁, hops, h'⟩ := ih.mp h
      exact ⟨accum₁, tree₁, ⟨(added, tree₀), hfirst, hops⟩, h'⟩
    · rintro ⟨accum₁, tree₁, ⟨⟨added, tree₀⟩, hfirst, hops⟩, h'⟩
      exact ⟨(added, tree₀), hfirst, ih.mpr ⟨accum₁, tree₁, hops, h'⟩⟩

/-- Every key change finds the nonce it declares, in the tree that the rounds before it
leave. -/
def Declared (H : Hasher Fr) : CircuitAccountTree → List ZkSyncOp → Prop
  | _, [] => True
  | tree, op :: ops => op.Enabled ∧ NonceDeclared H tree op ∧
    ∀ added tree', witnessOperation H tree op = .ok (added, tree') → Declared H tree' ops

/-- One more operation, which declares the nonce of the tree behind the others. -/
theorem Declared.push (h : Declared H tree ops) (hop : op.Enabled)
    (hnonce : ∀ accum' tree', witnessOperations H accum tree ops = .ok (accum', tree') →
      NonceDeclared H tree' op) : Declared H tree (ops ++ [op]) := by
  induction ops generalizing accum tree with
  | nil => exact ⟨hop, hnonce accum tree rfl, fun _ _ _ => trivial⟩
  | cons first ops ih =>
    obtain ⟨hfirst, hdeclared, hrest⟩ := h
    refine ⟨hfirst, hdeclared, fun added tree₁ hround => ?_⟩
    have hafter : ∀ accum' tree',
        witnessOperations H (accum.extend added) tree₁ ops = .ok (accum', tree') →
        NonceDeclared H tree' op := by
      intro accum' tree' hloop
      refine hnonce accum' tree' ?_
      rw [witnessOperations, hround]
      exact hloop
    exact ih (hrest added tree₁ hround) hafter

/-- What is declared of all operations is declared of the later ones. -/
theorem Declared.drop (h : Declared H tree (ops ++ ops'))
    (hloop : witnessOperations H accum tree ops = .ok (accum', tree')) : Declared H tree' ops' := by
  induction ops generalizing accum tree with
  | nil =>
    cases hloop
    exact h
  | cons first ops ih =>
    rw [witnessOperations, Outcome.bind_eq_ok] at hloop
    obtain ⟨⟨added, tree₁⟩, hround, hloop⟩ := hloop
    exact ih (h.2.2 added tree₁ hround) hloop

/-- The loop writes the bits of the public data. -/
theorem Declared.pubData (h : Declared H tree ops)
    (hloop : witnessOperations H accum tree ops = .ok (accum', tree')) {data : Bytes}
    (hdata : publicDataOf ops = .ok data) :
    accum'.pubData = accum.pubData ++ fromBeBytes data ∧
      accum'.operations.length = accum.operations.length + chunksOfOps ops := by
  induction ops generalizing accum tree data with
  | nil =>
    cases hloop
    cases hdata
    exact ⟨(List.append_nil _).symm, rfl⟩
  | cons op ops ih =>
    obtain ⟨hop, hnonce, hrest⟩ := h
    rw [witnessOperations, Outcome.bind_eq_ok] at hloop
    obtain ⟨⟨added, tree₁⟩, hround, hloop⟩ := hloop
    obtain ⟨first, hfirst, hdata⟩ := Outcome.bind_eq_ok.mp hdata
    obtain ⟨rest, hrestData, hdata⟩ := Outcome.bind_eq_ok.mp hdata
    cases hdata
    have hnoop : op ≠ .Noop := by
      rintro rfl
      exact hop
    obtain ⟨hbits, hlength⟩ := witnessOperation_pubData hnoop hnonce hfirst hround
    obtain ⟨hpubData, hcount⟩ := ih (hrest added tree₁ hround) hloop hrestData
    constructor
    · rw [hpubData, fromBeBytes_append, ← hbits]
      exact List.append_assoc _ _ _
    · rw [hcount]
      unfold BlockAccum.extend chunksOfOps
      rw [List.length_append, hlength, List.map_cons, List.sum_cons, Nat.add_assoc]

end Loop

/-! ## Along a block -/

/-- The tree has the nonces of the state. -/
structure NoncesShow (H : Hasher Fr) (n : Nat) (tree : CircuitAccountTree) (s : ZkSyncState) :
    Prop where
  ok : CircuitTreeOk H tree
  nonce : ∀ id, (nonceAt H tree id).val % 2 ^ 32 = (s.content id).nonce.toNat
  nonce_lt : ∀ id, (nonceAt H tree id).val < 2 ^ 32 + n

/-- The tree that the builder has after these operations has the nonces of the state. -/
structure NoncesFollow (H : Hasher Fr) (tree₀ : CircuitAccountTree) (s : ZkSyncState)
    (ops : List ZkSyncOp) : Prop where
  shown : ops.length < 2 ^ 64 → ∀ accum tree,
    witnessOperations H .empty tree₀ ops = .ok (accum, tree) → NoncesShow H ops.length tree s
  declared : ops.length < 2 ^ 64 → Declared H tree₀ ops

section Block

variable {H : Hasher Fr} {n : Nat} {tree tree₀ tree' : CircuitAccountTree} {s s' : ZkSyncState}
  {ops : List ZkSyncOp} {op : ZkSyncOp}

/-- A tree that shows the accounts shows their nonces. -/
theorem TreeShows.nonces (h : TreeShows H n tree s.content) : NoncesShow H n tree s :=
  ⟨h.ok, fun id => (h.accounts id).nonce, fun id => (h.accounts id).nonce_lt⟩

/-- So a nonce that is right in the state is right in the tree. -/
theorem NoncesShow.declared (h : NoncesShow H n tree s) (hop : op.DeclaresIn s) :
    NonceDeclared H tree op := by
  cases op with
  | ChangePubKeyOffchain op =>
    have hdeclares : op.tx.nonce = (s.content op.accountId).nonce := hop
    show (nonceAt H tree op.accountId).val % 2 ^ 32 = op.tx.nonce.toNat
    rw [h.nonce, hdeclares]
  | _ => exact trivial

/-- Tree and state count up the same nonce. -/
theorem NoncesShow.raised (h : NoncesShow H n tree s) (hn : n < 2 ^ 64) {signer : Option AccountId}
    (htree : NonceRaised H tree tree' signer) (hstate : ∀ id, (s'.content id).nonce =
      if signer = some id then (s.content id).nonce + 1 else (s.content id).nonce) :
    NoncesShow H (n + 1) tree' s' := by
  have hboth : ∀ id, (nonceAt H tree' id).val % 2 ^ 32 = (s'.content id).nonce.toNat ∧
      (nonceAt H tree' id).val < 2 ^ 32 + (n + 1) := by
    intro id
    rw [htree.nonce, hstate]
    have hlt := h.nonce_lt id
    by_cases hid : signer = some id
    · rw [if_pos hid, if_pos hid]
      exact nextNonce (h.nonce id) hlt hn
    · rw [if_neg hid, if_neg hid]
      exact ⟨h.nonce id, by omega⟩
  exact ⟨htree.ok, fun id => (hboth id).1, fun id => (hboth id).2⟩

/-- One more operation. -/
theorem NoncesFollow.push (h : NoncesFollow H tree₀ s ops) (hop : op.Enabled)
    (hdeclares : op.DeclaresIn s) (hstate : ∀ id, (s'.content id).nonce =
      if op.signer = some id then (s.content id).nonce + 1 else (s.content id).nonce) :
    NoncesFollow H tree₀ s' (ops ++ [op]) := by
  refine ⟨fun hlength accum tree hloop => ?_, fun hlength => ?_⟩
  · rw [List.length_append, List.length_singleton] at hlength ⊢
    obtain ⟨accum₁, tree₁, hfront, hlast⟩ := witnessOperations_append_eq_ok.mp hloop
    rw [witnessOperations, Outcome.bind_eq_ok] at hlast
    obtain ⟨⟨added, tree₂⟩, hround, hlast⟩ := hlast
    cases hlast
    have hshow := h.shown (by omega) accum₁ tree₁ hfront
    exact hshow.raised (by omega) (witnessOperation_nonce hshow.ok hop hround) hstate
  · rw [List.length_append, List.length_singleton] at hlength
    exact (h.declared (by omega)).push hop fun accum' tree' hloop =>
      (h.shown (by omega) accum' tree' hloop).declared hdeclares

/-- The tree of the builder keeps up with the nonces, operation by operation. -/
theorem noncesFollow_kept {env : Env} (hz : env.NoZeroSigner) (tree₀ : CircuitAccountTree) :
    KeptWithin env fun s ops _ => NoncesFollow env.hasher tree₀ s ops where
  tx h _ heff := h.push heff.enabled heff.declares (heff.nonce hz)
  priorityOp h heff := by
    refine h.push heff.enabled heff.declares fun id => ?_
    rw [heff.signer, if_neg (by simp)]
    exact heff.nonce id
  undone h hmirrors := by
    refine ⟨fun hlength accum tree hloop => ?_, h.declared⟩
    have hshow := h.shown hlength accum tree hloop
    refine ⟨hshow.ok, fun id => ?_, hshow.nonce_lt⟩
    rw [hshow.nonce]
    exact congrArg UInt32.toNat (hmirrors.content id).nonce

/-- Before the first operation the tree is that of the state. -/
theorem noncesFollow_nil (h : TreeShows H 0 tree₀ s.content) : NoncesFollow H tree₀ s [] := by
  refine ⟨fun _ accum tree hloop => ?_, fun _ => trivial⟩
  cases hloop
  exact h.nonces

end Block

end ZkSync
