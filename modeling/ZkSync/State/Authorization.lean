import ZkSync.State.Writes

/-!
# Authorization

Who may lose what when a transaction succeeds. `AuthorizedFrame` is the whole
answer: one account authorised the transaction, the account of the id it
declares; every other account keeps its nonce, its key and its balances, but
for the one balance a forced exit takes from its locked target.

Handlers look accounts up by address and by declared id. The index invariant
(`reachable_indexed`) ties the two together.
-/

namespace ZkSync

/-- The account authorised the transaction: its key signed, or, for a change of
the key, it is the account the transaction names by address. -/
def Authorises (env : Env) (a : Account) : ZkSyncTx → Prop
  | .ChangePubKey tx => a.address = tx.account
  | tx => env.verifySignature tx = some a.pubKeyHash

/-- What a transaction from `s` to `s'` may change. -/
structure AuthorizedFrame (env : Env) (s : ZkSyncState) (tx : ZkSyncTx) (s' : ZkSyncState) :
    Prop where
  /-- The declared sender exists and authorised the transaction. -/
  sender : ∃ i a, tx.senderId = some i ∧ s.getAccount i = some a ∧ Authorises env a tx
  /-- No account vanishes or changes its address. -/
  address : ∀ id a, s.getAccount id = some a →
    ∃ a', s'.getAccount id = some a' ∧ a'.address = a.address
  /-- The nonce and the key of any other account stay. -/
  keeps : ∀ id a a', tx.senderId ≠ some id → s.getAccount id = some a →
    s'.getAccount id = some a' → a'.nonce = a.nonce ∧ a'.pubKeyHash = a.pubKeyHash
  /-- A balance of any other account goes down only when a forced exit takes all
  of it from its locked target. -/
  funds : ∀ id a a' token, tx.senderId ≠ some id → s.getAccount id = some a →
    s'.getAccount id = some a' → a'.getBalance token < a.getBalance token →
    ∃ fx, tx = .ForcedExit fx ∧ token = fx.token ∧ a.address = fx.target ∧
      a.pubKeyHash = 0 ∧ a'.getBalance token = 0
  /-- Nothing changes but the sender, the recipient of a transfer and the target
  of a forced exit. -/
  changed : ∀ id, s'.getAccount id ≠ s.getAccount id → tx.senderId = some id ∨
    (∃ t a', tx = .Transfer t ∧ s'.getAccount id = some a' ∧ a'.address = t.toAddress) ∨
    (∃ fx a, tx = .ForcedExit fx ∧ s.getAccount id = some a ∧ a.address = fx.target)

section Frame

variable {env : Env} {s s' : ZkSyncState}

/-- A transaction that writes its sender only. -/
theorem frame_of_sender {tx : ZkSyncTx} {i : AccountId} {a a' : Account}
    (hsender : tx.senderId = some i) (ha : s.getAccount i = some a)
    (hauth : Authorises env a tx) (hadr : a'.address = a.address) :
    AuthorizedFrame env s tx (s.insertAccount i a') := by
  have hne : ∀ {id : AccountId}, tx.senderId ≠ some id →
      (s.insertAccount i a').getAccount id = s.getAccount id := fun h =>
    s.getAccount_insertAccount_of_ne i a' fun he => h (he ▸ hsender)
  refine ⟨⟨i, a, hsender, ha, hauth⟩, fun id b hb => ?_, fun id b b' hid hb hb' => ?_,
    fun id b b' token hid hb hb' hlt => ?_, fun id hc => Or.inl ?_⟩
  · by_cases hid : id = i
    · subst hid
      rw [ha] at hb
      obtain rfl := Option.some.inj hb
      exact ⟨a', s.getAccount_insertAccount_self id a', hadr⟩
    · exact ⟨b, by rw [s.getAccount_insertAccount_of_ne i a' hid, hb], rfl⟩
  · rw [hne hid, hb] at hb'
    obtain rfl := Option.some.inj hb'
    exact ⟨rfl, rfl⟩
  · rw [hne hid, hb] at hb'
    obtain rfl := Option.some.inj hb'
    exact absurd hlt (Nat.lt_irrefl _)
  · by_cases hid : id = i
    · rw [hid, hsender]
    · exact absurd (s.getAccount_insertAccount_of_ne i a' hid) hc

/-- A transaction that writes its sender `i` and then another account `j`:
besides what is to be said of `j`, it is framed as if it wrote the sender
only. -/
theorem frame_of_two {tx : ZkSyncTx} {i j : AccountId} {a a' b' : Account}
    (hsender : tx.senderId = some i) (ha : s.getAccount i = some a)
    (hauth : Authorises env a tx) (hadr : a'.address = a.address)
    (hadr' : ∀ b, s.getAccount j = some b → b'.address = b.address)
    (hkeeps : ∀ b, i ≠ j → s.getAccount j = some b →
      b'.nonce = b.nonce ∧ b'.pubKeyHash = b.pubKeyHash)
    (hfunds : ∀ b token, i ≠ j → s.getAccount j = some b →
      b'.getBalance token < b.getBalance token → ∃ fx, tx = .ForcedExit fx ∧ token = fx.token ∧
        b.address = fx.target ∧ b.pubKeyHash = 0 ∧ b'.getBalance token = 0)
    (hchanged : (∃ t, tx = .Transfer t ∧ b'.address = t.toAddress) ∨
      (∃ fx b, tx = .ForcedExit fx ∧ s.getAccount j = some b ∧ b.address = fx.target)) :
    AuthorizedFrame env s tx ((s.insertAccount i a').insertAccount j b') := by
  have hframe := frame_of_sender hsender ha hauth hadr
  -- the second write may hit the same account
  have hj : ((s.insertAccount i a').insertAccount j b').getAccount j = some b' :=
    (s.insertAccount i a').getAccount_insertAccount_self j b'
  have hoff : ∀ {id : AccountId}, id ≠ j →
      ((s.insertAccount i a').insertAccount j b').getAccount id =
        (s.insertAccount i a').getAccount id := fun h =>
    (s.insertAccount i a').getAccount_insertAccount_of_ne j b' h
  have hij : tx.senderId ≠ some j → i ≠ j := fun h he => h (he ▸ hsender)
  refine ⟨hframe.sender, fun id c hc => ?_, fun id c c' hid hc hc' => ?_,
    fun id c c' token hid hc hc' hlt => ?_, fun id hc => ?_⟩
  · by_cases hd : id = j
    · subst hd
      exact ⟨b', hj, hadr' c hc⟩
    · rw [hoff hd]
      exact hframe.address id c hc
  · by_cases hd : id = j
    · subst hd
      rw [hj] at hc'
      obtain rfl := Option.some.inj hc'
      exact hkeeps c (hij hid) hc
    · rw [hoff hd] at hc'
      exact hframe.keeps id c c' hid hc hc'
  · by_cases hd : id = j
    · subst hd
      rw [hj] at hc'
      obtain rfl := Option.some.inj hc'
      exact hfunds c token (hij hid) hc hlt
    · rw [hoff hd] at hc'
      exact hframe.funds id c c' token hid hc hc' hlt
  · by_cases hd : id = j
    · subst hd
      rcases hchanged with ⟨t, ht, hadr⟩ | ⟨fx, b, hfx, hb, hadr⟩
      · exact Or.inr (Or.inl ⟨t, b', ht, hj, hadr⟩)
      · exact Or.inr (Or.inr ⟨fx, b, hfx, hb, hadr⟩)
    · rw [hoff hd] at hc
      exact (hframe.changed id hc).imp_right fun h => by
        rcases h with ⟨t, c', ht, hc', hadr⟩ | h
        · exact Or.inl ⟨t, c', ht, by rw [hoff hd, hc'], hadr⟩
        · exact Or.inr h

/-- Crediting an account lowers none of its balances. -/
theorem addBalance_mono (a : Account) (token token' : TokenId) (amount : Nat) :
    a.getBalance token' ≤ (a.addBalance token amount).getBalance token' := by
  unfold Account.addBalance
  rw [Account.getBalance_setBalance]
  split
  next h =>
    rw [h]
    exact Nat.le_add_right _ _
  next => exact Nat.le_refl _

theorem TxEffect.frame {tx : ZkSyncTx} {r : OpSuccess} (hs : Indexed s)
    (h : TxEffect env s tx r s') : AuthorizedFrame env s tx s' := by
  cases h with
  | @transfer tx j a b sender _ target targetAccount =>
    have hb : ∀ {c}, s.getAccount j = some c → c = b := fun hc => by
      rw [targetAccount] at hc
      exact (Option.some.inj hc).symm
    refine frame_of_two rfl sender.account sender.signed rfl (fun c hc => by rw [hb hc]; rfl)
      (fun c _ hc => by rw [hb hc]; exact ⟨rfl, rfl⟩) (fun c token _ hc hlt => ?_)
      (Or.inl ⟨tx, rfl, ?_⟩)
    · rw [hb hc] at hlt
      exact absurd (addBalance_mono b _ _ _) (Nat.not_le_of_lt hlt)
    · obtain ⟨b₀, hb₀, hadr⟩ := hs _ _ target
      rw [← hadr, hb hb₀]
      rfl
  | transferToSelf sender => exact frame_of_sender rfl sender.account sender.signed rfl
  | @transferToNew tx a sender _ _ free =>
    -- the receiver did not exist before
    have hno : ∀ {c}, s.getAccount s.getFreeAccountId = some c → False := fun hc => by
      rw [free] at hc
      cases hc
    exact frame_of_two rfl sender.account sender.signed rfl (fun _ hc => (hno hc).elim)
      (fun _ _ hc => (hno hc).elim) (fun _ _ _ hc => (hno hc).elim) (Or.inl ⟨tx, rfl, rfl⟩)
  | withdraw sender => exact frame_of_sender rfl sender.account sender.signed rfl
  | changePubKey index account =>
    -- the account that changes its key is the only one touched
    obtain ⟨a₀, ha₀, hadr⟩ := hs _ _ index
    rw [account] at ha₀
    obtain rfl := Option.some.inj ha₀
    exact frame_of_sender rfl account hadr rfl
  | @forcedExit tx j a b _ account signed _ target targetAccount locked =>
    -- the target has no key, which is what allows it
    have hb : ∀ {c}, s.getAccount j = some c → c = b := fun hc => by
      rw [targetAccount] at hc
      exact (Option.some.inj hc).symm
    have hadr : b.address = tx.target := by
      obtain ⟨b₀, hb₀, hadr⟩ := hs _ _ target
      rw [← hadr, hb hb₀]
    refine frame_of_two rfl account signed rfl (fun c hc => by rw [hb hc]; rfl)
      (fun c _ hc => by rw [hb hc]; exact ⟨rfl, rfl⟩) (fun c token _ hc hlt => ?_)
      (Or.inr ⟨tx, b, rfl, targetAccount, hadr⟩)
    rw [hb hc] at hlt ⊢
    have hbal := Account.getBalance_setBalance b tx.token token 0
    by_cases ht : token = tx.token
    · rw [if_pos ht] at hbal
      exact ⟨tx, rfl, ht, hadr, locked, hbal⟩
    · rw [if_neg ht] at hbal
      exact absurd hlt (by rw [hbal]; exact Nat.lt_irrefl _)

/-- In every reachable state, a transaction that succeeds changes no more than
its frame allows. -/
theorem authorized (hs : Reachable env s) {tx : ZkSyncTx} {r : OpSuccess}
    (h : s.executeTx env tx = .ok (r, s')) : AuthorizedFrame env s tx s' :=
  (executeTx_effect h).frame (reachable_indexed hs)

end Frame

/-- A transfer to a new account. -/
theorem authorized_transferToNew :
    AuthorizedFrame (Env.signedBy 1) sampleState (.Transfer (sampleTransfer 2 0))
      sampleStateAfter :=
  authorized reachable_sampleState sampleState_executeTx

end ZkSync
