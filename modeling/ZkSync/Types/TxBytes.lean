import ZkSync.Types.PublicData

/-!
# The bytes users sign

`get_bytes` of each transaction in `zksync_types::tx`: the type of the transaction
and its fields, one after the other. The key of the account signs these bytes, and
the hash of the transaction is taken over them.

Every field has a width that depends on the type alone, and the type comes first, so
the bytes determine the fields in them (`signedFields_eq_of_getBytes`): two
transactions with the same bytes are of one kind, and agree on all that is signed.
Amounts are signed in their packed form, except that of a withdrawal.
-/

namespace ZkSync

/-! ## Types -/

def Transfer.TX_TYPE : UInt8 := 5
def Withdraw.TX_TYPE : UInt8 := 3
def Close.TX_TYPE : UInt8 := 4
def ChangePubKey.TX_TYPE : UInt8 := 7
def ForcedExit.TX_TYPE : UInt8 := 8

/-- The first byte of what is signed. -/
def ZkSyncTx.txType : ZkSyncTx → UInt8
  | .Transfer _ => Transfer.TX_TYPE
  | .Withdraw _ => Withdraw.TX_TYPE
  | .Close _ => Close.TX_TYPE
  | .ChangePubKey _ => ChangePubKey.TX_TYPE
  | .ForcedExit _ => ForcedExit.TX_TYPE

/-! ## `get_bytes` -/

/-- `get_bytes`: what the sender signs. -/
def Transfer.getBytes (tx : Transfer) : Outcome Bytes := do
  let amount ← packTokenAmount tx.amount
  let fee ← packFeeAmount tx.fee
  return List.flatten [[TX_TYPE], u32Bytes tx.accountId, addressBytes tx.fromAddress,
    addressBytes tx.toAddress, u16Bytes tx.token, amount, fee, u32Bytes tx.nonce]

/-- The amount of a withdrawal is not packed. -/
def Withdraw.getBytes (tx : Withdraw) : Outcome Bytes := do
  let amount ← u128Bytes tx.amount
  let fee ← packFeeAmount tx.fee
  return List.flatten [[TX_TYPE], u32Bytes tx.accountId, addressBytes tx.fromAddress,
    addressBytes tx.toAddress, u16Bytes tx.token, amount, fee, u32Bytes tx.nonce]

/-- `get_bytes`: nothing of it can fail. -/
def Close.getBytes (tx : Close) : Bytes :=
  List.flatten [[TX_TYPE], addressBytes tx.account, u32Bytes tx.nonce]

/-- `get_bytes`: the Ethereum signature is not part of it. -/
def ChangePubKey.getBytes (tx : ChangePubKey) : Outcome Bytes := do
  let fee ← packFeeAmount tx.fee
  return List.flatten [[TX_TYPE], u32Bytes tx.accountId, addressBytes tx.account,
    addressBytes tx.newPkHash, u16Bytes tx.feeToken, fee, u32Bytes tx.nonce]

/-- `get_bytes`: what the initiator signs. -/
def ForcedExit.getBytes (tx : ForcedExit) : Outcome Bytes := do
  let fee ← packFeeAmount tx.fee
  return List.flatten [[TX_TYPE], u32Bytes tx.initiatorAccountId, addressBytes tx.target,
    u16Bytes tx.token, fee, u32Bytes tx.nonce]

/-- Every kind has bytes of its own. -/
def ZkSyncTx.getBytes : ZkSyncTx → Outcome Bytes
  | .Transfer tx => tx.getBytes
  | .Withdraw tx => tx.getBytes
  | .Close tx => .ok tx.getBytes
  | .ChangePubKey tx => tx.getBytes
  | .ForcedExit tx => tx.getBytes

/-! ### When there are signed bytes -/

/-- A packable fee is packed without a panic. -/
theorem IsFeeAmountPackable.packs {fee : Nat} (h : IsFeeAmountPackable fee) :
    (packFeeAmount fee).Succeeds :=
  ⟨_, h.choose_spec.1⟩

/-- So is a packable amount. -/
theorem IsTokenAmountPackable.packs {amount : Nat} (h : IsTokenAmountPackable amount) :
    (packTokenAmount amount).Succeeds :=
  ⟨_, h.choose_spec.1⟩

/-- A transfer has bytes if both amounts can be packed. -/
theorem Transfer.succeeds_getBytes {tx : Transfer} (hamount : (packTokenAmount tx.amount).Succeeds)
    (hfee : (packFeeAmount tx.fee).Succeeds) : tx.getBytes.Succeeds := by
  obtain ⟨amount, hamount⟩ := hamount
  obtain ⟨fee, hfee⟩ := hfee
  unfold getBytes
  rw [hamount, hfee]
  exact ⟨_, rfl⟩

/-- A withdrawal has bytes if its fee can be packed. -/
theorem Withdraw.succeeds_getBytes {tx : Withdraw} (hamount : tx.amount < u128Bound)
    (hfee : (packFeeAmount tx.fee).Succeeds) : tx.getBytes.Succeeds := by
  obtain ⟨fee, hfee⟩ := hfee
  unfold getBytes
  rw [u128Bytes_eq hamount, hfee]
  exact ⟨_, rfl⟩

/-- Nothing but the fee of a key change can go wrong. -/
theorem ChangePubKey.succeeds_getBytes {tx : ChangePubKey} :
    tx.getBytes.Succeeds ↔ (packFeeAmount tx.fee).Succeeds := by
  unfold getBytes
  constructor
  · rintro ⟨bytes, h⟩
    obtain ⟨fee, hfee, -⟩ := Outcome.bind_eq_ok.mp h
    exact ⟨fee, hfee⟩
  · rintro ⟨fee, hfee⟩
    rw [hfee]
    exact ⟨_, rfl⟩

/-- The same for a forced exit. -/
theorem ForcedExit.succeeds_getBytes {tx : ForcedExit} (hfee : (packFeeAmount tx.fee).Succeeds) :
    tx.getBytes.Succeeds := by
  obtain ⟨fee, hfee⟩ := hfee
  unfold getBytes
  rw [hfee]
  exact ⟨_, rfl⟩

/-! ## What is signed -/

/-- The fields that are in the signed bytes, amounts and fees as they are packed. -/
inductive SignedFields where
  | Transfer (accountId : AccountId) (fromAddress toAddress : Address) (token : TokenId)
    (amount fee : Outcome Bytes) (nonce : Nonce)
  | Withdraw (accountId : AccountId) (fromAddress toAddress : Address) (token : TokenId)
    (amount : Nat) (fee : Outcome Bytes) (nonce : Nonce)
  | Close (account : Address) (nonce : Nonce)
  | ChangePubKey (accountId : AccountId) (account : Address) (newPkHash : PubKeyHash)
    (feeToken : TokenId) (fee : Outcome Bytes) (nonce : Nonce)
  | ForcedExit (initiatorAccountId : AccountId) (target : Address) (token : TokenId)
    (fee : Outcome Bytes) (nonce : Nonce)

/-- What a signature of a transfer stands for. -/
def Transfer.signedFields (tx : Transfer) : SignedFields :=
  .Transfer tx.accountId tx.fromAddress tx.toAddress tx.token (packTokenAmount tx.amount)
    (packFeeAmount tx.fee) tx.nonce

def Withdraw.signedFields (tx : Withdraw) : SignedFields :=
  .Withdraw tx.accountId tx.fromAddress tx.toAddress tx.token tx.amount (packFeeAmount tx.fee)
    tx.nonce

def Close.signedFields (tx : Close) : SignedFields := .Close tx.account tx.nonce

def ChangePubKey.signedFields (tx : ChangePubKey) : SignedFields :=
  .ChangePubKey tx.accountId tx.account tx.newPkHash tx.feeToken (packFeeAmount tx.fee) tx.nonce

def ForcedExit.signedFields (tx : ForcedExit) : SignedFields :=
  .ForcedExit tx.initiatorAccountId tx.target tx.token (packFeeAmount tx.fee) tx.nonce

/-- What a signature stands for. -/
def ZkSyncTx.signedFields : ZkSyncTx → SignedFields
  | .Transfer tx => tx.signedFields
  | .Withdraw tx => tx.signedFields
  | .Close tx => tx.signedFields
  | .ChangePubKey tx => tx.signedFields
  | .ForcedExit tx => tx.signedFields

/-! ## The bytes determine the fields -/

/-- Different numbers have different bytes. -/
theorem u32Bytes_inj {n n' : UInt32} (h : u32Bytes n = u32Bytes n') : n = n' :=
  Option.some.inj (by rw [← u32FromBytes_u32Bytes n, h, u32FromBytes_u32Bytes])

theorem u16Bytes_inj {n n' : UInt16} (h : u16Bytes n = u16Bytes n') : n = n' :=
  Option.some.inj (by rw [← u16FromBytes_u16Bytes n, h, u16FromBytes_u16Bytes])

/-- Different addresses have different bytes. -/
theorem addressBytes_inj {a a' : BitVec 160} (h : addressBytes a = addressBytes a') : a = a' :=
  have hlt : ∀ a : BitVec 160, a.toNat < 256 ^ 20 := fun a => a.isLt
  BitVec.eq_of_toNat_eq ((Bytes.toBytesBE_inj (hlt a) (hlt a')).mp h)

/-- Fields of the same widths, one after the other, are the same if their bytes are. -/
theorem fields_eq_of_flatten {fields fields' : List Bytes}
    (hwidths : fields.map List.length = fields'.map List.length)
    (h : fields.flatten = fields'.flatten) : fields = fields' :=
  List.eq_iff_flatten_eq.mpr ⟨h, hwidths⟩

/-- The type is the first byte. -/
theorem ZkSyncTx.head_getBytes {tx : ZkSyncTx} {bytes : Bytes} (h : tx.getBytes = .ok bytes) :
    bytes.head? = some tx.txType := by
  cases tx with
  | Transfer tx =>
    obtain ⟨amount, -, h⟩ := Outcome.bind_eq_ok.mp h
    obtain ⟨fee, -, h⟩ := Outcome.bind_eq_ok.mp h
    rw [← Except.ok.inj h]
    rfl
  | Withdraw tx =>
    obtain ⟨amount, -, h⟩ := Outcome.bind_eq_ok.mp h
    obtain ⟨fee, -, h⟩ := Outcome.bind_eq_ok.mp h
    rw [← Except.ok.inj h]
    rfl
  | Close tx =>
    rw [← Except.ok.inj h]
    rfl
  | ChangePubKey tx =>
    obtain ⟨fee, -, h⟩ := Outcome.bind_eq_ok.mp h
    rw [← Except.ok.inj h]
    rfl
  | ForcedExit tx =>
    obtain ⟨fee, -, h⟩ := Outcome.bind_eq_ok.mp h
    rw [← Except.ok.inj h]
    rfl

section SameKind

variable {bytes : Bytes}

/-- Who signs the bytes signs these fields and no others. -/
theorem Transfer.signedFields_eq {tx tx' : Transfer} (h : tx.getBytes = .ok bytes)
    (h' : tx'.getBytes = .ok bytes) :
    tx.signedFields = tx'.signedFields := by
  obtain ⟨amount, hamount, h⟩ := Outcome.bind_eq_ok.mp h
  obtain ⟨fee, hfee, h⟩ := Outcome.bind_eq_ok.mp h
  obtain ⟨amount', hamount', h'⟩ := Outcome.bind_eq_ok.mp h'
  obtain ⟨fee', hfee', h'⟩ := Outcome.bind_eq_ok.mp h'
  have hfields := fields_eq_of_flatten
    (by simp [length_packTokenAmount hamount, length_packTokenAmount hamount',
      length_packFeeAmount hfee, length_packFeeAmount hfee'])
    (Except.ok.inj (h.trans h'.symm))
  simp only [List.cons.injEq, true_and, and_true] at hfields
  obtain ⟨hid, hfrom, hto, htoken, rfl, rfl, hnonce⟩ := hfields
  unfold signedFields
  rw [u32Bytes_inj hid, addressBytes_inj hfrom, addressBytes_inj hto, u16Bytes_inj htoken,
    hamount, hamount', hfee, hfee', u32Bytes_inj hnonce]

/-- The same for a withdrawal. -/
theorem Withdraw.signedFields_eq {tx tx' : Withdraw} (h : tx.getBytes = .ok bytes)
    (h' : tx'.getBytes = .ok bytes) :
    tx.signedFields = tx'.signedFields := by
  obtain ⟨amount, hamount, h⟩ := Outcome.bind_eq_ok.mp h
  obtain ⟨fee, hfee, h⟩ := Outcome.bind_eq_ok.mp h
  obtain ⟨amount', hamount', h'⟩ := Outcome.bind_eq_ok.mp h'
  obtain ⟨fee', hfee', h'⟩ := Outcome.bind_eq_ok.mp h'
  obtain ⟨hlt, hbytes⟩ := u128Bytes_eq_ok hamount
  obtain ⟨hlt', hbytes'⟩ := u128Bytes_eq_ok hamount'
  have hfields := fields_eq_of_flatten
    (by simp [hbytes, hbytes', Bytes.length_toBytesBE, length_packFeeAmount hfee,
      length_packFeeAmount hfee'])
    (Except.ok.inj (h.trans h'.symm))
  simp only [List.cons.injEq, true_and, and_true] at hfields
  obtain ⟨hid, hfrom, hto, htoken, hamounts, rfl, hnonce⟩ := hfields
  rw [hbytes, hbytes'] at hamounts
  unfold signedFields
  rw [u32Bytes_inj hid, addressBytes_inj hfrom, addressBytes_inj hto, u16Bytes_inj htoken,
    (Bytes.toBytesBE_inj hlt hlt').mp hamounts, hfee, hfee', u32Bytes_inj hnonce]

/-- The same for an account that is closed. -/
theorem Close.signedFields_eq {tx tx' : Close} (h : tx.getBytes = bytes)
    (h' : tx'.getBytes = bytes) :
    tx.signedFields = tx'.signedFields := by
  have hfields := fields_eq_of_flatten (by simp) (h.trans h'.symm)
  simp only [List.cons.injEq, true_and, and_true] at hfields
  obtain ⟨haccount, hnonce⟩ := hfields
  unfold signedFields
  rw [addressBytes_inj haccount, u32Bytes_inj hnonce]

/-- The same for a key change. -/
theorem ChangePubKey.signedFields_eq {tx tx' : ChangePubKey} (h : tx.getBytes = .ok bytes)
    (h' : tx'.getBytes = .ok bytes) :
    tx.signedFields = tx'.signedFields := by
  obtain ⟨fee, hfee, h⟩ := Outcome.bind_eq_ok.mp h
  obtain ⟨fee', hfee', h'⟩ := Outcome.bind_eq_ok.mp h'
  have hfields := fields_eq_of_flatten
    (by simp [length_packFeeAmount hfee, length_packFeeAmount hfee'])
    (Except.ok.inj (h.trans h'.symm))
  simp only [List.cons.injEq, true_and, and_true] at hfields
  obtain ⟨hid, haccount, hkey, htoken, rfl, hnonce⟩ := hfields
  unfold signedFields
  rw [u32Bytes_inj hid, addressBytes_inj haccount, addressBytes_inj hkey, u16Bytes_inj htoken,
    hfee, hfee', u32Bytes_inj hnonce]

/-- The same for a forced exit. -/
theorem ForcedExit.signedFields_eq {tx tx' : ForcedExit} (h : tx.getBytes = .ok bytes)
    (h' : tx'.getBytes = .ok bytes) :
    tx.signedFields = tx'.signedFields := by
  obtain ⟨fee, hfee, h⟩ := Outcome.bind_eq_ok.mp h
  obtain ⟨fee', hfee', h'⟩ := Outcome.bind_eq_ok.mp h'
  have hfields := fields_eq_of_flatten
    (by simp [length_packFeeAmount hfee, length_packFeeAmount hfee'])
    (Except.ok.inj (h.trans h'.symm))
  simp only [List.cons.injEq, true_and, and_true] at hfields
  obtain ⟨hid, htarget, htoken, rfl, hnonce⟩ := hfields
  unfold signedFields
  rw [u32Bytes_inj hid, addressBytes_inj htarget, u16Bytes_inj htoken, hfee, hfee',
    u32Bytes_inj hnonce]

end SameKind

/-- Transactions with the same signed bytes are of one kind and agree on what is signed. -/
theorem ZkSyncTx.signedFields_eq_of_getBytes {tx tx' : ZkSyncTx} {bytes : Bytes}
    (h : tx.getBytes = .ok bytes) (h' : tx'.getBytes = .ok bytes) :
    tx.signedFields = tx'.signedFields := by
  have htype : tx.txType = tx'.txType :=
    Option.some.inj ((head_getBytes h).symm.trans (head_getBytes h'))
  cases tx with
  | Transfer tx =>
    cases tx' with
    | Transfer tx' => exact Transfer.signedFields_eq h h'
    | Withdraw _ | Close _ | ChangePubKey _ | ForcedExit _ => cases htype
  | Withdraw tx =>
    cases tx' with
    | Withdraw tx' => exact Withdraw.signedFields_eq h h'
    | Transfer _ | Close _ | ChangePubKey _ | ForcedExit _ => cases htype
  | Close tx =>
    cases tx' with
    | Close tx' => exact Close.signedFields_eq (Except.ok.inj h) (Except.ok.inj h')
    | Transfer _ | Withdraw _ | ChangePubKey _ | ForcedExit _ => cases htype
  | ChangePubKey tx =>
    cases tx' with
    | ChangePubKey tx' => exact ChangePubKey.signedFields_eq h h'
    | Transfer _ | Withdraw _ | Close _ | ForcedExit _ => cases htype
  | ForcedExit tx =>
    cases tx' with
    | ForcedExit tx' => exact ForcedExit.signedFields_eq h h'
    | Transfer _ | Withdraw _ | Close _ | ChangePubKey _ => cases htype

end ZkSync
