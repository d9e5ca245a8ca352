import ZkSync.Types.Packed
import ZkSync.Types.Tx

/-!
# The public data of operations

`zksync_types::operations`: every operation is written as a whole number of chunks
of nine bytes, an opcode and its fields at fixed offsets, padded with zeros, and
read back from there (`get_public_data`, `from_public_data`). What the data does not
carry (addresses of known accounts, nonces, signatures) the reader fills with
defaults; `ZkSyncOp.carried` are the fields it does carry.

For each operation, `fromPublicData_getPublicData` says that reading what was
written gives the operation back up to these defaults, `visible`. The readers are
written at hand-computed offsets, so each of these proofs steps over the fields in
front of every offset once.
-/

namespace ZkSync

open Bytes (ofBytesBE toBytesBE slice)

/-! ## Widths -/

/-- The bits of a chunk, the unit in which the circuit counts the public data of a block. -/
@[simp] def CHUNK_BIT_WIDTH : Nat := 72
@[simp] def CHUNK_BYTES : Nat := CHUNK_BIT_WIDTH / 8
@[simp] def ACCOUNT_ID_BIT_WIDTH : Nat := 32
@[simp] def TOKEN_BIT_WIDTH : Nat := 16
@[simp] def BALANCE_BIT_WIDTH : Nat := 128
@[simp] def ETH_ADDRESS_BIT_WIDTH : Nat := 160
@[simp] def ADDRESS_WIDTH : Nat := 160
@[simp] def NEW_PUBKEY_HASH_WIDTH : Nat := 160
@[simp] def NONCE_BIT_WIDTH : Nat := 32
@[simp] def FR_ADDRESS_LEN : Nat := 20
@[simp] def AMOUNT_EXPONENT_BIT_WIDTH : Nat := 5
@[simp] def AMOUNT_MANTISSA_BIT_WIDTH : Nat := 35
@[simp] def FEE_EXPONENT_BIT_WIDTH : Nat := 5
@[simp] def FEE_MANTISSA_BIT_WIDTH : Nat := 11

/-! ## Fields -/

/-- `to_be_bytes` of a `u32`. -/
def u32Bytes (n : UInt32) : Bytes := toBytesBE 4 n.toNat

/-- `to_be_bytes` of a `u16`. -/
def u16Bytes (n : UInt16) : Bytes := toBytesBE 2 n.toNat

/-- `as_bytes` of an address, and the `data` of a public key hash. -/
def addressBytes (address : BitVec 160) : Bytes := toBytesBE 20 address.toNat

/-- `to_u128().unwrap().to_be_bytes()`. -/
def u128Bytes (n : Nat) : Outcome Bytes := do
  let n ← Outcome.expect (toU128 n) "called Option::unwrap() on a None value"
  return toBytesBE 16 n

/-- `Vec::resize`, with zeros. -/
def resize (data : Bytes) (len : Nat) : Bytes :=
  (data ++ List.replicate (len - data.length) 0).take len

/-- `from_bytes`: the bytes are padded on the left to the width of the type. -/
def uintFromBytes (count : Nat) (bytes : Bytes) : Option Nat :=
  let bytes := List.replicate (count - bytes.length) 0 ++ bytes
  if bytes.length = count then some (ofBytesBE bytes) else none

def u16FromBytes (bytes : Bytes) : Option UInt16 := (uintFromBytes 2 bytes).map UInt16.ofNat

def u32FromBytes (bytes : Bytes) : Option UInt32 := (uintFromBytes 4 bytes).map UInt32.ofNat

def u128FromBytes (bytes : Bytes) : Option Nat := uintFromBytes 16 bytes

/-- `&bytes[start..start + len]`, which panics past the end. -/
def getRange (bytes : Bytes) (start len : Nat) : Outcome Bytes := do
  Outcome.assert (start + len ≤ bytes.length) "range end index out of range for slice"
  return slice bytes start len

/-- `Address::from_slice`, which panics on another length. -/
def addressFromSlice (bytes : Bytes) : Outcome Address := do
  Outcome.assert (bytes.length = 20) "assertion failed: src.len() == 20"
  return BitVec.ofNat 160 (ofBytesBE bytes)

/-- `PubKeyHash::from_bytes`. -/
def pubKeyHashFromBytes (bytes : Bytes) : Outcome PubKeyHash := do
  Outcome.ensure (bytes.length = FR_ADDRESS_LEN) "Size mismatch"
  return BitVec.ofNat 160 (ofBytesBE bytes)

section Fields

@[simp]
theorem length_u32Bytes (n : UInt32) : (u32Bytes n).length = 4 := Bytes.length_toBytesBE 4 _

@[simp]
theorem length_u16Bytes (n : UInt16) : (u16Bytes n).length = 2 := Bytes.length_toBytesBE 2 _

@[simp]
theorem length_addressBytes (address : BitVec 160) : (addressBytes address).length = 20 :=
  Bytes.length_toBytesBE 20 _

/-- Below the bound the full amount is written in sixteen bytes. -/
theorem u128Bytes_eq {n : Nat} (h : n < u128Bound) : u128Bytes n = .ok (toBytesBE 16 n) := by
  unfold u128Bytes toU128
  rw [if_pos h]
  rfl

/-- Nothing else is written: an amount that has bytes is below the bound. -/
theorem u128Bytes_eq_ok {n : Nat} {bytes : Bytes} (h : u128Bytes n = .ok bytes) :
    n < u128Bound ∧ bytes = toBytesBE 16 n := by
  by_cases hn : n < u128Bound
  · rw [u128Bytes_eq hn] at h
    exact ⟨hn, (Except.ok.inj h).symm⟩
  · unfold u128Bytes toU128 at h
    rw [if_neg hn] at h
    cases h

/-- Data that is too short is padded with zeros behind it. -/
theorem resize_eq {data : Bytes} {len : Nat} (h : data.length ≤ len) :
    resize data len = data ++ List.replicate (len - data.length) 0 := by
  rw [resize, List.take_of_length_le]
  rw [List.length_append, List.length_replicate]
  omega

theorem length_resize (data : Bytes) (len : Nat) : (resize data len).length = len := by
  rw [resize, List.length_take, List.length_append, List.length_replicate]
  omega

/-- A number that has room in its bytes is read back. -/
theorem uintFromBytes_toBytesBE {count n : Nat} (h : n < 256 ^ count) :
    uintFromBytes count (toBytesBE count n) = some n := by
  unfold uintFromBytes
  dsimp only
  rw [Bytes.length_toBytesBE, Nat.sub_self, List.replicate_zero, List.nil_append,
    Bytes.length_toBytesBE, if_pos rfl, Bytes.ofBytesBE_toBytesBE_of_lt h]

@[simp]
theorem u32FromBytes_u32Bytes (n : UInt32) : u32FromBytes (u32Bytes n) = some n := by
  rw [u32FromBytes, u32Bytes, uintFromBytes_toBytesBE n.toNat_lt, Option.map_some,
    UInt32.ofNat_toNat]

@[simp]
theorem u16FromBytes_u16Bytes (n : UInt16) : u16FromBytes (u16Bytes n) = some n := by
  rw [u16FromBytes, u16Bytes, uintFromBytes_toBytesBE n.toNat_lt, Option.map_some,
    UInt16.ofNat_toNat]

theorem u128FromBytes_toBytesBE {n : Nat} (h : n < u128Bound) :
    u128FromBytes (toBytesBE 16 n) = some n := by
  have hpow : u128Bound = 256 ^ 16 := Nat.pow_mul 2 8 16
  exact uintFromBytes_toBytesBE (hpow ▸ h)

theorem ofNat_addressBytes (address : BitVec 160) :
    BitVec.ofNat 160 (ofBytesBE (addressBytes address)) = address := by
  have hpow : (2 : Nat) ^ 160 = 256 ^ 20 := Nat.pow_mul 2 8 20
  rw [addressBytes, Bytes.ofBytesBE_toBytesBE_of_lt (hpow ▸ address.isLt), BitVec.ofNat_toNat,
    BitVec.setWidth_eq]

/-- A range within the data is its slice; beyond it the source panics. -/
@[simp]
theorem getRange_eq {bytes : Bytes} {start len : Nat} (h : start + len ≤ bytes.length) :
    getRange bytes start len = .ok (slice bytes start len) := by
  unfold getRange
  rw [Outcome.assert_ok _ h]
  rfl

/-- An address is read back from its own bytes. -/
@[simp]
theorem addressFromSlice_addressBytes (address : Address) :
    addressFromSlice (addressBytes address) = .ok address := by
  unfold addressFromSlice Outcome.assert
  rw [if_pos (length_addressBytes address), ofNat_addressBytes]
  rfl

/-- So is a key hash, which is written in the same way. -/
@[simp]
theorem pubKeyHashFromBytes_addressBytes (hash : PubKeyHash) :
    pubKeyHashFromBytes (addressBytes hash) = .ok hash := by
  have hlen : (addressBytes hash).length = FR_ADDRESS_LEN := length_addressBytes hash
  unfold pubKeyHashFromBytes Outcome.ensure
  rw [if_pos hlen, ofNat_addressBytes]
  rfl

end Fields

/-! ## Operations -/

/-- `TxSignature::default`, the signature of a transaction that carries none. -/
def TxSignature.default : TxSignature := ⟨0, 0⟩

namespace NoopOp

def OP_CODE : UInt8 := 0x00

def fromPublicData (bytes : Bytes) : Outcome Unit :=
  Outcome.ensure (bytes = List.replicate CHUNK_BYTES 0) "Wrong pubdata for noop operation"

def getPublicData : Bytes := resize [] (CHUNKS * CHUNK_BYTES)

end NoopOp

namespace DepositOp

def OP_CODE : UInt8 := 0x01

def getPublicData (op : DepositOp) : Outcome Bytes := do
  let amount ← u128Bytes op.priorityOp.amount
  return resize ([OP_CODE] ++ (u32Bytes op.accountId ++ (u16Bytes op.priorityOp.token ++
    (amount ++ addressBytes op.priorityOp.toAddress)))) (CHUNKS * CHUNK_BYTES)

def fromPublicData (bytes : Bytes) : Outcome DepositOp := do
  Outcome.ensure (bytes.length = CHUNKS * CHUNK_BYTES) "Wrong bytes length for deposit pubdata"
  let accountIdOffset := 1
  let tokenIdOffset := accountIdOffset + ACCOUNT_ID_BIT_WIDTH / 8
  let amountOffset := tokenIdOffset + TOKEN_BIT_WIDTH / 8
  let accountAddressOffset := amountOffset + BALANCE_BIT_WIDTH / 8
  let accountId ← Outcome.okOrElse
    (u32FromBytes (← getRange bytes accountIdOffset (ACCOUNT_ID_BIT_WIDTH / 8)))
    "Cant get account id from deposit pubdata"
  let token ← Outcome.okOrElse (u16FromBytes (← getRange bytes tokenIdOffset (TOKEN_BIT_WIDTH / 8)))
    "Cant get token id from deposit pubdata"
  let amount ← Outcome.okOrElse
    (u128FromBytes (← getRange bytes amountOffset (BALANCE_BIT_WIDTH / 8)))
    "Cant get amount from deposit pubdata"
  let toAddress ← addressFromSlice (← getRange bytes accountAddressOffset FR_ADDRESS_LEN)
  let fromAddress := 0
  return { priorityOp := { fromAddress, token, amount, toAddress }, accountId }

/-- The operation as far as the public data shows it. -/
def visible (op : DepositOp) : DepositOp :=
  { op with priorityOp := { op.priorityOp with fromAddress := 0 } }

end DepositOp

namespace TransferToNewOp

def OP_CODE : UInt8 := 0x02

def getPublicData (op : TransferToNewOp) : Outcome Bytes := do
  let amount ← packTokenAmount op.tx.amount
  let fee ← packFeeAmount op.tx.fee
  return resize ([OP_CODE] ++ (u32Bytes op.fromId ++ (u16Bytes op.tx.token ++ (amount ++
    (addressBytes op.tx.toAddress ++ (u32Bytes op.toId ++ fee)))))) (CHUNKS * CHUNK_BYTES)

def fromPublicData (bytes : Bytes) : Outcome TransferToNewOp := do
  Outcome.ensure (bytes.length = CHUNKS * CHUNK_BYTES)
    "Wrong bytes length for transfer to new pubdata"
  let fromOffset := 1
  let tokenIdOffset := fromOffset + ACCOUNT_ID_BIT_WIDTH / 8
  let amountOffset := tokenIdOffset + TOKEN_BIT_WIDTH / 8
  let toAddressOffset := amountOffset + (AMOUNT_EXPONENT_BIT_WIDTH + AMOUNT_MANTISSA_BIT_WIDTH) / 8
  let toIdOffset := toAddressOffset + FR_ADDRESS_LEN
  let feeOffset := toIdOffset + ACCOUNT_ID_BIT_WIDTH / 8
  let fromId ← Outcome.okOrElse
    (u32FromBytes (← getRange bytes fromOffset (ACCOUNT_ID_BIT_WIDTH / 8)))
    "Cant get from account id from transfer to new pubdata"
  let toId ← Outcome.okOrElse
    (u32FromBytes (← getRange bytes toIdOffset (ACCOUNT_ID_BIT_WIDTH / 8)))
    "Cant get to account id from transfer to new pubdata"
  let fromAddress := 0
  let toAddress ← addressFromSlice (← getRange bytes toAddressOffset FR_ADDRESS_LEN)
  let token ← Outcome.okOrElse (u16FromBytes (← getRange bytes tokenIdOffset (TOKEN_BIT_WIDTH / 8)))
    "Cant get token id from transfer to new pubdata"
  let amount ← Outcome.okOrElse (unpackTokenAmount
    (← getRange bytes amountOffset ((AMOUNT_EXPONENT_BIT_WIDTH + AMOUNT_MANTISSA_BIT_WIDTH) / 8)))
    "Cant get amount from transfer to new pubdata"
  let fee ← Outcome.okOrElse (unpackFeeAmount
    (← getRange bytes feeOffset ((FEE_EXPONENT_BIT_WIDTH + FEE_MANTISSA_BIT_WIDTH) / 8)))
    "Cant get fee from transfer to new pubdata"
  let nonce := 0
  return { tx := ⟨fromId, fromAddress, toAddress, token, amount, fee, nonce, TxSignature.default⟩
           fromId, toId }

def visible (op : TransferToNewOp) : TransferToNewOp :=
  { op with tx := { op.tx with
      accountId := op.fromId, fromAddress := 0, nonce := 0, signature := TxSignature.default } }

end TransferToNewOp

namespace WithdrawOp

def OP_CODE : UInt8 := 0x03
def WITHDRAW_DATA_PREFIX : Bytes := [1]

def getPublicData (op : WithdrawOp) : Outcome Bytes := do
  let amount ← u128Bytes op.tx.amount
  let fee ← packFeeAmount op.tx.fee
  return resize ([OP_CODE] ++ (u32Bytes op.accountId ++ (u16Bytes op.tx.token ++ (amount ++
    (fee ++ addressBytes op.tx.toAddress))))) (CHUNKS * CHUNK_BYTES)

def getWithdrawalData (op : WithdrawOp) : Outcome Bytes := do
  let amount ← u128Bytes op.tx.amount
  return WITHDRAW_DATA_PREFIX ++ (addressBytes op.tx.toAddress ++ (u16Bytes op.tx.token ++ amount))

def fromPublicData (bytes : Bytes) : Outcome WithdrawOp := do
  Outcome.ensure (bytes.length = CHUNKS * CHUNK_BYTES) "Wrong bytes length for withdraw pubdata"
  let accountOffset := 1
  let tokenIdOffset := accountOffset + ACCOUNT_ID_BIT_WIDTH / 8
  let amountOffset := tokenIdOffset + TOKEN_BIT_WIDTH / 8
  let feeOffset := amountOffset + BALANCE_BIT_WIDTH / 8
  let ethAddressOffset := feeOffset + (FEE_EXPONENT_BIT_WIDTH + FEE_MANTISSA_BIT_WIDTH) / 8
  let accountId ← Outcome.okOrElse
    (u32FromBytes (← getRange bytes accountOffset (ACCOUNT_ID_BIT_WIDTH / 8)))
    "Cant get account id from withdraw pubdata"
  let fromAddress := 0
  let token ← Outcome.okOrElse (u16FromBytes (← getRange bytes tokenIdOffset (TOKEN_BIT_WIDTH / 8)))
    "Cant get token id from withdraw pubdata"
  let toAddress ← addressFromSlice (← getRange bytes ethAddressOffset (ETH_ADDRESS_BIT_WIDTH / 8))
  let amount ← Outcome.okOrElse
    (u128FromBytes (← getRange bytes amountOffset (BALANCE_BIT_WIDTH / 8)))
    "Cant get amount from withdraw pubdata"
  let fee ← Outcome.okOrElse (unpackFeeAmount
    (← getRange bytes feeOffset ((FEE_EXPONENT_BIT_WIDTH + FEE_MANTISSA_BIT_WIDTH) / 8)))
    "Cant get fee from withdraw pubdata"
  let nonce := 0
  return { tx := ⟨accountId, fromAddress, toAddress, token, amount, fee, nonce,
             TxSignature.default, false⟩
           accountId }

def visible (op : WithdrawOp) : WithdrawOp :=
  { op with tx := { op.tx with
      accountId := op.accountId, fromAddress := 0, nonce := 0, signature := TxSignature.default
      fast := false } }

end WithdrawOp

namespace CloseOp

def OP_CODE : UInt8 := 0x04

def getPublicData (op : CloseOp) : Bytes :=
  resize ([OP_CODE] ++ u32Bytes op.accountId) (CHUNKS * CHUNK_BYTES)

def fromPublicData (bytes : Bytes) : Outcome CloseOp := do
  Outcome.ensure (bytes.length = CHUNKS * CHUNK_BYTES) "Wrong bytes length for close pubdata"
  let accountIdOffset := 1
  let accountId ← Outcome.okOrElse
    (u32FromBytes (← getRange bytes accountIdOffset (ACCOUNT_ID_BIT_WIDTH / 8)))
    "Cant get from account id from close pubdata"
  return { tx := ⟨0, 0, TxSignature.default⟩, accountId }

def visible (op : CloseOp) : CloseOp := { op with tx := ⟨0, 0, TxSignature.default⟩ }

end CloseOp

namespace TransferOp

def OP_CODE : UInt8 := 0x05

def getPublicData (op : TransferOp) : Outcome Bytes := do
  let amount ← packTokenAmount op.tx.amount
  let fee ← packFeeAmount op.tx.fee
  return resize ([OP_CODE] ++ (u32Bytes op.fromId ++ (u16Bytes op.tx.token ++ (u32Bytes op.toId ++
    (amount ++ fee))))) (CHUNKS * CHUNK_BYTES)

def fromPublicData (bytes : Bytes) : Outcome TransferOp := do
  Outcome.ensure (bytes.length = CHUNKS * CHUNK_BYTES) "Wrong bytes length for transfer pubdata"
  let fromOffset := 1
  let tokenIdOffset := fromOffset + ACCOUNT_ID_BIT_WIDTH / 8
  let toOffset := tokenIdOffset + TOKEN_BIT_WIDTH / 8
  let amountOffset := toOffset + ACCOUNT_ID_BIT_WIDTH / 8
  let feeOffset := amountOffset + (AMOUNT_EXPONENT_BIT_WIDTH + AMOUNT_MANTISSA_BIT_WIDTH) / 8
  let fromAddress := 0
  let toAddress := 0
  let token ← Outcome.okOrElse (u16FromBytes (← getRange bytes tokenIdOffset (TOKEN_BIT_WIDTH / 8)))
    "Cant get token id from transfer pubdata"
  let amount ← Outcome.okOrElse (unpackTokenAmount
    (← getRange bytes amountOffset ((AMOUNT_EXPONENT_BIT_WIDTH + AMOUNT_MANTISSA_BIT_WIDTH) / 8)))
    "Cant get amount from transfer pubdata"
  let fee ← Outcome.okOrElse (unpackFeeAmount
    (← getRange bytes feeOffset ((FEE_EXPONENT_BIT_WIDTH + FEE_MANTISSA_BIT_WIDTH) / 8)))
    "Cant get fee from transfer pubdata"
  let nonce := 0
  let fromId ← Outcome.okOrElse
    (u32FromBytes (← getRange bytes fromOffset (ACCOUNT_ID_BIT_WIDTH / 8)))
    "Cant get from account id from transfer pubdata"
  let toId ← Outcome.okOrElse (u32FromBytes (← getRange bytes toOffset (ACCOUNT_ID_BIT_WIDTH / 8)))
    "Cant get to account id from transfer pubdata"
  return { tx := ⟨fromId, fromAddress, toAddress, token, amount, fee, nonce, TxSignature.default⟩
           fromId, toId }

def visible (op : TransferOp) : TransferOp :=
  { op with tx := { op.tx with
      accountId := op.fromId, fromAddress := 0, toAddress := 0, nonce := 0
      signature := TxSignature.default } }

end TransferOp

namespace FullExitOp

def OP_CODE : UInt8 := 0x06
def WITHDRAW_DATA_PREFIX : Bytes := [0]

def getPublicData (op : FullExitOp) : Outcome Bytes := do
  let amount ← u128Bytes (op.withdrawAmount.getD 0)
  return resize ([OP_CODE] ++ (u32Bytes op.priorityOp.accountId ++
    (addressBytes op.priorityOp.ethAddress ++ (u16Bytes op.priorityOp.token ++ amount))))
    (CHUNKS * CHUNK_BYTES)

def getWithdrawalData (op : FullExitOp) : Outcome Bytes := do
  let amount ← u128Bytes (op.withdrawAmount.getD 0)
  return WITHDRAW_DATA_PREFIX ++ (addressBytes op.priorityOp.ethAddress ++
    (u16Bytes op.priorityOp.token ++ amount))

def fromPublicData (bytes : Bytes) : Outcome FullExitOp := do
  Outcome.ensure (bytes.length = CHUNKS * CHUNK_BYTES) "Wrong bytes length for full exit pubdata"
  let accountIdOffset := 1
  let ethAddressOffset := accountIdOffset + ACCOUNT_ID_BIT_WIDTH / 8
  let tokenOffset := ethAddressOffset + ETH_ADDRESS_BIT_WIDTH / 8
  let amountOffset := tokenOffset + TOKEN_BIT_WIDTH / 8
  let accountId ← Outcome.okOrElse
    (u32FromBytes (← getRange bytes accountIdOffset (ethAddressOffset - accountIdOffset)))
    "Cant get account id from full exit pubdata"
  let ethAddress ←
    addressFromSlice (← getRange bytes ethAddressOffset (tokenOffset - ethAddressOffset))
  let token ← Outcome.okOrElse
    (u16FromBytes (← getRange bytes tokenOffset (amountOffset - tokenOffset)))
    "Cant get token id from full exit pubdata"
  let amount ← Outcome.okOrElse
    (u128FromBytes (← getRange bytes amountOffset (BALANCE_BIT_WIDTH / 8)))
    "Cant get amount from full exit pubdata"
  return { priorityOp := { accountId, ethAddress, token }, withdrawAmount := some amount }

/-- A failed exit looks like an exit of nothing. -/
def visible (op : FullExitOp) : FullExitOp :=
  { op with withdrawAmount := some (op.withdrawAmount.getD 0) }

end FullExitOp

namespace ChangePubKeyOp

def OP_CODE : UInt8 := 0x07

def getPublicData (op : ChangePubKeyOp) : Outcome Bytes := do
  let fee ← packFeeAmount op.tx.fee
  return resize ([OP_CODE] ++ (u32Bytes op.accountId ++ (addressBytes op.tx.newPkHash ++
    (addressBytes op.tx.account ++ (u32Bytes op.tx.nonce ++ (u16Bytes op.tx.feeToken ++ fee))))))
    (CHUNKS * CHUNK_BYTES)

/-- The packed signature, 65 bytes, or nothing. -/
def getEthWitness (op : ChangePubKeyOp) : Bytes :=
  match op.tx.ethSignature with
  | some ethSignature => toBytesBE 65 ethSignature.toNat
  | none => []

def fromPublicData (bytes : Bytes) : Outcome ChangePubKeyOp := do
  let accountIdOffset := 1
  let pkHashOffset := accountIdOffset + ACCOUNT_ID_BIT_WIDTH / 8
  let accountOffset := pkHashOffset + NEW_PUBKEY_HASH_WIDTH / 8
  let nonceOffset := accountOffset + ADDRESS_WIDTH / 8
  let feeTokenOffset := nonceOffset + NONCE_BIT_WIDTH / 8
  let feeOffset := feeTokenOffset + TOKEN_BIT_WIDTH / 8
  let endOffset := feeOffset + (FEE_EXPONENT_BIT_WIDTH + FEE_MANTISSA_BIT_WIDTH) / 8
  Outcome.ensure (bytes.length ≥ endOffset) "Change pubkey offchain, pubdata too short"
  let accountId ← Outcome.okOrElse
    (u32FromBytes (← getRange bytes accountIdOffset (pkHashOffset - accountIdOffset)))
    "Change pubkey offchain, fail to get account id"
  let newPkHash ← pubKeyHashFromBytes (← getRange bytes pkHashOffset (accountOffset - pkHashOffset))
  let account ← addressFromSlice (← getRange bytes accountOffset (nonceOffset - accountOffset))
  let nonce ← Outcome.okOrElse
    (u32FromBytes (← getRange bytes nonceOffset (feeTokenOffset - nonceOffset)))
    "Change pubkey offchain, fail to get nonce"
  let feeToken ← Outcome.okOrElse
    (u16FromBytes (← getRange bytes feeTokenOffset (feeOffset - feeTokenOffset)))
    "Change pubkey offchain, fail to get fee token ID"
  let fee ← Outcome.okOrElse (unpackFeeAmount (← getRange bytes feeOffset (endOffset - feeOffset)))
    "Change pubkey offchain, fail to get fee"
  return { tx := ⟨accountId, account, newPkHash, feeToken, fee, nonce, TxSignature.default, none⟩
           accountId }

def visible (op : ChangePubKeyOp) : ChangePubKeyOp :=
  { op with tx := { op.tx with
      accountId := op.accountId, signature := TxSignature.default, ethSignature := none } }

end ChangePubKeyOp

namespace ForcedExitOp

def OP_CODE : UInt8 := 0x08
def WITHDRAW_DATA_PREFIX : Bytes := [1]

def getPublicData (op : ForcedExitOp) : Outcome Bytes := do
  let amount ← u128Bytes (op.withdrawAmount.getD 0)
  let fee ← packFeeAmount op.tx.fee
  return resize ([OP_CODE] ++ (u32Bytes op.tx.initiatorAccountId ++ (u32Bytes op.targetAccountId ++
    (u16Bytes op.tx.token ++ (amount ++ (fee ++ addressBytes op.tx.target))))))
    (CHUNKS * CHUNK_BYTES)

def getWithdrawalData (op : ForcedExitOp) : Outcome Bytes := do
  let amount ← u128Bytes (op.withdrawAmount.getD 0)
  return WITHDRAW_DATA_PREFIX ++ (addressBytes op.tx.target ++ (u16Bytes op.tx.token ++ amount))

def fromPublicData (bytes : Bytes) : Outcome ForcedExitOp := do
  Outcome.ensure (bytes.length = CHUNKS * CHUNK_BYTES) "Wrong bytes length for forced exit pubdata"
  let initiatorAccountIdOffset := 1
  let targetAccountIdOffset := initiatorAccountIdOffset + ACCOUNT_ID_BIT_WIDTH / 8
  let tokenIdOffset := targetAccountIdOffset + ACCOUNT_ID_BIT_WIDTH / 8
  let amountOffset := tokenIdOffset + TOKEN_BIT_WIDTH / 8
  let feeOffset := amountOffset + BALANCE_BIT_WIDTH / 8
  let ethAddressOffset := feeOffset + (FEE_EXPONENT_BIT_WIDTH + FEE_MANTISSA_BIT_WIDTH) / 8
  let ethAddressEnd := ethAddressOffset + ETH_ADDRESS_BIT_WIDTH / 8
  let initiatorAccountId ← Outcome.okOrElse
    (u32FromBytes (← getRange bytes initiatorAccountIdOffset
      (targetAccountIdOffset - initiatorAccountIdOffset)))
    "Cant get initiator account id from forced exit pubdata"
  let targetAccountId ← Outcome.okOrElse
    (u32FromBytes (← getRange bytes targetAccountIdOffset (tokenIdOffset - targetAccountIdOffset)))
    "Cant get target account id from forced exit pubdata"
  let token ← Outcome.okOrElse
    (u16FromBytes (← getRange bytes tokenIdOffset (amountOffset - tokenIdOffset)))
    "Cant get token id from forced exit pubdata"
  let amount ← Outcome.okOrElse
    (u128FromBytes (← getRange bytes amountOffset (BALANCE_BIT_WIDTH / 8)))
    "Cant get amount from forced exit pubdata"
  let fee ← Outcome.okOrElse
    (unpackFeeAmount (← getRange bytes feeOffset (ethAddressOffset - feeOffset)))
    "Cant get fee from withdraw pubdata"
  let target ←
    addressFromSlice (← getRange bytes ethAddressOffset (ethAddressEnd - ethAddressOffset))
  let nonce := 0
  return { tx := ⟨initiatorAccountId, target, token, fee, nonce, TxSignature.default⟩
           targetAccountId, withdrawAmount := some amount }

def visible (op : ForcedExitOp) : ForcedExitOp :=
  { op with
    tx := { op.tx with nonce := 0, signature := TxSignature.default }
    withdrawAmount := some (op.withdrawAmount.getD 0) }

end ForcedExitOp

namespace ZkSyncOp

/-- What an operation adds to the public data of its block. -/
def publicData : ZkSyncOp → Outcome Bytes
  | .Noop => .ok NoopOp.getPublicData
  | .Deposit op => op.getPublicData
  | .TransferToNew op => op.getPublicData
  | .Withdraw op => op.getPublicData
  | .Close op => .ok op.getPublicData
  | .Transfer op => op.getPublicData
  | .FullExit op => op.getPublicData
  | .ChangePubKeyOffchain op => op.getPublicData
  | .ForcedExit op => op.getPublicData

/-- Only a key change has a witness for the contract. -/
def ethWitness : ZkSyncOp → Option Bytes
  | .ChangePubKeyOffchain op => some op.getEthWitness
  | _ => none

/-- The operations that pay out on Ethereum have a record. -/
def withdrawalData : ZkSyncOp → Option (Outcome Bytes)
  | .Withdraw op => some op.getWithdrawalData
  | .FullExit op => some op.getWithdrawalData
  | .ForcedExit op => some op.getWithdrawalData
  | _ => none

def fromPublicData (bytes : Bytes) : Outcome ZkSyncOp := do
  let opType ← Outcome.okOrElse bytes.head? "Empty pubdata"
  if opType = NoopOp.OP_CODE then (fun _ => Noop) <$> NoopOp.fromPublicData bytes
  else if opType = DepositOp.OP_CODE then Deposit <$> DepositOp.fromPublicData bytes
  else if opType = TransferToNewOp.OP_CODE then
    TransferToNew <$> TransferToNewOp.fromPublicData bytes
  else if opType = WithdrawOp.OP_CODE then Withdraw <$> WithdrawOp.fromPublicData bytes
  else if opType = CloseOp.OP_CODE then Close <$> CloseOp.fromPublicData bytes
  else if opType = TransferOp.OP_CODE then Transfer <$> TransferOp.fromPublicData bytes
  else if opType = FullExitOp.OP_CODE then FullExit <$> FullExitOp.fromPublicData bytes
  else if opType = ChangePubKeyOp.OP_CODE then
    ChangePubKeyOffchain <$> ChangePubKeyOp.fromPublicData bytes
  else if opType = ForcedExitOp.OP_CODE then ForcedExit <$> ForcedExitOp.fromPublicData bytes
  else Outcome.bail "Wrong operation type"

/-- The bytes an operation with the given opcode takes. -/
def publicDataLength (opType : UInt8) : Outcome Nat :=
  (· * CHUNK_BYTES) <$>
    if opType = NoopOp.OP_CODE then .ok NoopOp.CHUNKS
    else if opType = DepositOp.OP_CODE then .ok DepositOp.CHUNKS
    else if opType = TransferToNewOp.OP_CODE then .ok TransferToNewOp.CHUNKS
    else if opType = WithdrawOp.OP_CODE then .ok WithdrawOp.CHUNKS
    else if opType = CloseOp.OP_CODE then .ok CloseOp.CHUNKS
    else if opType = TransferOp.OP_CODE then .ok TransferOp.CHUNKS
    else if opType = FullExitOp.OP_CODE then .ok FullExitOp.CHUNKS
    else if opType = ChangePubKeyOp.OP_CODE then .ok ChangePubKeyOp.CHUNKS
    else if opType = ForcedExitOp.OP_CODE then .ok ForcedExitOp.CHUNKS
    else Outcome.bail "Wrong operation type"

end ZkSyncOp

/-! ## Layouts and round trips -/

/-- The fields of a deposit, one behind the other. -/
theorem DepositOp.getPublicData_eq {op : DepositOp} (h : op.priorityOp.amount < u128Bound) :
    op.getPublicData = .ok (resize ([OP_CODE] ++ (u32Bytes op.accountId ++
      (u16Bytes op.priorityOp.token ++ (toBytesBE 16 op.priorityOp.amount ++
      addressBytes op.priorityOp.toAddress)))) (CHUNKS * CHUNK_BYTES)) := by
  unfold getPublicData
  rw [u128Bytes_eq h]
  rfl

/-- The fields of a transfer to a new account, with the packed amounts as they are. -/
theorem TransferToNewOp.getPublicData_eq {op : TransferToNewOp} {amount fee : Bytes}
    (hamount : packTokenAmount op.tx.amount = .ok amount)
    (hfee : packFeeAmount op.tx.fee = .ok fee) :
    op.getPublicData = .ok (resize ([OP_CODE] ++ (u32Bytes op.fromId ++ (u16Bytes op.tx.token ++
      (amount ++ (addressBytes op.tx.toAddress ++ (u32Bytes op.toId ++ fee))))))
      (CHUNKS * CHUNK_BYTES)) := by
  unfold getPublicData
  rw [hamount, hfee]
  rfl

/-- The fields of a withdrawal. -/
theorem WithdrawOp.getPublicData_eq {op : WithdrawOp} {fee : Bytes}
    (h : op.tx.amount < u128Bound) (hfee : packFeeAmount op.tx.fee = .ok fee) :
    op.getPublicData = .ok (resize ([OP_CODE] ++ (u32Bytes op.accountId ++
      (u16Bytes op.tx.token ++ (toBytesBE 16 op.tx.amount ++ (fee ++
      addressBytes op.tx.toAddress))))) (CHUNKS * CHUNK_BYTES)) := by
  unfold getPublicData
  rw [u128Bytes_eq h, hfee]
  rfl

/-- The fields of a transfer. -/
theorem TransferOp.getPublicData_eq {op : TransferOp} {amount fee : Bytes}
    (hamount : packTokenAmount op.tx.amount = .ok amount)
    (hfee : packFeeAmount op.tx.fee = .ok fee) :
    op.getPublicData = .ok (resize ([OP_CODE] ++ (u32Bytes op.fromId ++ (u16Bytes op.tx.token ++
      (u32Bytes op.toId ++ (amount ++ fee))))) (CHUNKS * CHUNK_BYTES)) := by
  unfold getPublicData
  rw [hamount, hfee]
  rfl

/-- The fields of a full exit, where no amount stands for zero. -/
theorem FullExitOp.getPublicData_eq {op : FullExitOp}
    (h : op.withdrawAmount.getD 0 < u128Bound) :
    op.getPublicData = .ok (resize ([OP_CODE] ++ (u32Bytes op.priorityOp.accountId ++
      (addressBytes op.priorityOp.ethAddress ++ (u16Bytes op.priorityOp.token ++
      toBytesBE 16 (op.withdrawAmount.getD 0))))) (CHUNKS * CHUNK_BYTES)) := by
  unfold getPublicData
  rw [u128Bytes_eq h]
  rfl

/-- The fields of a key change. -/
theorem ChangePubKeyOp.getPublicData_eq {op : ChangePubKeyOp} {fee : Bytes}
    (hfee : packFeeAmount op.tx.fee = .ok fee) :
    op.getPublicData = .ok (resize ([OP_CODE] ++ (u32Bytes op.accountId ++
      (addressBytes op.tx.newPkHash ++ (addressBytes op.tx.account ++ (u32Bytes op.tx.nonce ++
      (u16Bytes op.tx.feeToken ++ fee)))))) (CHUNKS * CHUNK_BYTES)) := by
  unfold getPublicData
  rw [hfee]
  rfl

/-- The fields of a forced exit. -/
theorem ForcedExitOp.getPublicData_eq {op : ForcedExitOp} {fee : Bytes}
    (h : op.withdrawAmount.getD 0 < u128Bound) (hfee : packFeeAmount op.tx.fee = .ok fee) :
    op.getPublicData = .ok (resize ([OP_CODE] ++ (u32Bytes op.tx.initiatorAccountId ++
      (u32Bytes op.targetAccountId ++ (u16Bytes op.tx.token ++
      (toBytesBE 16 (op.withdrawAmount.getD 0) ++ (fee ++ addressBytes op.tx.target))))))
      (CHUNKS * CHUNK_BYTES)) := by
  unfold getPublicData
  rw [u128Bytes_eq h, hfee]
  rfl

theorem NoopOp.fromPublicData_getPublicData :
    NoopOp.fromPublicData NoopOp.getPublicData = .ok () := rfl

/-- A deposit comes back but for its sender. -/
theorem DepositOp.fromPublicData_getPublicData {op : DepositOp} {data : Bytes}
    (hamount : op.priorityOp.amount < u128Bound) (h : op.getPublicData = .ok data) :
    fromPublicData data = .ok op.visible := by
  rw [getPublicData_eq hamount] at h
  cases h
  rw [resize_eq (by simp [CHUNKS])]
  simp [fromPublicData, CHUNKS, u128FromBytes_toBytesBE hamount, visible]

/-- A transfer to a new account comes back if its amounts are packable. -/
theorem TransferToNewOp.fromPublicData_getPublicData {op : TransferToNewOp} {data : Bytes}
    (hamount : IsTokenAmountPackable op.tx.amount) (hfee : IsFeeAmountPackable op.tx.fee)
    (h : op.getPublicData = .ok data) : fromPublicData data = .ok op.visible := by
  obtain ⟨amount, hpack, hunpack⟩ := hamount
  obtain ⟨fee, hpackFee, hunpackFee⟩ := hfee
  have hlen := length_packTokenAmount hpack
  have hlenFee := length_packFeeAmount hpackFee
  rw [getPublicData_eq hpack hpackFee] at h
  cases h
  rw [resize_eq (by simp [CHUNKS, hlen, hlenFee])]
  simp [fromPublicData, CHUNKS, hlen, hlenFee, hunpack, hunpackFee, visible]

/-- A withdrawal comes back with its full amount; only its fee has to be packable. -/
theorem WithdrawOp.fromPublicData_getPublicData {op : WithdrawOp} {data : Bytes}
    (hamount : op.tx.amount < u128Bound) (hfee : IsFeeAmountPackable op.tx.fee)
    (h : op.getPublicData = .ok data) : fromPublicData data = .ok op.visible := by
  obtain ⟨fee, hpack, hunpack⟩ := hfee
  have hlen := length_packFeeAmount hpack
  rw [getPublicData_eq hamount hpack] at h
  cases h
  rw [resize_eq (by simp [CHUNKS, hlen])]
  simp [fromPublicData, CHUNKS, u128FromBytes_toBytesBE hamount, hlen, hunpack, visible]

theorem CloseOp.fromPublicData_getPublicData (op : CloseOp) :
    fromPublicData op.getPublicData = .ok op.visible := by
  rw [getPublicData, resize_eq (by simp [CHUNKS])]
  simp [fromPublicData, CHUNKS, visible]

/-- A transfer comes back between ids. -/
theorem TransferOp.fromPublicData_getPublicData {op : TransferOp} {data : Bytes}
    (hamount : IsTokenAmountPackable op.tx.amount) (hfee : IsFeeAmountPackable op.tx.fee)
    (h : op.getPublicData = .ok data) : fromPublicData data = .ok op.visible := by
  obtain ⟨amount, hpack, hunpack⟩ := hamount
  obtain ⟨fee, hpackFee, hunpackFee⟩ := hfee
  have hlen := length_packTokenAmount hpack
  have hlenFee := length_packFeeAmount hpackFee
  rw [getPublicData_eq hpack hpackFee] at h
  cases h
  rw [resize_eq (by simp [CHUNKS, hlen, hlenFee])]
  simp [fromPublicData, CHUNKS, hlen, hlenFee, hunpack, hunpackFee, visible]

/-- A full exit comes back, the refused one as one of the amount zero. -/
theorem FullExitOp.fromPublicData_getPublicData {op : FullExitOp} {data : Bytes}
    (hamount : op.withdrawAmount.getD 0 < u128Bound) (h : op.getPublicData = .ok data) :
    fromPublicData data = .ok op.visible := by
  rw [getPublicData_eq hamount] at h
  cases h
  rw [resize_eq (by simp [CHUNKS])]
  simp [fromPublicData, CHUNKS, u128FromBytes_toBytesBE hamount, visible]

/-- A key change comes back without its signatures. -/
theorem ChangePubKeyOp.fromPublicData_getPublicData {op : ChangePubKeyOp} {data : Bytes}
    (hfee : IsFeeAmountPackable op.tx.fee) (h : op.getPublicData = .ok data) :
    fromPublicData data = .ok op.visible := by
  obtain ⟨fee, hpack, hunpack⟩ := hfee
  have hlen := length_packFeeAmount hpack
  rw [getPublicData_eq hpack] at h
  cases h
  rw [resize_eq (by simp [CHUNKS, hlen])]
  simp [fromPublicData, CHUNKS, hlen, hunpack, visible]

/-- A forced exit comes back with the amount that was taken. -/
theorem ForcedExitOp.fromPublicData_getPublicData {op : ForcedExitOp} {data : Bytes}
    (hamount : op.withdrawAmount.getD 0 < u128Bound) (hfee : IsFeeAmountPackable op.tx.fee)
    (h : op.getPublicData = .ok data) : fromPublicData data = .ok op.visible := by
  obtain ⟨fee, hpack, hunpack⟩ := hfee
  have hlen := length_packFeeAmount hpack
  rw [getPublicData_eq hamount hpack] at h
  cases h
  rw [resize_eq (by simp [CHUNKS, hlen])]
  simp [fromPublicData, CHUNKS, u128FromBytes_toBytesBE hamount, hlen, hunpack, visible]

namespace ZkSyncOp

/-- The first byte of the public data. -/
def opCode : ZkSyncOp → UInt8
  | .Noop => NoopOp.OP_CODE
  | .Deposit _ => DepositOp.OP_CODE
  | .TransferToNew _ => TransferToNewOp.OP_CODE
  | .Withdraw _ => WithdrawOp.OP_CODE
  | .Close _ => CloseOp.OP_CODE
  | .Transfer _ => TransferOp.OP_CODE
  | .FullExit _ => FullExitOp.OP_CODE
  | .ChangePubKeyOffchain _ => ChangePubKeyOp.OP_CODE
  | .ForcedExit _ => ForcedExitOp.OP_CODE

/-- The amounts fit their fields: full amounts are `u128`, packed ones packable. -/
def InRange : ZkSyncOp → Prop
  | .Noop => True
  | .Deposit op => op.priorityOp.amount < u128Bound
  | .TransferToNew op => IsTokenAmountPackable op.tx.amount ∧ IsFeeAmountPackable op.tx.fee
  | .Withdraw op => op.tx.amount < u128Bound ∧ IsFeeAmountPackable op.tx.fee
  | .Close _ => True
  | .Transfer op => IsTokenAmountPackable op.tx.amount ∧ IsFeeAmountPackable op.tx.fee
  | .FullExit op => op.withdrawAmount.getD 0 < u128Bound
  | .ChangePubKeyOffchain op => IsFeeAmountPackable op.tx.fee
  | .ForcedExit op => op.withdrawAmount.getD 0 < u128Bound ∧ IsFeeAmountPackable op.tx.fee

def visible : ZkSyncOp → ZkSyncOp
  | .Noop => .Noop
  | .Deposit op => .Deposit op.visible
  | .TransferToNew op => .TransferToNew op.visible
  | .Withdraw op => .Withdraw op.visible
  | .Close op => .Close op.visible
  | .Transfer op => .Transfer op.visible
  | .FullExit op => .FullExit op.visible
  | .ChangePubKeyOffchain op => .ChangePubKeyOffchain op.visible
  | .ForcedExit op => .ForcedExit op.visible

/-- What is written: an opcode, and as many bytes as the operation has chunks. -/
theorem publicData_shape {op : ZkSyncOp} (h : op.InRange) :
    ∃ data, op.publicData = .ok data ∧ data.length = op.chunks * CHUNK_BYTES ∧
      data.head? = some op.opCode := by
  have hhead : ∀ (code : UInt8) (fields : Bytes) {n : Nat}, 0 < n →
      (resize ([code] ++ fields) n).head? = some code := by
    intro code fields n hn
    cases n with
    | zero => cases hn
    | succ n => rfl
  cases op with
  | Noop => exact ⟨_, rfl, rfl, rfl⟩
  | Close op => exact ⟨_, rfl, length_resize _ _, hhead _ _ (by decide)⟩
  | Deposit op =>
    exact ⟨_, DepositOp.getPublicData_eq h, length_resize _ _, hhead _ _ (by decide)⟩
  | TransferToNew op =>
    obtain ⟨⟨amount, hpack, -⟩, ⟨fee, hpackFee, -⟩⟩ := h
    exact ⟨_, TransferToNewOp.getPublicData_eq hpack hpackFee, length_resize _ _,
      hhead _ _ (by decide)⟩
  | Withdraw op =>
    obtain ⟨hamount, ⟨fee, hpackFee, -⟩⟩ := h
    exact ⟨_, WithdrawOp.getPublicData_eq hamount hpackFee, length_resize _ _,
      hhead _ _ (by decide)⟩
  | Transfer op =>
    obtain ⟨⟨amount, hpack, -⟩, ⟨fee, hpackFee, -⟩⟩ := h
    exact ⟨_, TransferOp.getPublicData_eq hpack hpackFee, length_resize _ _,
      hhead _ _ (by decide)⟩
  | FullExit op =>
    exact ⟨_, FullExitOp.getPublicData_eq h, length_resize _ _, hhead _ _ (by decide)⟩
  | ChangePubKeyOffchain op =>
    obtain ⟨fee, hpackFee, -⟩ := h
    exact ⟨_, ChangePubKeyOp.getPublicData_eq hpackFee, length_resize _ _,
      hhead _ _ (by decide)⟩
  | ForcedExit op =>
    obtain ⟨hamount, ⟨fee, hpackFee, -⟩⟩ := h
    exact ⟨_, ForcedExitOp.getPublicData_eq hamount hpackFee, length_resize _ _,
      hhead _ _ (by decide)⟩

/-- However it is written, an operation takes its chunks. -/
theorem length_publicData {op : ZkSyncOp} {data : Bytes} (h : op.publicData = .ok data) :
    data.length = op.chunks * CHUNK_BYTES := by
  cases op with
  | Noop =>
    cases h
    rfl
  | Close op =>
    cases h
    exact length_resize _ _
  | Deposit op | FullExit op | ChangePubKeyOffchain op =>
    obtain ⟨_, -, h⟩ := Outcome.bind_eq_ok.mp h
    cases h
    exact length_resize _ _
  | TransferToNew op | Withdraw op | Transfer op | ForcedExit op =>
    obtain ⟨_, -, h⟩ := Outcome.bind_eq_ok.mp h
    obtain ⟨_, -, h⟩ := Outcome.bind_eq_ok.mp h
    cases h
    exact length_resize _ _

/-- What is not visible is not written. -/
theorem publicData_visible (op : ZkSyncOp) : op.visible.publicData = op.publicData := by
  cases op <;> rfl

/-- The restorer finds the length of an operation by its opcode alone, and it is the right one. -/
theorem publicDataLength_opCode (op : ZkSyncOp) :
    publicDataLength op.opCode = .ok (op.chunks * CHUNK_BYTES) := by
  cases op <;> rfl

/-- Reading what was written gives the operation back, as far as it is visible. -/
theorem fromPublicData_publicData {op : ZkSyncOp} (h : op.InRange) {data : Bytes}
    (hdata : op.publicData = .ok data) : fromPublicData data = .ok op.visible := by
  obtain ⟨data', hdata', -, hhead⟩ := publicData_shape h
  obtain rfl : data' = data := Except.ok.inj (hdata'.symm.trans hdata)
  unfold fromPublicData
  rw [hhead]
  cases op with
  | Noop =>
    cases hdata
    rfl
  | Deposit op => exact congrArg (Deposit <$> ·) (DepositOp.fromPublicData_getPublicData h hdata)
  | TransferToNew op =>
    exact congrArg (TransferToNew <$> ·)
      (TransferToNewOp.fromPublicData_getPublicData h.1 h.2 hdata)
  | Withdraw op =>
    exact congrArg (Withdraw <$> ·) (WithdrawOp.fromPublicData_getPublicData h.1 h.2 hdata)
  | Close op =>
    cases hdata
    exact congrArg (Close <$> ·) (CloseOp.fromPublicData_getPublicData op)
  | Transfer op =>
    exact congrArg (Transfer <$> ·) (TransferOp.fromPublicData_getPublicData h.1 h.2 hdata)
  | FullExit op => exact congrArg (FullExit <$> ·) (FullExitOp.fromPublicData_getPublicData h hdata)
  | ChangePubKeyOffchain op =>
    exact congrArg (ChangePubKeyOffchain <$> ·)
      (ChangePubKeyOp.fromPublicData_getPublicData h hdata)
  | ForcedExit op =>
    exact congrArg (ForcedExit <$> ·) (ForcedExitOp.fromPublicData_getPublicData h.1 h.2 hdata)

end ZkSyncOp

end ZkSync
