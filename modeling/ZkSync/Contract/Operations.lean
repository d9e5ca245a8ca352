import ZkSync.Contract.Bytes
import ZkSync.Types.PublicData

/-!
# `Operations.sol`

The contract's own readers and writers of operations: what it stores and emits for
a priority request, and what it reads of the public data of a block. The readers
take the operation without its opcode; those of operations that come without a
stored request read in place, from an offset.

Each reader has one lemma: at bytes that are the fields of an operation, with
anything behind them, it returns these fields.
-/

namespace ZkSync.Contract

open Bytes (ofBytesBE toBytesBE slice)

/-- The types of operations, by their opcodes in the public data. -/
inductive OpType where
  | Noop | Deposit | TransferToNew | PartialExit | CloseAccount | Transfer | FullExit
  | ChangePubKey | ForcedExit
  deriving DecidableEq

/-- The number of an operation type. -/
def OpType.code : OpType → UInt8
  | .Noop => 0
  | .Deposit => 1
  | .TransferToNew => 2
  | .PartialExit => 3
  | .CloseAccount => 4
  | .Transfer => 5
  | .FullExit => 6
  | .ChangePubKey => 7
  | .ForcedExit => 8

/-! ## Reading fields -/

section Fields

variable {data : Bytes} {offset : Nat}

/-- A reader that finds the bytes of a field gives the field, and moves behind it. -/
theorem readBool_eq {b : UInt8} (h : Bytes.At data offset [b]) :
    readBool data offset = .ok (offset + 1, b != 0) := by
  obtain ⟨front, rest, rfl, rfl⟩ := h
  unfold readBool
  rw [List.getElem?_append_right le_rfl, Nat.sub_self]
  rfl

theorem readUInt16_eq {n : UInt16} (h : Bytes.At data offset (u16Bytes n)) :
    readUInt16 data offset = .ok (offset + 2, n) := by
  have hlen := h.le
  rw [length_u16Bytes] at hlen
  unfold readUInt16
  rw [bytesToUInt16_eq hlen, h.slice_eq (length_u16Bytes n), u16Bytes,
    Bytes.ofBytesBE_toBytesBE_of_lt n.toNat_lt, UInt16.ofNat_toNat]
  rfl

theorem readUInt32_eq {n : UInt32} (h : Bytes.At data offset (u32Bytes n)) :
    readUInt32 data offset = .ok (offset + 4, n) := by
  have hlen := h.le
  rw [length_u32Bytes] at hlen
  unfold readUInt32
  rw [bytesToUInt32_eq hlen, h.slice_eq (length_u32Bytes n), u32Bytes,
    Bytes.ofBytesBE_toBytesBE_of_lt n.toNat_lt, UInt32.ofNat_toNat]
  rfl

theorem toNat_ofNat_of_lt {n : Nat} (h : n < u128Bound) : (BitVec.ofNat 128 n).toNat = n :=
  Nat.mod_eq_of_lt h

/-- The amount is read back if a `u128` holds it. -/
theorem readUInt128_eq {n : Nat} (hn : n < u128Bound)
    (h : Bytes.At data offset (toBytesBE 16 n)) :
    readUInt128 data offset = .ok (offset + 16, BitVec.ofNat 128 n) := by
  have hlen := h.le
  have hpow : u128Bound = 256 ^ 16 := Nat.pow_mul 2 8 16
  rw [Bytes.length_toBytesBE] at hlen
  unfold readUInt128
  rw [bytesToUInt128_eq hlen, h.slice_eq (Bytes.length_toBytesBE 16 n),
    Bytes.ofBytesBE_toBytesBE_of_lt (hpow ▸ hn)]
  rfl

/-- An address is read from its twenty bytes. -/
theorem readAddress_eq {address : Address} (h : Bytes.At data offset (addressBytes address)) :
    readAddress data offset = .ok (offset + 20, address) := by
  have hlen := h.le
  rw [length_addressBytes] at hlen
  unfold readAddress
  rw [bytesToAddress_eq hlen, h.slice_eq (length_addressBytes address), ofNat_addressBytes]
  rfl

/-- A key hash is read as bytes, not as a number. -/
theorem readBytes20_eq {hash : BitVec 160} (h : Bytes.At data offset (addressBytes hash)) :
    readBytes20 data offset = .ok (offset + 20, hash) := by
  have hlen := h.le
  rw [length_addressBytes] at hlen
  unfold readBytes20
  rw [bytesToBytes20_eq hlen, h.slice_eq (length_addressBytes hash), ofNat_addressBytes]
  rfl

end Fields

/-! ## Byte lengths -/

def TOKEN_BYTES : Nat := 2
def ADDRESS_BYTES : Nat := 20
def FEE_BYTES : Nat := 2
def ACCOUNT_ID_BYTES : Nat := 4
def AMOUNT_BYTES : Nat := 16

/-! ## Deposits -/

/-- What the contract reads of a deposit. -/
structure Deposit where
  accountId : UInt32
  tokenId : UInt16
  amount : BitVec 128
  owner : Address
  deriving DecidableEq

/-- The length of a request, which has no opcode in front. -/
def PACKED_DEPOSIT_PUBDATA_BYTES : Nat :=
  ACCOUNT_ID_BYTES + TOKEN_BYTES + AMOUNT_BYTES + ADDRESS_BYTES

/-- The fields have to end where the data ends. -/
def readDepositPubdata (data : Bytes) : Sol Deposit := do
  let (offset, accountId) ← readUInt32 data 0
  let (offset, tokenId) ← readUInt16 data offset
  let (offset, amount) ← readUInt128 data offset
  let (offset, owner) ← readAddress data offset
  require (offset = PACKED_DEPOSIT_PUBDATA_BYTES) "rdp10"
  return { accountId, tokenId, amount, owner }

/-- The fields of a deposit, read from the layout that the server writes. -/
theorem readDepositPubdata_eq {data : Bytes} {accountId : UInt32} {tokenId : UInt16} {amount : Nat}
    {owner : Address} (hamount : amount < u128Bound)
    (h : Bytes.At data 0 (u32Bytes accountId ++ (u16Bytes tokenId ++
      (toBytesBE 16 amount ++ addressBytes owner)))) :
    readDepositPubdata data = .ok ⟨accountId, tokenId, BitVec.ofNat 128 amount, owner⟩ := by
  obtain ⟨haccount, h⟩ := h.append (length_u32Bytes accountId)
  obtain ⟨htoken, h⟩ := h.append (length_u16Bytes tokenId)
  obtain ⟨hread, howner⟩ := h.append (Bytes.length_toBytesBE 16 amount)
  simp only [readDepositPubdata, readUInt32_eq haccount, readUInt16_eq htoken,
    readUInt128_eq hamount hread, readAddress_eq howner, Outcome.ok_bind]
  rfl

/-- `abi.encodePacked`; the account id is unknown and written as zero. -/
def writeDepositPubdata (op : Deposit) : Bytes :=
  toBytesBE 4 0 ++ (u16Bytes op.tokenId ++ (toBytesBE 16 op.amount.toNat ++ addressBytes op.owner))

section Match

variable {H : Type} [DecidableEq H] (keccak256 : Bytes → H)

/-- The account is left out of the comparison, since the contract does not know it. -/
def depositPubdataMatch (lhs rhs : Bytes) : Sol Bool := do
  let lhsTrimmed ← bytesSlice lhs ACCOUNT_ID_BYTES (PACKED_DEPOSIT_PUBDATA_BYTES - ACCOUNT_ID_BYTES)
  let rhsTrimmed ← bytesSlice rhs ACCOUNT_ID_BYTES (PACKED_DEPOSIT_PUBDATA_BYTES - ACCOUNT_ID_BYTES)
  return keccak256 lhsTrimmed = keccak256 rhsTrimmed

/-- Two deposits with the same fields behind the account id match. -/
theorem depositPubdataMatch_eq {lhs rhs fields : Bytes} (hlen : fields.length = 38)
    (hlhs : Bytes.At lhs 4 fields) (hrhs : Bytes.At rhs 4 fields) :
    depositPubdataMatch keccak256 lhs rhs = .ok true := by
  have hl := hlhs.le
  have hr := hrhs.le
  rw [hlen] at hl hr
  unfold depositPubdataMatch ACCOUNT_ID_BYTES
  rw [show PACKED_DEPOSIT_PUBDATA_BYTES - 4 = 38 from rfl, bytesSlice_eq hl, bytesSlice_eq hr,
    hlhs.slice_eq hlen, hrhs.slice_eq hlen]
  show Except.ok (decide (keccak256 fields = keccak256 fields)) = _
  rw [decide_eq_true rfl]

end Match

/-! ## Full exits -/

/-- What the contract reads of a full exit. -/
structure FullExit where
  accountId : UInt32
  owner : Address
  tokenId : UInt16
  amount : BitVec 128
  deriving DecidableEq

def PACKED_FULL_EXIT_PUBDATA_BYTES : Nat :=
  ACCOUNT_ID_BYTES + ADDRESS_BYTES + TOKEN_BYTES + AMOUNT_BYTES

/-- The fields have to end where the data ends. -/
def readFullExitPubdata (data : Bytes) : Sol FullExit := do
  let (offset, accountId) ← readUInt32 data 0
  let (offset, owner) ← readAddress data offset
  let (offset, tokenId) ← readUInt16 data offset
  let (offset, amount) ← readUInt128 data offset
  require (offset = PACKED_FULL_EXIT_PUBDATA_BYTES) "rfp10"
  return { accountId, owner, tokenId, amount }

/-- The fields of a full exit, read from the layout that the server writes. -/
theorem readFullExitPubdata_eq {data : Bytes} {accountId : UInt32} {owner : Address}
    {tokenId : UInt16} {amount : Nat} (hamount : amount < u128Bound)
    (h : Bytes.At data 0 (u32Bytes accountId ++ (addressBytes owner ++ (u16Bytes tokenId ++
      toBytesBE 16 amount)))) :
    readFullExitPubdata data = .ok ⟨accountId, owner, tokenId, BitVec.ofNat 128 amount⟩ := by
  obtain ⟨haccount, h⟩ := h.append (length_u32Bytes accountId)
  obtain ⟨howner, h⟩ := h.append (length_addressBytes owner)
  obtain ⟨htoken, hread⟩ := h.append (length_u16Bytes tokenId)
  simp only [readFullExitPubdata, readUInt32_eq haccount, readAddress_eq howner,
    readUInt16_eq htoken, readUInt128_eq hamount hread, Outcome.ok_bind]
  rfl

/-- The request has no amount yet. -/
def writeFullExitPubdata (op : FullExit) : Bytes :=
  u32Bytes op.accountId ++ (addressBytes op.owner ++ (u16Bytes op.tokenId ++
    toBytesBE 16 op.amount.toNat))

/-- The amount is left out of the comparison, since only the server knows it. -/
def fullExitPubdataMatch (lhs rhs : Bytes) : Sol Bool := do
  let lhs ← bytesTrim lhs (PACKED_FULL_EXIT_PUBDATA_BYTES - AMOUNT_BYTES)
  let rhs ← bytesTrim rhs (PACKED_FULL_EXIT_PUBDATA_BYTES - AMOUNT_BYTES)
  return lhs = rhs

/-- Two full exits with the same fields before the amount match. -/
theorem fullExitPubdataMatch_eq {lhs rhs fields : Bytes} (hlen : fields.length = 26)
    (hlhs : Bytes.At lhs 0 fields) (hrhs : Bytes.At rhs 0 fields) :
    fullExitPubdataMatch lhs rhs = .ok true := by
  have hl := hlhs.le
  have hr := hrhs.le
  rw [hlen, Nat.zero_add] at hl hr
  unfold fullExitPubdataMatch AMOUNT_BYTES
  rw [show PACKED_FULL_EXIT_PUBDATA_BYTES - 16 = 26 from rfl, bytesTrim_eq hl (by decide),
    bytesTrim_eq hr (by decide), hlhs.slice_eq hlen, hrhs.slice_eq hlen]
  show Except.ok (decide (ofBytesBE fields = ofBytesBE fields)) = _
  rw [decide_eq_true rfl]

/-! ## Operations read in place -/

/-- What the contract reads of a withdrawal: nothing but what it pays. -/
structure PartialExit where
  tokenId : UInt16
  amount : BitVec 128
  owner : Address
  deriving DecidableEq

/-- The account and the fee are skipped. -/
def readPartialExitPubdata (data : Bytes) (start : Nat) : Sol PartialExit := do
  let offset := start + ACCOUNT_ID_BYTES
  let (offset, tokenId) ← readUInt16 data offset
  let (offset, amount) ← readUInt128 data offset
  let offset := offset + FEE_BYTES
  let (_, owner) ← readAddress data offset
  return { tokenId, amount, owner }

/-- The layout that the server writes holds what the contract pays. -/
theorem readPartialExitPubdata_eq {data fee : Bytes} {start : Nat} {accountId : UInt32}
    {tokenId : UInt16} {amount : Nat} {owner : Address} (hamount : amount < u128Bound)
    (hfee : fee.length = 2)
    (h : Bytes.At data start (u32Bytes accountId ++ (u16Bytes tokenId ++ (toBytesBE 16 amount ++
      (fee ++ addressBytes owner))))) :
    readPartialExitPubdata data start = .ok ⟨tokenId, BitVec.ofNat 128 amount, owner⟩ := by
  obtain ⟨-, h⟩ := h.append (length_u32Bytes accountId)
  obtain ⟨htoken, h⟩ := h.append (length_u16Bytes tokenId)
  obtain ⟨hread, h⟩ := h.append (Bytes.length_toBytesBE 16 amount)
  obtain ⟨-, howner⟩ := h.append hfee
  simp only [readPartialExitPubdata, ACCOUNT_ID_BYTES, FEE_BYTES, readUInt16_eq htoken,
    readUInt128_eq hamount hread, readAddress_eq howner, Outcome.ok_bind]
  rfl

/-- What the contract reads of a forced exit: nothing but what it pays. -/
structure ForcedExit where
  tokenId : UInt16
  amount : BitVec 128
  target : Address
  deriving DecidableEq

/-- Both accounts and the fee are skipped. -/
def readForcedExitPubdata (data : Bytes) (start : Nat) : Sol ForcedExit := do
  let offset := start + ACCOUNT_ID_BYTES * 2
  let (offset, tokenId) ← readUInt16 data offset
  let (offset, amount) ← readUInt128 data offset
  let offset := offset + FEE_BYTES
  let (_, target) ← readAddress data offset
  return { tokenId, amount, target }

/-- The layout that the server writes holds what the contract pays. -/
theorem readForcedExitPubdata_eq {data fee : Bytes} {start : Nat}
    {initiatorAccountId targetAccountId : UInt32} {tokenId : UInt16} {amount : Nat}
    {target : Address} (hamount : amount < u128Bound) (hfee : fee.length = 2)
    (h : Bytes.At data start (u32Bytes initiatorAccountId ++ (u32Bytes targetAccountId ++
      (u16Bytes tokenId ++ (toBytesBE 16 amount ++ (fee ++ addressBytes target)))))) :
    readForcedExitPubdata data start = .ok ⟨tokenId, BitVec.ofNat 128 amount, target⟩ := by
  obtain ⟨-, h⟩ := h.append (length_u32Bytes initiatorAccountId)
  obtain ⟨-, h⟩ := h.append (length_u32Bytes targetAccountId)
  obtain ⟨htoken, h⟩ := h.append (length_u16Bytes tokenId)
  obtain ⟨hread, h⟩ := h.append (Bytes.length_toBytesBE 16 amount)
  obtain ⟨-, htarget⟩ := h.append hfee
  have hids : start + 4 * 2 = start + 4 + 4 := rfl
  simp only [readForcedExitPubdata, ACCOUNT_ID_BYTES, FEE_BYTES, hids, readUInt16_eq htoken,
    readUInt128_eq hamount hread, readAddress_eq htarget, Outcome.ok_bind]
  rfl

/-- What the contract checks consent for. -/
structure ChangePubKey where
  accountId : UInt32
  pubKeyHash : BitVec 160
  owner : Address
  nonce : UInt32
  deriving DecidableEq

/-- The token and the fee behind the nonce are not read. -/
def readChangePubKeyPubdata (data : Bytes) (start : Nat) : Sol ChangePubKey := do
  let (offset, accountId) ← readUInt32 data start
  let (offset, pubKeyHash) ← readBytes20 data offset
  let (offset, owner) ← readAddress data offset
  let (_, nonce) ← readUInt32 data offset
  return { accountId, pubKeyHash, owner, nonce }

/-- The layout that the server writes holds key, owner and nonce where they are read. -/
theorem readChangePubKeyPubdata_eq {data rest : Bytes} {start : Nat} {accountId nonce : UInt32}
    {pubKeyHash : BitVec 160} {owner : Address}
    (h : Bytes.At data start (u32Bytes accountId ++ (addressBytes pubKeyHash ++
      (addressBytes owner ++ (u32Bytes nonce ++ rest))))) :
    readChangePubKeyPubdata data start = .ok ⟨accountId, pubKeyHash, owner, nonce⟩ := by
  obtain ⟨haccount, h⟩ := h.append (length_u32Bytes accountId)
  obtain ⟨hhash, h⟩ := h.append (length_addressBytes pubKeyHash)
  obtain ⟨howner, h⟩ := h.append (length_addressBytes owner)
  obtain ⟨hnonce, -⟩ := h.append (length_u32Bytes nonce)
  simp only [readChangePubKeyPubdata, readUInt32_eq haccount, readBytes20_eq hhash,
    readAddress_eq howner, readUInt32_eq hnonce, Outcome.ok_bind]
  rfl

/-! ## Withdrawals -/

/-- A withdrawal as the contract processes it. -/
structure Withdrawal where
  addToPendingWithdrawalsQueue : Bool
  owner : Address
  tokenId : UInt16
  amount : BitVec 128
  deriving DecidableEq

/-- A record that the server sends when a block is verified. -/
def readWithdrawalData (data : Bytes) (start : Nat) : Sol Withdrawal := do
  let (offset, addToPendingWithdrawalsQueue) ← readBool data start
  let (offset, owner) ← readAddress data offset
  let (offset, tokenId) ← readUInt16 data offset
  let (_, amount) ← readUInt128 data offset
  return { addToPendingWithdrawalsQueue, owner, tokenId, amount }

/-- The record is read back, with the flag that decides about the queue. -/
theorem readWithdrawalData_eq {data : Bytes} {start : Nat} {flag : UInt8} {owner : Address}
    {tokenId : UInt16} {amount : Nat} (hamount : amount < u128Bound)
    (h : Bytes.At data start ([flag] ++ (addressBytes owner ++ (u16Bytes tokenId ++
      toBytesBE 16 amount)))) :
    readWithdrawalData data start =
      .ok ⟨flag != 0, owner, tokenId, BitVec.ofNat 128 amount⟩ := by
  obtain ⟨hflag, h⟩ := h.append List.length_singleton
  obtain ⟨howner, h⟩ := h.append (length_addressBytes owner)
  obtain ⟨htoken, hread⟩ := h.append (length_u16Bytes tokenId)
  simp only [readWithdrawalData, readBool_eq hflag, readAddress_eq howner, readUInt16_eq htoken,
    readUInt128_eq hamount hread, Outcome.ok_bind]
  rfl

end ZkSync.Contract
