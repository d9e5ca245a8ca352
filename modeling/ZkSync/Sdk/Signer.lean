import ZkSync.Contract.ChangePubkeyMessage
import ZkSync.Sdk.Packing
import ZkSync.Types.TxBytes

/-!
# The bytes a client signs

`zksync.js/src/signer.ts`: the signer writes the bytes of a transaction field by
field, as `get_bytes` of the server does, from numbers and texts: ids are JS numbers,
addresses and key hashes are texts of digits with a prefix. The server verifies a
signature over its own bytes, so a client can send a transaction only if both write
the same.

`signed_bytes_agree`: for a request with ids in range and packable amounts they do,
however the digits of an address are capitalised. With `signedFields_eq_of_getBytes`
a signature is good for one transaction only, up to what the signed bytes leave out.
-/

namespace ZkSync

open Bytes (ofBytesBE toBytesBE hexEncode hexDigit)

namespace Sdk

/-! ## `ethers` -/

/-- The functions of `ethers.utils` that the signer calls. -/
structure EthersUtils where
  /-- `arrayify` of a text. -/
  arrayify : List Char → Except String Bytes
  /-- `arrayify` of a `BigNumber`. -/
  arrayifyBigNumber : Nat → Bytes
  zeroPad : Bytes → Nat → Except String Bytes
  concat : List Bytes → Bytes

/-- What their documentation says. -/
structure EthersUtils.Documented (utils : EthersUtils) : Prop where
  /-- Two digits a byte, in upper or lower case. -/
  arrayify : ∀ digits bytes, digits.map Char.toLower = hexEncode bytes →
    utils.arrayify ("0x".toList ++ digits) = .ok bytes
  /-- The highest byte first, and no more bytes than there have to be. -/
  value : ∀ n, ofBytesBE (utils.arrayifyBigNumber n) = n
  shortest : ∀ n count, 0 < count → n < 256 ^ count → (utils.arrayifyBigNumber n).length ≤ count
  /-- Zeros in front, up to the length. -/
  zeroPad : ∀ bytes length, bytes.length ≤ length →
    utils.zeroPad bytes length = .ok (List.replicate (length - bytes.length) 0 ++ bytes)
  concat : ∀ arrays, utils.concat arrays = arrays.flatten

/-! ## `utils.ts` -/

/-- An exception is an error. -/
def throws {α : Type} : Except String α → Outcome α
  | .ok a => .ok a
  | .error message => .error (.error message)

/-- `MAX_NUMBER_OF_TOKENS`. -/
def maxNumberOfTokens : Int := 128

/-- `serializeTokenId`: negative ids and ids beyond the table are refused. -/
def serializeTokenId (tokenId : Int) : Except String Bytes :=
  if tokenId < 0 then throw "Negative tokenId"
  else if tokenId ≥ maxNumberOfTokens then throw "TokenId is too big"
  else return numberToBytesBE tokenId 2

/-- `removeAddressPrefix`: addresses and key hashes have different prefixes. -/
def removeAddressPrefix (address : List Char) : Except String (List Char) :=
  if "0x".toList.isPrefixOf address then return address.drop 2
  else if "sync:".toList.isPrefixOf address then return address.drop 5
  else throw "ETH address must start with '0x' and PubKeyHash must start with 'sync:'"

section Serialize

variable (utils : EthersUtils)

/-- `serializeAddress`: the digits behind the prefix have to be twenty bytes. -/
def serializeAddress (address : List Char) : Except String Bytes := do
  let prefixlessAddress ← removeAddressPrefix address
  let addressBytes ← utils.arrayify ("0x".toList ++ prefixlessAddress)
  if addressBytes.length ≠ 20 then throw "Address must be 20 bytes long" else return addressBytes

/-- `serializeAmountFull`: the full amount in sixteen bytes. -/
def serializeAmountFull (amount : Nat) : Except String Bytes :=
  utils.zeroPad (utils.arrayifyBigNumber amount) 16

/-- `serializeAmountPacked`: what cannot be packed is thrown out. -/
def serializeAmountPacked (amount : Nat) : Outcome Bytes := packAmountChecked amount

/-- `serializeFeePacked`. -/
def serializeFeePacked (fee : Nat) : Outcome Bytes := packFeeChecked fee

end Serialize

/-! ## `signer.ts` -/

/-- The arguments of `signSyncTransfer`. -/
structure TransferRequest where
  accountId : Int
  fromAddress : List Char
  toAddress : List Char
  tokenId : Int
  amount : Nat
  fee : Nat
  nonce : Int

/-- The arguments of `signSyncWithdraw`. -/
structure WithdrawRequest where
  accountId : Int
  fromAddress : List Char
  ethAddress : List Char
  tokenId : Int
  amount : Nat
  fee : Nat
  nonce : Int

/-- The arguments of `signSyncForcedExit`. -/
structure ForcedExitRequest where
  initiatorAccountId : Int
  target : List Char
  tokenId : Int
  fee : Nat
  nonce : Int

/-- The arguments of `signSyncChangePubKey`. -/
structure ChangePubKeyRequest where
  accountId : Int
  account : List Char
  newPkHash : List Char
  feeTokenId : Int
  fee : Nat
  nonce : Int

section Sign

variable (utils : EthersUtils)

/-- The `msgBytes` of `signSyncTransfer`; those of the other functions follow. -/
def signSyncTransfer (transfer : TransferRequest) : Outcome Bytes := do
  let type : Bytes := [5]
  let accountId ← throws (serializeAccountId transfer.accountId)
  let fromBytes ← throws (serializeAddress utils transfer.fromAddress)
  let toBytes ← throws (serializeAddress utils transfer.toAddress)
  let token ← throws (serializeTokenId transfer.tokenId)
  let amount ← serializeAmountPacked transfer.amount
  let fee ← serializeFeePacked transfer.fee
  let nonce ← throws (serializeNonce transfer.nonce)
  return utils.concat [type, accountId, fromBytes, toBytes, token, amount, fee, nonce]

/-- The bytes that a wallet signs for a withdrawal. -/
def signSyncWithdraw (withdraw : WithdrawRequest) : Outcome Bytes := do
  let typeBytes : Bytes := [3]
  let accountId ← throws (serializeAccountId withdraw.accountId)
  let accountBytes ← throws (serializeAddress utils withdraw.fromAddress)
  let ethAddressBytes ← throws (serializeAddress utils withdraw.ethAddress)
  let tokenIdBytes ← throws (serializeTokenId withdraw.tokenId)
  let amountBytes ← throws (serializeAmountFull utils withdraw.amount)
  let feeBytes ← serializeFeePacked withdraw.fee
  let nonceBytes ← throws (serializeNonce withdraw.nonce)
  return utils.concat [typeBytes, accountId, accountBytes, ethAddressBytes, tokenIdBytes,
    amountBytes, feeBytes, nonceBytes]

/-- The bytes that a wallet signs for a forced exit. -/
def signSyncForcedExit (forcedExit : ForcedExitRequest) : Outcome Bytes := do
  let typeBytes : Bytes := [8]
  let initiatorAccountIdBytes ← throws (serializeAccountId forcedExit.initiatorAccountId)
  let targetBytes ← throws (serializeAddress utils forcedExit.target)
  let tokenIdBytes ← throws (serializeTokenId forcedExit.tokenId)
  let feeBytes ← serializeFeePacked forcedExit.fee
  let nonceBytes ← throws (serializeNonce forcedExit.nonce)
  return utils.concat [typeBytes, initiatorAccountIdBytes, targetBytes, tokenIdBytes, feeBytes,
    nonceBytes]

/-- The bytes that a wallet signs for a key change. -/
def signSyncChangePubKey (changePubKey : ChangePubKeyRequest) : Outcome Bytes := do
  let typeBytes : Bytes := [7]
  let accountIdBytes ← throws (serializeAccountId changePubKey.accountId)
  let accountBytes ← throws (serializeAddress utils changePubKey.account)
  let pubKeyHashBytes ← throws (serializeAddress utils changePubKey.newPkHash)
  let tokenIdBytes ← throws (serializeTokenId changePubKey.feeTokenId)
  let feeBytes ← serializeFeePacked changePubKey.fee
  let nonceBytes ← throws (serializeNonce changePubKey.nonce)
  return utils.concat [typeBytes, accountIdBytes, accountBytes, pubKeyHashBytes, tokenIdBytes,
    feeBytes, nonceBytes]

end Sign

/-! ## Requests and transactions -/

/-- The digits of an address, in upper or lower case, behind a prefix: `0x`, or `sync:`
for the hash of a key. -/
def IsText (start : String) (address : BitVec 160) (text : List Char) : Prop :=
  ∃ digits, text = start.toList ++ digits ∧ digits.map Char.toLower = hexEncode (addressBytes address)

/-- The number is that id, and one that the signer takes. -/
def IsAccountId (accountId : AccountId) (number : Int) : Prop :=
  number = accountId.toNat ∧ accountId ≤ maxAccountId

/-- The number is that token, and one that the signer takes. -/
def IsTokenId (token : TokenId) (number : Int) : Prop :=
  number = token.toNat ∧ token ≤ maxTokenId

/-- The request is for this transaction: ids in range, addresses, packable amounts. -/
structure TransferRequest.For (request : TransferRequest) (tx : Transfer) : Prop where
  accountId : IsAccountId tx.accountId request.accountId
  fromAddress : IsText "0x" tx.fromAddress request.fromAddress
  toAddress : IsText "0x" tx.toAddress request.toAddress
  token : IsTokenId tx.token request.tokenId
  amount : request.amount = tx.amount
  fee : request.fee = tx.fee
  nonce : request.nonce = tx.nonce.toNat
  amountPackable : IsTokenAmountPackable tx.amount
  feePackable : IsFeeAmountPackable tx.fee

/-- The amount of a withdrawal need not be packable. -/
structure WithdrawRequest.For (request : WithdrawRequest) (tx : Withdraw) : Prop where
  accountId : IsAccountId tx.accountId request.accountId
  fromAddress : IsText "0x" tx.fromAddress request.fromAddress
  ethAddress : IsText "0x" tx.toAddress request.ethAddress
  token : IsTokenId tx.token request.tokenId
  amount : request.amount = tx.amount
  fee : request.fee = tx.fee
  nonce : request.nonce = tx.nonce.toNat
  amount_lt : tx.amount < u128Bound
  feePackable : IsFeeAmountPackable tx.fee

/-- The arguments say what the transaction says. -/
structure ForcedExitRequest.For (request : ForcedExitRequest) (tx : ForcedExit) : Prop where
  initiatorAccountId : IsAccountId tx.initiatorAccountId request.initiatorAccountId
  target : IsText "0x" tx.target request.target
  token : IsTokenId tx.token request.tokenId
  fee : request.fee = tx.fee
  nonce : request.nonce = tx.nonce.toNat
  feePackable : IsFeeAmountPackable tx.fee

/-- The arguments say what the transaction says. -/
structure ChangePubKeyRequest.For (request : ChangePubKeyRequest) (tx : ChangePubKey) : Prop where
  accountId : IsAccountId tx.accountId request.accountId
  account : IsText "0x" tx.account request.account
  newPkHash : IsText "sync:" tx.newPkHash request.newPkHash
  feeToken : IsTokenId tx.feeToken request.feeTokenId
  fee : request.fee = tx.fee
  nonce : request.nonce = tx.nonce.toNat
  feePackable : IsFeeAmountPackable tx.fee

/-! ## The fields -/

section Fields

variable {utils : EthersUtils}

@[simp] theorem throws_ok {α : Type} (a : α) : throws (.ok a) = .ok a := rfl

/-- The signer writes an id as the server does. -/
theorem serializeAccountId_ok {accountId : AccountId} {number : Int}
    (h : IsAccountId accountId number) : serializeAccountId number = .ok (u32Bytes accountId) := by
  obtain ⟨rfl, hle⟩ := h
  have hlt : accountId.toNat < 2 ^ 24 := Nat.lt_succ_of_le (UInt32.le_iff_toNat_le.mp hle)
  rw [serializeAccountId_toNat, if_pos hlt]
  rfl

theorem serializeTokenId_ok {token : TokenId} {number : Int} (h : IsTokenId token number) :
    serializeTokenId number = .ok (u16Bytes token) := by
  obtain ⟨rfl, hle⟩ := h
  have hlt : token.toNat < 128 := Nat.lt_succ_of_le (UInt16.le_iff_toNat_le.mp hle)
  have hbytes : numberToBytesBE token.toNat 2 = u16Bytes token := by
    refine numberToBytesBE_ofInt (by decide) ?_
    rw [BitVec.ofInt_natCast, BitVec.toNat_ofNat, Nat.mod_eq_of_lt (Nat.lt_trans hlt (by decide))]
  unfold serializeTokenId maxNumberOfTokens
  rw [if_neg (by omega), if_neg (by omega), hbytes]
  rfl

/-- The signer writes a nonce as the server does. -/
theorem serializeNonce_ok {nonce : Nonce} {number : Int} (h : number = nonce.toNat) :
    serializeNonce number = .ok (u32Bytes nonce) := by
  rw [h, serializeNonce_toNat]
  rfl

/-- The library turns the digits of an address into its bytes, whatever their case. -/
theorem arrayify_digits (hutils : utils.Documented) {address : BitVec 160} {digits : List Char}
    (h : digits.map Char.toLower = hexEncode (addressBytes address)) :
    (do
      let bytes ← utils.arrayify ("0x".toList ++ digits)
      if bytes.length ≠ 20 then throw "Address must be 20 bytes long" else return bytes :
        Except String Bytes) = .ok (addressBytes address) := by
  have hlen : ¬ (addressBytes address).length ≠ 20 := by
    rw [length_addressBytes]
    decide
  rw [hutils.arrayify _ _ h, Outcome.ok_bind, if_neg hlen, Outcome.pure_eq]

/-- So the text of an address becomes its bytes. -/
theorem serializeAddress_ok (hutils : utils.Documented) {address : Address} {text : List Char}
    (h : IsText "0x" address text) :
    serializeAddress utils text = .ok (addressBytes address) := by
  obtain ⟨digits, rfl, hdigits⟩ := h
  exact arrayify_digits hutils hdigits

/-- So does the text of a key hash, behind its own prefix. -/
theorem serializePubKeyHash_ok (hutils : utils.Documented) {hash : PubKeyHash} {text : List Char}
    (h : IsText "sync:" hash text) : serializeAddress utils text = .ok (addressBytes hash) := by
  obtain ⟨digits, rfl, hdigits⟩ := h
  exact arrayify_digits hutils hdigits

/-- A number, padded to the width of a `u128`. -/
theorem serializeAmountFull_ok (hutils : utils.Documented) {amount : Nat}
    (h : amount < u128Bound) : serializeAmountFull utils amount = .ok (toBytesBE 16 amount) := by
  have hlen := hutils.shortest amount 16 (by decide) h
  unfold serializeAmountFull
  rw [hutils.zeroPad _ _ hlen]
  generalize hbytes : utils.arrayifyBigNumber amount = bytes at hlen
  have hvalue : ofBytesBE (List.replicate (16 - bytes.length) 0 ++ bytes) = amount := by
    rw [Bytes.ofBytesBE_append, ← Bytes.toBytesBE_zero, Bytes.ofBytesBE_toBytesBE,
      Nat.zero_mod, Nat.zero_mul, Nat.zero_add, ← hbytes, hutils.value]
  have hwidth : (List.replicate (16 - bytes.length) (0 : UInt8) ++ bytes).length = 16 := by
    rw [List.length_append, List.length_replicate]
    omega
  have hback := Bytes.toBytesBE_ofBytesBE (List.replicate (16 - bytes.length) 0 ++ bytes)
  rw [hwidth, hvalue] at hback
  rw [hback]

/-- Signer and server pack a packable amount into the same bytes. -/
theorem serializeAmountPacked_ok {amount : Nat} (h : IsTokenAmountPackable amount) :
    serializeAmountPacked amount = packTokenAmount amount := by
  have h128 := FloatConversions.lt_of_pack h.choose_spec.1
  have hnot := not_between_of_packable (n := 5) rfl (by decide) h128 h
  exact ((packing_alike_iff h128).1.mpr hnot).bytes h

/-- They pack a packable fee into the same bytes. -/
theorem serializeFeePacked_ok {fee : Nat} (h : IsFeeAmountPackable fee) :
    serializeFeePacked fee = packFeeAmount fee := by
  have h128 := FloatConversions.lt_of_pack h.choose_spec.1
  have hnot := not_between_of_packable (n := 2) rfl (by decide) h128 h
  exact ((packing_alike_iff h128).2.mpr hnot).bytes h

end Fields

/-! ## The same bytes -/

section Agree

variable {utils : EthersUtils}

/-- For a transfer both sides sign the same bytes. -/
theorem signSyncTransfer_eq (hutils : utils.Documented) {request : TransferRequest} {tx : Transfer}
    (h : request.For tx) : signSyncTransfer utils request = tx.getBytes := by
  unfold signSyncTransfer Transfer.getBytes
  rw [serializeAccountId_ok h.accountId, serializeAddress_ok hutils h.fromAddress,
    serializeAddress_ok hutils h.toAddress, serializeTokenId_ok h.token, h.amount, h.fee,
    serializeAmountPacked_ok h.amountPackable, serializeFeePacked_ok h.feePackable,
    serializeNonce_ok h.nonce]
  simp only [throws_ok, Outcome.ok_bind, hutils.concat]
  rfl

/-- For a withdrawal, too. -/
theorem signSyncWithdraw_eq (hutils : utils.Documented) {request : WithdrawRequest} {tx : Withdraw}
    (h : request.For tx) : signSyncWithdraw utils request = tx.getBytes := by
  unfold signSyncWithdraw Withdraw.getBytes
  rw [serializeAccountId_ok h.accountId, serializeAddress_ok hutils h.fromAddress,
    serializeAddress_ok hutils h.ethAddress, serializeTokenId_ok h.token, h.amount, h.fee,
    serializeAmountFull_ok hutils h.amount_lt, u128Bytes_eq h.amount_lt,
    serializeFeePacked_ok h.feePackable, serializeNonce_ok h.nonce]
  simp only [throws_ok, Outcome.ok_bind, hutils.concat]
  rfl

/-- For a forced exit, too. -/
theorem signSyncForcedExit_eq (hutils : utils.Documented) {request : ForcedExitRequest}
    {tx : ForcedExit} (h : request.For tx) : signSyncForcedExit utils request = tx.getBytes := by
  unfold signSyncForcedExit ForcedExit.getBytes
  rw [serializeAccountId_ok h.initiatorAccountId, serializeAddress_ok hutils h.target,
    serializeTokenId_ok h.token, h.fee, serializeFeePacked_ok h.feePackable,
    serializeNonce_ok h.nonce]
  simp only [throws_ok, Outcome.ok_bind, hutils.concat]
  rfl

/-- For a key change, too. -/
theorem signSyncChangePubKey_eq (hutils : utils.Documented) {request : ChangePubKeyRequest}
    {tx : ChangePubKey} (h : request.For tx) :
    signSyncChangePubKey utils request = tx.getBytes := by
  unfold signSyncChangePubKey ChangePubKey.getBytes
  rw [serializeAccountId_ok h.accountId, serializeAddress_ok hutils h.account,
    serializePubKeyHash_ok hutils h.newPkHash, serializeTokenId_ok h.feeToken, h.fee,
    serializeFeePacked_ok h.feePackable, serializeNonce_ok h.nonce]
  simp only [throws_ok, Outcome.ok_bind, hutils.concat]
  rfl

end Agree

/-- A request of one of the four kinds that the signer signs. -/
inductive SignRequest where
  | transfer (request : TransferRequest)
  | withdraw (request : WithdrawRequest)
  | forcedExit (request : ForcedExitRequest)
  | changePubKey (request : ChangePubKeyRequest)

/-- What is signed, by the kind of the request. -/
def SignRequest.msgBytes (utils : EthersUtils) : SignRequest → Outcome Bytes
  | .transfer request => signSyncTransfer utils request
  | .withdraw request => signSyncWithdraw utils request
  | .forcedExit request => signSyncForcedExit utils request
  | .changePubKey request => signSyncChangePubKey utils request

/-- The request is for this transaction. -/
inductive SignRequest.For : SignRequest → ZkSyncTx → Prop
  | transfer {request : TransferRequest} {tx : Transfer} (h : request.For tx) :
      For (.transfer request) (.Transfer tx)
  | withdraw {request : WithdrawRequest} {tx : Withdraw} (h : request.For tx) :
      For (.withdraw request) (.Withdraw tx)
  | forcedExit {request : ForcedExitRequest} {tx : ForcedExit} (h : request.For tx) :
      For (.forcedExit request) (.ForcedExit tx)
  | changePubKey {request : ChangePubKeyRequest} {tx : ChangePubKey} (h : request.For tx) :
      For (.changePubKey request) (.ChangePubKey tx)

/-- There are bytes to sign for every request, as the numbers in it are packable. -/
theorem SignRequest.For.succeeds_getBytes {request : SignRequest} {tx : ZkSyncTx}
    (h : request.For tx) : tx.getBytes.Succeeds := by
  cases h with
  | transfer h => exact Transfer.succeeds_getBytes h.amountPackable.packs h.feePackable.packs
  | withdraw h => exact Withdraw.succeeds_getBytes h.amount_lt h.feePackable.packs
  | forcedExit h => exact ForcedExit.succeeds_getBytes h.feePackable.packs
  | changePubKey h => exact ChangePubKey.succeeds_getBytes.mpr h.feePackable.packs

/-- The client signs the bytes that the server verifies, and these determine the kind of the
transaction and all that is signed. -/
theorem signed_bytes_agree {utils : EthersUtils} (hutils : utils.Documented) :
    (∀ request tx, SignRequest.For request tx →
      ∃ bytes, request.msgBytes utils = .ok bytes ∧ tx.getBytes = .ok bytes) ∧
    ∀ (tx tx' : ZkSyncTx) bytes, tx.getBytes = .ok bytes → tx'.getBytes = .ok bytes →
      tx.signedFields = tx'.signedFields := by
  refine ⟨fun request tx h => ?_, fun _ _ _ => ZkSyncTx.signedFields_eq_of_getBytes⟩
  obtain ⟨bytes, hbytes⟩ := h.succeeds_getBytes
  refine ⟨bytes, ?_, hbytes⟩
  rw [← hbytes]
  cases h with
  | transfer h => exact signSyncTransfer_eq hutils h
  | withdraw h => exact signSyncWithdraw_eq hutils h
  | forcedExit h => exact signSyncForcedExit_eq hutils h
  | changePubKey h => exact signSyncChangePubKey_eq hutils h

/-! ## Libraries that behave as documented -/

/-- The value of a digit, in upper or lower case. -/
def hexValue (c : Char) : Nat := "0123456789abcdef".toList.idxOf c.toLower

/-- Two digits for a byte, of either case. -/
def decodeDigits : List Char → Except String Bytes
  | [] => .ok []
  | [_] => .error "hex data is odd-length"
  | c :: c' :: digits =>
    if hexValue c < 16 ∧ hexValue c' < 16 then do
      return UInt8.ofNat (16 * hexValue c + hexValue c') :: (← decodeDigits digits)
    else .error "invalid arrayify value"

/-- Decoding gives back what was written, in either case. -/
theorem decodeDigits_eq {digits : List Char} {bytes : Bytes}
    (h : digits.map Char.toLower = hexEncode bytes) : decodeDigits digits = .ok bytes := by
  have hvalue : ∀ n < 16, "0123456789abcdef".toList.idxOf (hexDigit n) = n := by decide
  induction bytes generalizing digits with
  | nil => rw [List.map_eq_nil_iff.mp h, decodeDigits]
  | cons b bytes ih =>
    obtain ⟨c, digits', rfl, hc, h⟩ := List.map_eq_cons_iff.mp h
    obtain ⟨c', digits, rfl, hc', h⟩ := List.map_eq_cons_iff.mp h
    have hb : b.toNat < 256 := b.toNat_lt
    have hhigh : hexValue c = b.toNat / 16 := by
      unfold hexValue
      rw [hc, hvalue _ (by omega)]
    have hlow : hexValue c' = b.toNat % 16 := by
      unfold hexValue
      rw [hc', hvalue _ (by omega)]
    have hbyte : 16 * (b.toNat / 16) + b.toNat % 16 = b.toNat := Nat.div_add_mod _ _
    rw [decodeDigits, hhigh, hlow, if_pos (by omega), ih h, hbyte, UInt8.ofNat_toNat]
    rfl

/-- A library that does what the documentation of the real one says. -/
def plainUtils : EthersUtils where
  arrayify text :=
    if "0x".toList.isPrefixOf text then decodeDigits (text.drop 2)
    else .error "invalid arrayify value"
  arrayifyBigNumber n := toBytesBE (Nat.log 256 n + 1) n
  zeroPad bytes length :=
    if bytes.length ≤ length then .ok (List.replicate (length - bytes.length) 0 ++ bytes)
    else .error "value out of range"
  concat arrays := arrays.flatten

/-- It does. -/
theorem plainUtils_documented : plainUtils.Documented where
  arrayify digits bytes h := decodeDigits_eq h
  value n := Bytes.ofBytesBE_toBytesBE_of_lt (Nat.lt_pow_succ_log_self (by decide) n)
  shortest n count hcount hlt := by
    show (toBytesBE _ n).length ≤ count
    rw [Bytes.length_toBytesBE]
    exact Nat.log_lt_of_lt_pow' (by omega) hlt
  zeroPad bytes length h := if_pos h
  concat arrays := rfl

/-- A forced exit of the account of address 1, and the request for it. -/
def sampleExit : ForcedExit where
  initiatorAccountId := 7
  target := 1
  token := 3
  fee := 0
  nonce := 300
  signature := ⟨0, 0⟩

def sampleExitRequest : ForcedExitRequest where
  initiatorAccountId := 7
  target := "0x0000000000000000000000000000000000000001".toList
  tokenId := 3
  fee := 0
  nonce := 300

theorem signed_bytes_agree_sampleExit :
    ∃ bytes, signSyncForcedExit plainUtils sampleExitRequest = .ok bytes ∧
      sampleExit.getBytes = .ok bytes :=
  (signed_bytes_agree plainUtils_documented).1 (.forcedExit sampleExitRequest)
    (.ForcedExit sampleExit) (.forcedExit
      { initiatorAccountId := ⟨rfl, by decide⟩
        target := ⟨_, rfl, by decide⟩
        token := ⟨rfl, by decide⟩
        fee := rfl
        nonce := rfl
        feePackable :=
          (FloatConversions.packable_iff (n := 2) rfl (by decide)).mpr
            ⟨0, by decide, 0, by decide, rfl⟩ })

end Sdk

end ZkSync
