import ZkSync.Contract.Bytes
import ZkSync.Types.Tx

/-!
# The message of a key change

The owner of an account consents to a new key by an Ethereum signature over a
text. Three programs write that text: the contract, which recovers the signer
(`verifyChangePubkeySignature`), the server, which checks the signature first
(`ChangePubKey::get_eth_signed_data`), and the JS SDK, which asks the wallet to sign
(`getChangePubkeyMessage`). Each formats the key hash, the nonce and the account
id as hexadecimal in its own way. `changePubkeyMessage_agree` says that they write
the same bytes, 152 of them, as many as the prefix of the contract declares.

The SDK refuses account ids from `2 ^ 24` on, which the account tree does not have;
the other two format any 32-bit id.
-/

namespace ZkSync

open Bytes (toBytesBE utf8 hexEncode hexDigit)

/-! ## The contract -/

namespace Contract

/-- The argument of `recoverAddressFromEthSignature` in `verifyChangePubkeySignature`. -/
def changePubkeySignedMessage (newPkHash : PubKeyHash) (nonce : UInt32) (accountId : UInt32) :
    Sol Bytes := do
  let nonceBytes ← toBytesFromUInt32 nonce
  let accountIdBytes ← toBytesFromUInt32 accountId
  return utf8 "\x19Ethereum Signed Message:\n152".toList ++
    (utf8 "Register zkSync pubkey:\n\n".toList ++
    (bytesToHexASCIIBytes (toBytesBE 20 newPkHash.toNat) ++ (utf8 "\n".toList ++
    (utf8 "nonce: 0x".toList ++ (bytesToHexASCIIBytes nonceBytes ++ (utf8 "\n".toList ++
    (utf8 "account id: 0x".toList ++ (bytesToHexASCIIBytes accountIdBytes ++
    (utf8 "\n\n".toList ++
    utf8 "Only sign this message for a trusted client!".toList)))))))))

end Contract

/-! ## Hexadecimal libraries -/

/-- The functions the server and the SDK import to format bytes. -/
structure HexLibraries where
  /-- `hex::encode` of the `hex` crate. -/
  encode : Bytes → List Char
  /-- `hexlify` of `ethers`. -/
  hexlify : Bytes → List Char

/-- What their documentation says: two digits a byte. `hexlify` writes a `0x` and
lower-case digits. -/
structure HexLibraries.Documented (hex : HexLibraries) : Prop where
  encode : ∀ bytes, (hex.encode bytes).map Char.toLower = hexEncode bytes
  hexlify : ∀ bytes, hex.hexlify bytes = "0x".toList ++ hexEncode bytes

/-! ## The server -/

/-- `ChangePubKey::get_eth_signed_data`. -/
def ChangePubKey.getEthSignedData (hex : HexLibraries) (tx : ChangePubKey) : Outcome Bytes := do
  let pubkey := (hex.encode (toBytesBE 20 tx.newPkHash.toNat)).map Char.toLower
  let nonce := (hex.encode (toBytesBE 4 tx.nonce.toNat)).map Char.toLower
  let accountId := (hex.encode (toBytesBE 4 tx.accountId.toNat)).map Char.toLower
  let ethSignedMsg := utf8 "Register zkSync pubkey:\n\n".toList ++
    (utf8 (pubkey ++ ("\nnonce: 0x".toList ++ (nonce ++ ("\naccount id: 0x".toList ++
      (accountId ++ "\n\n".toList))))) ++
    utf8 "Only sign this message for a trusted client!".toList)
  Outcome.ensure (ethSignedMsg.length = 152) "Change pubkey signed message len is too big"
  return ethSignedMsg

/-! ## The SDK -/

/-- `number & 0xff` and `number >>= 8` work on the 32-bit integer of a JS number. -/
def numberToBytesBE (number : Int) : Nat → Bytes
  | 0 => []
  | bytes + 1 =>
    numberToBytesBE ((BitVec.ofInt 32 number).sshiftRight 8).toInt bytes ++
      [UInt8.ofNat (BitVec.ofInt 32 number &&& 0xff).toNat]

/-- `MAX_NUMBER_OF_ACCOUNTS`. -/
def maxNumberOfAccounts : Int := 2 ^ 24

def serializeAccountId (accountId : Int) : Except String Bytes :=
  if accountId < 0 then throw "Negative account id"
  else if accountId ≥ maxNumberOfAccounts then throw "AccountId is too big"
  else return numberToBytesBE accountId 4

def serializeNonce (nonce : Int) : Except String Bytes :=
  if nonce < 0 then throw "Negative nonce" else return numberToBytesBE nonce 4

/-- `String.prototype.replace` with a string: the first occurrence is replaced. -/
def replaceFirst (pattern replacement : List Char) : List Char → List Char
  | [] => if pattern = [] then replacement else []
  | c :: text =>
    if pattern.isPrefixOf (c :: text) then replacement ++ (c :: text).drop pattern.length
    else c :: replaceFirst pattern replacement text

/-- A public key hash of the SDK is a string, `sync:` and 40 digits. -/
def getChangePubkeyMessage (hex : HexLibraries) (pubKeyHash : List Char) (nonce accountId : Int) :
    Except String (List Char) := do
  let msgNonce := hex.hexlify (← serializeNonce nonce)
  let msgAccId := hex.hexlify (← serializeAccountId accountId)
  let pubKeyHashHex := (replaceFirst "sync:".toList [] pubKeyHash).map Char.toLower
  return "Register zkSync pubkey:\n\n".toList ++ (pubKeyHashHex ++ ("\n".toList ++
    ("nonce: ".toList ++ (msgNonce ++ ("\n".toList ++ ("account id: ".toList ++ (msgAccId ++
    ("\n\n".toList ++ "Only sign this message for a trusted client!".toList))))))))

/-! ## Agreement -/

/-- The bytes that all three write. -/
def changePubkeyText (newPkHash : PubKeyHash) (nonce accountId : UInt32) : List Char :=
  "Register zkSync pubkey:\n\n".toList ++ (hexEncode (toBytesBE 20 newPkHash.toNat) ++
    ("\nnonce: 0x".toList ++ (hexEncode (toBytesBE 4 nonce.toNat) ++ ("\naccount id: 0x".toList ++
    (hexEncode (toBytesBE 4 accountId.toNat) ++
    "\n\nOnly sign this message for a trusted client!".toList)))))

theorem length_changePubkeyText (newPkHash : PubKeyHash) (nonce accountId : UInt32) :
    (utf8 (changePubkeyText newPkHash nonce accountId)).length = 152 := by
  have h₁ : (utf8 "Register zkSync pubkey:\n\n".toList).length = 25 := by decide
  have h₂ : (utf8 "\nnonce: 0x".toList).length = 10 := by decide
  have h₃ : (utf8 "\naccount id: 0x".toList).length = 15 := by decide
  have h₄ : (utf8 "\n\nOnly sign this message for a trusted client!".toList).length = 46 := by
    decide
  unfold changePubkeyText
  simp only [Bytes.utf8_append, List.length_append, Bytes.length_utf8_hexEncode,
    Bytes.length_toBytesBE, h₁, h₂, h₃, h₄]

/-- What Ethereum wallets write in front of a message: its length is part of it. -/
def ethSignedMessagePrefix (length : Nat) : Bytes :=
  utf8 ("\x19Ethereum Signed Message:\n".toList ++ (toString length).toList)

theorem changePubkeySignedMessage_eq (newPkHash : PubKeyHash) (nonce accountId : UInt32) :
    Contract.changePubkeySignedMessage newPkHash nonce accountId =
      .ok (ethSignedMessagePrefix 152 ++ utf8 (changePubkeyText newPkHash nonce accountId)) := by
  have hpre : utf8 "\x19Ethereum Signed Message:\n152".toList = ethSignedMessagePrefix 152 := by
    decide
  have hnonce : utf8 "\nnonce: 0x".toList = utf8 "\n".toList ++ utf8 "nonce: 0x".toList := by
    decide
  have hid : utf8 "\naccount id: 0x".toList =
      utf8 "\n".toList ++ utf8 "account id: 0x".toList := by decide
  have hend : utf8 "\n\nOnly sign this message for a trusted client!".toList =
      utf8 "\n\n".toList ++ utf8 "Only sign this message for a trusted client!".toList := by decide
  unfold Contract.changePubkeySignedMessage Contract.toBytesFromUInt32
  rw [Contract.toBytesFromUIntTruncated_eq _ (by decide),
    Contract.toBytesFromUIntTruncated_eq _ (by decide)]
  show Except.ok _ = _
  unfold changePubkeyText
  simp only [Bytes.utf8_append, Contract.bytesToHexASCIIBytes_eq, hpre, hnonce, hid, hend,
    List.append_assoc]

theorem getEthSignedData_eq {hex : HexLibraries} (hhex : hex.Documented) (tx : ChangePubKey) :
    tx.getEthSignedData hex =
      .ok (utf8 (changePubkeyText tx.newPkHash tx.nonce tx.accountId)) := by
  have hend : utf8 "\n\nOnly sign this message for a trusted client!".toList =
      utf8 "\n\n".toList ++ utf8 "Only sign this message for a trusted client!".toList := by decide
  have htext : utf8 "Register zkSync pubkey:\n\n".toList ++
      (utf8 (hexEncode (toBytesBE 20 tx.newPkHash.toNat) ++ ("\nnonce: 0x".toList ++
        (hexEncode (toBytesBE 4 tx.nonce.toNat) ++ ("\naccount id: 0x".toList ++
          (hexEncode (toBytesBE 4 tx.accountId.toNat) ++ "\n\n".toList))))) ++
        utf8 "Only sign this message for a trusted client!".toList) =
      utf8 (changePubkeyText tx.newPkHash tx.nonce tx.accountId) := by
    unfold changePubkeyText
    simp only [Bytes.utf8_append, hend, List.append_assoc]
  have hlen := length_changePubkeyText tx.newPkHash tx.nonce tx.accountId
  unfold ChangePubKey.getEthSignedData
  simp only [hhex.encode, htext, Outcome.ensure, if_pos hlen]
  rfl

/-! ### The numbers of the SDK -/

theorem numberToBytesBE_ofInt {number : Int} {n bytes : Nat} (hbytes : bytes ≤ 4)
    (h : (BitVec.ofInt 32 number).toNat % 256 ^ bytes = n % 256 ^ bytes) :
    numberToBytesBE number bytes = toBytesBE bytes n := by
  induction bytes generalizing number n with
  | zero => rfl
  | succ bytes ih =>
    have hlow : (BitVec.ofInt 32 number).toNat % 256 = n % 256 := by
      have hdvd : 256 ∣ 256 ^ (bytes + 1) := Dvd.intro_left _ rfl
      rw [← Nat.mod_mod_of_dvd _ hdvd, h, Nat.mod_mod_of_dvd _ hdvd]
    have hbyte : UInt8.ofNat (BitVec.ofInt 32 number &&& 0xff).toNat = UInt8.ofNat n := by
      apply UInt8.toNat_inj.mp
      rw [UInt8.toNat_ofNat', UInt8.toNat_ofNat', BitVec.toNat_and]
      show (_ &&& (2 ^ 8 - 1)) % 2 ^ 8 = n % 2 ^ 8
      rw [Nat.and_two_pow_sub_one_eq_mod, Nat.mod_mod]
      exact hlow
    -- The sign only fills the highest byte, which is not read again.
    have hshift : (BitVec.ofInt 32 ((BitVec.ofInt 32 number).sshiftRight 8).toInt).toNat %
        256 ^ bytes = n / 256 % 256 ^ bytes := by
      have hv : (BitVec.ofInt 32 number).toNat < 2 ^ 32 := BitVec.isLt _
      rw [BitVec.ofInt_toInt, BitVec.toNat_sshiftRight]
      rw [Nat.pow_succ'] at h
      generalize (BitVec.ofInt 32 number).toNat = v at h hv hlow ⊢
      have hdiv : v / 256 % 256 ^ bytes = n / 256 % 256 ^ bytes := by
        rw [Nat.mod_mul, Nat.mod_mul, hlow] at h
        omega
      have hfill : 256 ^ bytes ∣ 255 * 256 ^ 3 :=
        Dvd.dvd.mul_left (Nat.pow_dvd_pow 256 (Nat.le_of_succ_le_succ hbytes)) 255
      obtain ⟨fill, hfill⟩ := hfill
      split
      · have hneg : 2 ^ 32 - 1 - (2 ^ 32 - 1 - v) >>> 8 = v / 256 + 255 * 256 ^ 3 := by
          rw [Nat.shiftRight_eq_div_pow]
          omega
        rw [hneg, hfill, Nat.add_mul_mod_self_left, hdiv]
      · rw [Nat.shiftRight_eq_div_pow]
        exact hdiv
    rw [numberToBytesBE, ih (by omega) hshift, hbyte, toBytesBE]

theorem numberToBytesBE_toNat (n : UInt32) :
    numberToBytesBE n.toNat 4 = toBytesBE 4 n.toNat := by
  apply numberToBytesBE_ofInt (Nat.le_refl 4)
  have hn : n.toNat < 2 ^ 32 := n.toNat_lt
  rw [BitVec.ofInt_natCast, BitVec.toNat_ofNat, Nat.mod_eq_of_lt hn]

theorem serializeNonce_toNat (nonce : UInt32) :
    serializeNonce nonce.toNat = .ok (toBytesBE 4 nonce.toNat) := by
  unfold serializeNonce
  rw [if_neg (by omega), numberToBytesBE_toNat]
  rfl

theorem serializeAccountId_toNat (accountId : UInt32) :
    serializeAccountId accountId.toNat =
      if accountId.toNat < 2 ^ 24 then .ok (toBytesBE 4 accountId.toNat)
      else .error "AccountId is too big" := by
  unfold serializeAccountId maxNumberOfAccounts
  rw [if_neg (by omega), numberToBytesBE_toNat]
  by_cases h : accountId.toNat < 2 ^ 24
  · rw [if_pos h, if_neg (by omega)]
    rfl
  · rw [if_neg h, if_pos (by omega)]
    rfl

/-- The SDK strips the prefix of a public key hash. -/
theorem replaceFirst_sync (digits : List Char) :
    replaceFirst "sync:".toList [] ("sync:".toList ++ digits) = digits := rfl

theorem getChangePubkeyMessage_eq {hex : HexLibraries} (hhex : hex.Documented)
    {newPkHash : PubKeyHash} {digits : List Char}
    (hdigits : digits.map Char.toLower = hexEncode (toBytesBE 20 newPkHash.toNat))
    (nonce accountId : UInt32) :
    getChangePubkeyMessage hex ("sync:".toList ++ digits) nonce.toNat accountId.toNat =
      if accountId.toNat < 2 ^ 24 then .ok (changePubkeyText newPkHash nonce accountId)
      else .error "AccountId is too big" := by
  have hnonce : "\nnonce: 0x".toList = "\n".toList ++ ("nonce: ".toList ++ "0x".toList) := by
    decide
  have hid : "\naccount id: 0x".toList =
      "\n".toList ++ ("account id: ".toList ++ "0x".toList) := by decide
  have hend : "\n\nOnly sign this message for a trusted client!".toList =
      "\n\n".toList ++ "Only sign this message for a trusted client!".toList := by decide
  unfold getChangePubkeyMessage
  rw [serializeNonce_toNat, serializeAccountId_toNat]
  split
  next h =>
    show Except.ok _ = Except.ok _
    unfold changePubkeyText
    rw [hhex.hexlify, hhex.hexlify, replaceFirst_sync, hdigits, hnonce, hid, hend]
    simp only [List.append_assoc]
  next h => rfl

/-- The contract, the server and the SDK write the same message, of the length its
prefix declares; the SDK does so for every account of the tree. -/
theorem changePubkeyMessage_agree {hex : HexLibraries} (hhex : hex.Documented) (tx : ChangePubKey)
    {digits : List Char}
    (hdigits : digits.map Char.toLower = hexEncode (toBytesBE 20 tx.newPkHash.toNat)) :
    ∃ message, tx.getEthSignedData hex = .ok message ∧
      Contract.changePubkeySignedMessage tx.newPkHash tx.nonce tx.accountId =
        .ok (ethSignedMessagePrefix message.length ++ message) ∧
      message.length = 152 ∧
      (getChangePubkeyMessage hex ("sync:".toList ++ digits) tx.nonce.toNat
          tx.accountId.toNat).map utf8 =
        if tx.accountId.toNat < 2 ^ 24 then .ok message else .error "AccountId is too big" := by
  have hlen := length_changePubkeyText tx.newPkHash tx.nonce tx.accountId
  refine ⟨_, getEthSignedData_eq hhex tx, ?_, hlen, ?_⟩
  · rw [hlen]
    exact changePubkeySignedMessage_eq tx.newPkHash tx.nonce tx.accountId
  · rw [getChangePubkeyMessage_eq hhex hdigits]
    split <;> rfl

/-- Libraries that behave as documented. -/
def lowerCaseHex : HexLibraries where
  encode := hexEncode
  hexlify bytes := "0x".toList ++ hexEncode bytes

theorem lowerCaseHex_documented : lowerCaseHex.Documented where
  encode bytes := Bytes.toLower_hexEncode bytes
  hexlify _ := rfl

def someKeyChange (accountId : AccountId) : ChangePubKey where
  accountId
  account := 0xABCD
  newPkHash := 0x0123456789ABCDEF0123456789ABCDEF01234567
  feeToken := 0
  fee := 0
  nonce := 7
  signature := ⟨0, 0⟩
  ethSignature := none

/-- The digits of the new key hash of `someKeyChange`. -/
def someDigits : List Char := "0123456789ABCDEF0123456789abcdef01234567".toList

theorem changePubkeyMessage_agree_five :
    ∃ message, (someKeyChange 5).getEthSignedData lowerCaseHex = .ok message ∧
      (getChangePubkeyMessage lowerCaseHex ("sync:".toList ++ someDigits) 7 5).map utf8 =
        .ok message := by
  obtain ⟨message, hserver, -, -, hsdk⟩ :=
    changePubkeyMessage_agree lowerCaseHex_documented (someKeyChange 5)
      (show someDigits.map Char.toLower = _ by decide)
  exact ⟨message, hserver, hsdk⟩

/-- The SDK refuses an account id that the server and the contract format. -/
theorem changePubkeyMessage_id_too_big :
    ¬ ∃ message, (someKeyChange 16777216).getEthSignedData lowerCaseHex = .ok message ∧
      (getChangePubkeyMessage lowerCaseHex ("sync:".toList ++ someDigits) 7 16777216).map utf8 =
        .ok message := by
  rintro ⟨message, -, hsdk⟩
  have hrefused : (getChangePubkeyMessage lowerCaseHex ("sync:".toList ++ someDigits) 7
      16777216).map utf8 = .error "AccountId is too big" := rfl
  rw [hrefused] at hsdk
  cases hsdk

end ZkSync
