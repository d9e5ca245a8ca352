import ZkSync.Contract.Calls
import ZkSync.Witness.OperationBits

/-!
# The public data commitment

The witness builder hashes bit vectors, which it packs into bytes; the contract hashes
words and the calldata. `publicDataCommitment_eq`: with the same roots, fee account and
block number, and with the bits of the same bytes, the field element of the builder is the
hash of the contract under the mask of the verifier. The builder clears the highest three
bits of the first byte of the hash, the verifier those of the word.
-/

namespace ZkSync

open Bytes (toBytesBE ofBytesBE)
open Circuit FloatConversions

/-! ## Packing bits -/

/-- The bits of a byte make the byte. -/
theorem byteOfChunk_fromBeBytes (byte : UInt8) : byteOfChunk (fromBeBytes [byte]) = byte := by
  have hall : ∀ n : Fin 256, byteOfChunk (fromBeBytes [UInt8.ofNat n]) = UInt8.ofNat n := by
    decide +kernel
  have hbyte := hall ⟨byte.toNat, byte.toNat_lt⟩
  rwa [UInt8.ofNat_toNat] at hbyte

theorem beBitVectorIntoBytes_fromBeBytes (bytes : Bytes) :
    beBitVectorIntoBytes (fromBeBytes bytes) = bytes := by
  induction bytes with
  | nil => rw [show fromBeBytes [] = [] from rfl, beBitVectorIntoBytes]
  | cons byte bytes ih =>
    have hsplit : fromBeBytes (byte :: bytes) = fromBeBytes [byte] ++ fromBeBytes bytes :=
      fromBeBytes_append [byte] bytes
    have hlength : (fromBeBytes [byte]).length = 8 := by
      rw [length_fromBeBytes]
      rfl
    -- eight bits are taken at a time
    obtain ⟨bit, bits, hbits⟩ : ∃ bit bits, fromBeBytes [byte] = bit :: bits :=
      List.exists_cons_of_length_eq_add_one hlength
    have hseven : bits.length = 7 := by
      rw [hbits] at hlength
      exact Nat.succ.inj hlength
    rw [hsplit, hbits, List.cons_append, beBitVectorIntoBytes, List.take_append_of_le_length
      (Nat.le_of_eq hseven.symm), List.take_of_length_le (Nat.le_of_eq hseven),
      List.drop_append_of_le_length (Nat.le_of_eq hseven.symm),
      List.drop_of_length_le (Nat.le_of_eq hseven), List.nil_append, ih, ← hbits,
      byteOfChunk_fromBeBytes]

/-- A field element takes 32 bytes. -/
theorem packedBits_eq (x : Fr) : packedBits x = fromBeBytes (toBytesBE 32 x.val) := by
  have hlength : (bitIterator x).length = 256 := by
    unfold bitIterator Fr.getBitsLeFixed
    rw [List.length_reverse, List.length_map, List.length_range]
  have hwidth : 8 * 32 = 256 := rfl
  unfold packedBits
  rw [hlength, fromBeBytes_toBytesBE, hwidth, Nat.sub_self, List.replicate_zero, List.nil_append]
  unfold bitIterator Fr.getBitsLeFixed bitsLe
  rfl

/-! ## The mask -/

/-- Three bits of the highest byte are cleared. -/
theorem ofBytesBE_cleared (len h : Nat) :
    ofBytesBE (((toBytesBE (1 + len) h).headD 0 &&& 0x1f) :: (toBytesBE (1 + len) h).tail) =
      h % (256 ^ len * 32) := by
  have hsplit : toBytesBE (1 + len) h = UInt8.ofNat (h / 256 ^ len) :: toBytesBE len h :=
    Bytes.toBytesBE_add 1 len h
  have hhead : (UInt8.ofNat (h / 256 ^ len) &&& 0x1f).toNat = h / 256 ^ len % 32 := by
    have hmask : (0x1f : UInt8).toNat = 2 ^ 5 - 1 := rfl
    rw [UInt8.toNat_and, hmask, Nat.and_two_pow_sub_one_eq_mod, UInt8.toNat_ofNat']
    omega
  rw [hsplit, List.headD_cons, List.tail_cons, ← List.singleton_append, Bytes.ofBytesBE_append,
    Bytes.ofBytesBE_singleton, hhead, Bytes.length_toBytesBE, Bytes.ofBytesBE_toBytesBE,
    Nat.mod_mul, Nat.add_comm, Nat.mul_comm]

theorem pow_mask : (256 : Nat) ^ 31 * 32 = 2 ^ 253 := by norm_num

theorem toNat_inputMask (hash : Contract.Bytes32) :
    (hash &&& Contract.inputMask).toNat = hash.toNat % 2 ^ 253 := by
  have hmask : Contract.inputMask.toNat = 2 ^ 253 - 1 := by decide +kernel
  rw [BitVec.toNat_and, hmask, Nat.and_two_pow_sub_one_eq_mod]

theorem ofBytes_of_val {bytes : Bytes} {n : Nat} (h : ofBytesBE bytes = n) (hlt : n < FR_MODULUS) :
    Fr.ofBytes bytes = .ok ⟨n, hlt⟩ := by
  subst h
  unfold Fr.ofBytes
  rw [dif_pos hlt]

/-! ## The commitment -/

section Commitment

variable (sha256 : Bytes → BitVec 256) (ext : Contract.Externals) (number feeAccount : UInt32)
  (oldRoot newRoot : Fr) (data : Bytes)

/-- The last of the four hashes. -/
def commitmentHash : BitVec 256 :=
  let hash := sha256 (toBytesBE 32 number.toNat ++ toBytesBE 32 feeAccount.toNat)
  let hash := sha256 (toBytesBE 32 hash.toNat ++ toBytesBE 32 oldRoot.val)
  let hash := sha256 (toBytesBE 32 hash.toNat ++ toBytesBE 32 newRoot.val)
  sha256 (toBytesBE 32 hash.toNat ++ data)

/-- The builder commits to 253 bits of it. -/
theorem publicDataCommitment_ok :
    ∃ commitment, publicDataCommitment sha256 (fromBeBytes data) oldRoot newRoot
        (addressFe feeAccount) (Fr.fromNat number.toNat) = .ok commitment ∧
      commitment.val =
        (commitmentHash sha256 number feeAccount oldRoot newRoot data).toNat % 2 ^ 253 := by
  let hash := commitmentHash sha256 number feeAccount oldRoot newRoot data
  have hcleared : ofBytesBE (((toBytesBE 32 hash.toNat).headD 0 &&& 0x1f) ::
      (toBytesBE 32 hash.toNat).tail) = hash.toNat % 2 ^ 253 :=
    (ofBytesBE_cleared 31 hash.toNat).trans (congrArg (hash.toNat % ·) pow_mask)
  have hlt : hash.toNat % 2 ^ 253 < FR_MODULUS := by
    have hmod := Nat.mod_lt hash.toNat (Nat.two_pow_pos 253)
    have hmodulus : 2 ^ 253 < FR_MODULUS := by decide +kernel
    exact hmod.trans hmodulus
  have hinitial : packedBits (Fr.fromNat number.toNat) ++ packedBits (addressFe feeAccount) =
      fromBeBytes (toBytesBE 32 number.toNat ++ toBytesBE 32 feeAccount.toNat) := by
    unfold addressFe
    rw [packedBits_eq, packedBits_eq, fromBeBytes_append, val_u32, val_u32]
  have hwidth : (fromBeBytes (toBytesBE 32 number.toNat ++ toBytesBE 32 feeAccount.toNat)).length =
      512 := by
    rw [length_fromBeBytes, List.length_append, Bytes.length_toBytesBE, Bytes.length_toBytesBE]
  refine ⟨⟨hash.toNat % 2 ^ 253, hlt⟩, ?_, rfl⟩
  unfold publicDataCommitment
  dsimp only
  rw [hinitial, Outcome.assert_ok _ hwidth, Outcome.ok_bind, packedBits_eq, packedBits_eq,
    beBitVectorIntoBytes_fromBeBytes, beBitVectorIntoBytes_fromBeBytes,
    beBitVectorIntoBytes_fromBeBytes, beBitVectorIntoBytes_fromBeBytes]
  exact ofBytes_of_val hcleared hlt

/-- A field element as the contract stores it. -/
def Fr.toWord (x : Fr) : Contract.Bytes32 := BitVec.ofNat 256 x.val

theorem toNat_toWord (x : Fr) : x.toWord.toNat = x.val := by
  have hmodulus : FR_MODULUS < 2 ^ 256 := by decide +kernel
  unfold Fr.toWord
  rw [BitVec.toNat_ofNat]
  exact Nat.mod_eq_of_lt (x.isLt.trans hmodulus)

/-- The builder and the contract commit to the same. -/
theorem publicDataCommitment_eq :
    ∃ commitment, publicDataCommitment ext.sha256 (fromBeBytes data) oldRoot newRoot
        (addressFe feeAccount) (Fr.fromNat number.toNat) = .ok commitment ∧
      commitment.val = (Contract.createBlockCommitment ext number feeAccount oldRoot.toWord
        newRoot.toWord data &&& Contract.inputMask).toNat := by
  obtain ⟨commitment, hok, hval⟩ :=
    publicDataCommitment_ok ext.sha256 number feeAccount oldRoot newRoot data
  refine ⟨commitment, hok, ?_⟩
  rw [hval, toNat_inputMask]
  unfold commitmentHash Contract.createBlockCommitment
  rw [toNat_toWord, toNat_toWord]

end Commitment

end ZkSync
