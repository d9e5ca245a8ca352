import Mathlib.Tactic.Ring
import ZkSync.Types.PackedValue
import ZkSync.Witness.BlockWitness

/-!
# The bits of an operation

The witness code writes the public data of an operation bit by bit, the server byte by
byte. `witnessOperation_pubData`: the bits are those of the bytes, the highest first.
Fields have fixed widths in both, so it is enough to compare them one by one: a number
(`beFixedWidth_fromNat`), a packed amount (`beFixedWidth_floatEncoded`) and the padding
(`resizeGrowOnly_fromBeBytes`).

One field is taken from the tree and not from the operation, the nonce of a key change;
there the account has to have the nonce of the transaction.
-/

namespace ZkSync

open Bytes (toBytesBE)

/-! ## Bits of numbers -/

namespace FloatConversions

/-- The low bits come first, the rest is what is left behind a shift. -/
theorem bitsLe_add (n a b : Nat) : bitsLe n (a + b) = bitsLe n a ++ bitsLe (n / 2 ^ a) b := by
  unfold bitsLe
  rw [List.range_add, List.map_append, List.map_map]
  refine congrArg _ (List.map_congr_left fun i _ => ?_)
  rw [Function.comp_apply, Nat.testBit_div_two_pow, Nat.add_comm]

/-- The lowest bits do not see the rest of the number. -/
theorem bitsLe_mod (n len : Nat) : bitsLe (n % 2 ^ len) len = bitsLe n len := by
  unfold bitsLe
  refine List.map_congr_left fun i hi => ?_
  rw [Nat.testBit_mod_two_pow, decide_eq_true (List.mem_range.mp hi), Bool.true_and]

theorem ofBitsLe_lt (bits : List Bool) : ofBitsLe bits < 2 ^ bits.length := by
  induction bits with
  | nil => exact Nat.one_pos
  | cons bit bits ih =>
    rw [ofBitsLe_cons, List.length_cons, pow_succ]
    cases bit with
    | false =>
      show 0 + _ < _
      omega
    | true =>
      show 1 + _ < _
      omega

theorem bitsLe_ofBitsLe (bits : List Bool) : bitsLe (ofBitsLe bits) bits.length = bits := by
  induction bits with
  | nil => rfl
  | cons bit bits ih =>
    rw [List.length_cons, bitsLe_succ, ofBitsLe_cons, Nat.testBit_zero]
    cases bit with
    | false =>
      have hdiv : (false.toNat + 2 * ofBitsLe bits) / 2 = ofBitsLe bits := by simp
      have hmod : (false.toNat + 2 * ofBitsLe bits) % 2 = 0 := by simp
      rw [hdiv, hmod, ih]
      rfl
    | true =>
      have hdiv : (true.toNat + 2 * ofBitsLe bits) / 2 = ofBitsLe bits := by
        rw [show true.toNat = 1 from rfl]
        omega
      have hmod : (true.toNat + 2 * ofBitsLe bits) % 2 = 1 := by
        rw [show true.toNat = 1 from rfl]
        omega
      rw [hdiv, hmod, ih]
      rfl

/-! ## Bits of bytes -/

theorem fromBeBytes_append (bytes bytes' : Bytes) :
    fromBeBytes (bytes ++ bytes') = fromBeBytes bytes ++ fromBeBytes bytes' :=
  List.flatMap_append

theorem length_fromBeBytes (bytes : Bytes) : (fromBeBytes bytes).length = 8 * bytes.length := by
  induction bytes with
  | nil => rfl
  | cons byte bytes ih =>
    unfold fromBeBytes at ih ⊢
    rw [List.flatMap_cons, List.length_append, ih, List.length_map, List.length_range,
      List.length_cons]
    omega

/-- The bits of a byte, the high ones first. -/
theorem fromBeBytes_byte (n : Nat) : fromBeBytes [UInt8.ofNat n] = (bitsLe n 8).reverse := by
  have hbyte : ∀ i, i < 8 → (n % 2 ^ 8).testBit i = n.testBit i := by
    intro i hi
    rw [Nat.testBit_mod_two_pow, decide_eq_true hi, Bool.true_and]
  unfold fromBeBytes bitsLe
  rw [List.flatMap_singleton, UInt8.toNat_ofNat']
  simp only [List.range_succ, List.range_zero, List.map_cons, List.map_nil, List.reverse_cons,
    List.reverse_nil, List.nil_append, List.cons_append]
  simp (disch := decide) only [hbyte, Nat.sub_zero, Nat.reduceSub]

/-- The bytes of a number, as bits. -/
theorem fromBeBytes_toBytesBE (len n : Nat) :
    fromBeBytes (toBytesBE len n) = (bitsLe n (8 * len)).reverse := by
  induction len generalizing n with
  | zero => rfl
  | succ len ih =>
    rw [Bytes.toBytesBE, fromBeBytes_append, ih, fromBeBytes_byte, Nat.mul_succ, Nat.add_comm,
      bitsLe_add, List.reverse_append]
    rfl

theorem fromBeBytes_replicate (count : Nat) :
    fromBeBytes (List.replicate count 0) = List.replicate (8 * count) false := by
  induction count with
  | zero => rfl
  | succ count ih =>
    have hbyte : fromBeBytes [0] = List.replicate 8 false := by decide
    rw [List.replicate_succ', fromBeBytes_append, ih, hbyte, List.replicate_append_replicate,
      Nat.mul_succ]

/-- A packed amount has the same bits as bytes and as an element of the field, in the other
order. -/
theorem fromBeBytes_pack {number exponentLen mantissaLen n : Nat} {bytes : Bytes}
    (h : pack number exponentLen mantissaLen = .ok bytes) (hn : exponentLen + mantissaLen = 8 * n) :
    number < u128Bound ∧ ∃ bits, toFloat number exponentLen mantissaLen = .ok bits ∧
      bits.length = 8 * n ∧ fromBeBytes bytes = bits.reverse := by
  unfold pack at h
  obtain ⟨uint, huint, h⟩ := Outcome.bind_eq_ok.mp h
  have huint := Outcome.expect_eq_ok.mp huint
  unfold toU128 at huint
  split at huint
  next hlt =>
    obtain rfl : number = uint := Option.some.inj huint
    split at h
    next => cases h
    next bits hbits =>
      obtain ⟨-, -, h⟩ := Outcome.bind_eq_ok.mp h
      cases h
      have hlength : bits.length = 8 * n := (length_toFloat hbits).trans hn
      refine ⟨hlt, bits, hbits, hlength, ?_⟩
      exact fromBeBytes_intoBytesOrdered (by rw [List.length_reverse, hlength])
  next => cases huint

end FloatConversions

namespace Circuit

open FloatConversions

/-! ## Fields -/

/-- Cutting bits off gives those of a smaller width. -/
theorem resizeBits_bitsLe {n len width : Nat} (h : width ≤ len) :
    resizeBits (bitsLe n len) width = bitsLe n width := by
  obtain ⟨extra, rfl⟩ := Nat.exists_eq_add_of_le h
  have hfew : width - (bitsLe n (width + extra)).length = 0 := by
    rw [length_bitsLe]
    omega
  unfold resizeBits
  rw [hfew, List.replicate_zero, List.append_nil, bitsLe_add]
  exact List.take_left' (length_bitsLe _ _)

/-- The circuit takes the low bits of the element, and turns them round. -/
theorem beFixedWidth_eq (x : Fr) {width : Nat} (h : width ≤ 256) :
    beFixedWidth x width = (bitsLe x.val width).reverse := by
  unfold beFixedWidth bitIterator
  rw [List.reverse_reverse]
  exact congrArg List.reverse (resizeBits_bitsLe h)

theorem pow_248_lt : 2 ^ 248 < FR_MODULUS := by decide

/-- Below 248 bits a number is its own element of the field. -/
theorem lt_modulus {n width : Nat} (h : n < 2 ^ width) (hwidth : width ≤ 248) : n < FR_MODULUS :=
  h.trans_le ((Nat.pow_le_pow_right Nat.two_pos hwidth).trans pow_248_lt.le)

/-- A number, in as many bits as its bytes have. -/
theorem beFixedWidth_fromNat {n : Nat} (len : Nat) (h : n < 2 ^ (8 * len)) (hlen : len ≤ 31) :
    beFixedWidth (Fr.fromNat n) (8 * len) = fromBeBytes (toBytesBE len n) := by
  rw [beFixedWidth_eq _ (by omega), Fr.val_fromNat (lt_modulus h (by omega)),
    fromBeBytes_toBytesBE]

/-- An id or a nonce has the same bits in the circuit as in the public data. -/
theorem beFixedWidth_u32 (n : UInt32) : beFixedWidth (Fr.fromNat n.toNat) 32 = fromBeBytes (u32Bytes n) :=
  beFixedWidth_fromNat 4 n.toNat_lt (by decide)

/-- So has a token. -/
theorem beFixedWidth_u16 (n : UInt16) : beFixedWidth (Fr.fromNat n.toNat) 16 = fromBeBytes (u16Bytes n) :=
  beFixedWidth_fromNat 2 n.toNat_lt (by decide)

/-- So has an address. -/
theorem beFixedWidth_address (address : BitVec 160) :
    beFixedWidth (Fr.fromNat address.toNat) 160 = fromBeBytes (addressBytes address) :=
  beFixedWidth_fromNat 20 address.isLt (by decide)

/-- So has a full amount. -/
theorem beFixedWidth_u128 {n : Nat} (h : n < u128Bound) :
    beFixedWidth (Fr.fromNat n) 128 = fromBeBytes (toBytesBE 16 n) :=
  beFixedWidth_fromNat 16 h (by decide)

/-- The nonce of the account is that of the transaction, as far as 32 bits go. -/
theorem beFixedWidth_nonce {x : Fr} {nonce : Nonce} (h : x.val % 2 ^ 32 = nonce.toNat) :
    beFixedWidth x 32 = fromBeBytes (u32Bytes nonce) := by
  rw [beFixedWidth_eq _ (by decide), ← bitsLe_mod, h, u32Bytes, fromBeBytes_toBytesBE]

theorem fromNat_add (a b : Nat) : Fr.fromNat a + Fr.fromNat b = Fr.fromNat (a + b) := by
  apply Fin.ext
  show (a % FR_MODULUS + b % FR_MODULUS) % FR_MODULUS = (a + b) % FR_MODULUS
  exact (Nat.add_mod a b FR_MODULUS).symm

/-- The element and the base, along the bits. -/
theorem foldl_leBitVector (bits : List Bool) (fe base : Nat) :
    (bits.foldl (fun (fe, base) bit => (if bit then fe + base else fe, base + base))
      (Fr.fromNat fe, Fr.fromNat base)).1 = Fr.fromNat (fe + base * ofBitsLe bits) := by
  induction bits generalizing fe base with
  | nil => rfl
  | cons bit bits ih =>
    rw [List.foldl_cons, ofBitsLe_cons]
    dsimp only
    rw [fromNat_add base base]
    cases bit with
    | false =>
      rw [if_neg Bool.false_ne_true, ih]
      exact congrArg Fr.fromNat (by rw [show false.toNat = 0 from rfl]; ring)
    | true =>
      rw [if_pos rfl, fromNat_add, ih]
      exact congrArg Fr.fromNat (by rw [show true.toNat = 1 from rfl]; ring)

/-- The bits are summed up, the first one with the weight one. -/
theorem leBitVectorIntoFieldElement_eq (bits : List Bool) :
    leBitVectorIntoFieldElement bits = Fr.fromNat (ofBitsLe bits) := by
  unfold leBitVectorIntoFieldElement
  rw [foldl_leBitVector, Nat.zero_add, Nat.one_mul]

/-- The packed number becomes the element that its bits stand for. -/
theorem floatEncoded_eq {amount exponentLen mantissaLen : Nat} {bits : List Bool}
    (h : toFloat amount exponentLen mantissaLen = .ok bits) :
    floatEncoded amount exponentLen mantissaLen = .ok (leBitVectorIntoFieldElement bits) := by
  unfold floatEncoded
  rw [h]

/-- A packed amount, in as many bits as it has. -/
theorem beFixedWidth_floatEncoded {number exponentLen mantissaLen n : Nat} {bytes : Bytes} {x : Fr}
    (h : pack number exponentLen mantissaLen = .ok bytes)
    (hx : floatEncoded number exponentLen mantissaLen = .ok x)
    (hn : exponentLen + mantissaLen = 8 * n) (hle : n ≤ 31) :
    beFixedWidth x (mantissaLen + exponentLen) = fromBeBytes bytes := by
  obtain ⟨-, bits, hbits, hlength, hbytes⟩ := fromBeBytes_pack h hn
  rw [floatEncoded_eq hbits] at hx
  cases hx
  have hlt : ofBitsLe bits < FR_MODULUS :=
    lt_modulus (hlength ▸ ofBitsLe_lt bits) (by omega)
  rw [Nat.add_comm, hn, leBitVectorIntoFieldElement_eq, beFixedWidth_eq _ (by omega),
    Fr.val_fromNat hlt, ← hlength, bitsLe_ofBitsLe, hbytes]

/-- The padding. -/
theorem resizeGrowOnly_fromBeBytes {data : Bytes} {chunks : Nat}
    (h : data.length ≤ chunks * CHUNK_BYTES) :
    resizeGrowOnly (fromBeBytes data) (chunks * CHUNK_BIT_WIDTH) =
      .ok (fromBeBytes (resize data (chunks * CHUNK_BYTES))) := by
  have hwidth : chunks * CHUNK_BIT_WIDTH = 8 * (chunks * CHUNK_BYTES) := by
    rw [show CHUNK_BIT_WIDTH = 8 * CHUNK_BYTES from rfl]
    ring
  have hle : (fromBeBytes data).length ≤ chunks * CHUNK_BIT_WIDTH := by
    rw [length_fromBeBytes, hwidth]
    exact Nat.mul_le_mul_left 8 h
  unfold resizeGrowOnly resizeBits
  rw [Outcome.assert_ok _ hle, Outcome.ok_bind, resize_eq h, fromBeBytes_append,
    fromBeBytes_replicate, List.take_of_length_le]
  · rw [hwidth, length_fromBeBytes, ← Nat.mul_sub]
    rfl
  · rw [List.length_append, List.length_replicate]
    omega

/-- The type of an operation is its opcode in the public data. -/
theorem beFixedWidth_opCode (code : UInt8) :
    beFixedWidth (Fr.fromNat code.toNat) 8 = fromBeBytes [code] := by
  have hcode : toBytesBE 1 code.toNat = [code] := by
    rw [toBytesBE, toBytesBE, UInt8.ofNat_toNat, List.nil_append]
  rw [← hcode]
  exact beFixedWidth_fromNat 1 code.toNat_lt (by decide)

/-- A packed amount has the same bits as the bytes in the public data. -/
theorem beFixedWidth_amount {number : Nat} {bytes : Bytes} {x : Fr}
    (h : packTokenAmount number = .ok bytes) (hx : amountEncoded number = .ok x) :
    beFixedWidth x 40 = fromBeBytes bytes :=
  beFixedWidth_floatEncoded (n := 5) h hx rfl (by decide)

/-- So has a packed fee. -/
theorem beFixedWidth_fee {number : Nat} {bytes : Bytes} {x : Fr}
    (h : packFeeAmount number = .ok bytes) (hx : feeEncoded number = .ok x) :
    beFixedWidth x 16 = fromBeBytes bytes :=
  beFixedWidth_floatEncoded (n := 2) h hx rfl (by decide)

/-- The builder only takes amounts that a `u128` holds. -/
theorem unwrapU128_eq_ok {n m : Nat} : unwrapU128 n = .ok m ↔ n < u128Bound ∧ m = n := by
  unfold unwrapU128 toU128
  rw [Outcome.expect_eq_ok]
  split
  next h => exact ⟨fun he => ⟨h, (Option.some.inj he).symm⟩, fun he => congrArg some he.2.symm⟩
  next h => exact ⟨fun he => (by cases he), fun he => absurd he.1 h⟩

/-! ## Operations -/

section Operations

variable {H : Hasher Fr} {tree tree' : CircuitAccountTree} {data : Bytes}

/-- The account before a leaf operation is that of the tree. -/
theorem accountWitnessBefore_eq {id : AccountId} {token : TokenId}
    {fa : CircuitAccount → Outcome CircuitAccount} {fb : Fr → Fr} {leaf : LeafOperation}
    (h : applyLeafOperation H tree id token fa fb = .ok (leaf, tree')) :
    leaf.accountWitnessBefore = AccountWitness.fromCircuitAccount (accountAt H tree id) := by
  unfold applyLeafOperation at h
  rw [SparseMerkleTree.remove_eq] at h
  simp only [Outcome.bind_eq_ok] at h
  obtain ⟨_, ⟨_, -, hremoved⟩, _, -, _, -, _, -, _, -, h⟩ := h
  cases hremoved
  cases h
  rfl

/-- The bits of a concatenation of fields, padded. -/
theorem resizeGrowOnly_of_fields {fields : List Bool} {chunks : Nat}
    (hfields : fields = fromBeBytes data) (h : data.length ≤ chunks * CHUNK_BYTES) :
    resizeGrowOnly fields (chunks * CHUNK_BIT_WIDTH) =
      .ok (fromBeBytes (resize data (chunks * CHUNK_BYTES))) := by
  rw [hfields]
  exact resizeGrowOnly_fromBeBytes h

/-- The builder writes the bits of a deposit as the operation does. -/
theorem DepositWitness.getPubdata_eq {op : DepositOp} {w : DepositWitness}
    (h : applyTx H tree op = .ok (w, tree')) (hdata : op.getPublicData = .ok data) :
    getPubdata w = .ok (fromBeBytes data) := by
  unfold applyTx at h
  simp only [Outcome.bind_eq_ok, unwrapU128_eq_ok] at h
  obtain ⟨_, ⟨hlt, rfl⟩, _, -, _, -, h⟩ := h
  obtain ⟨amount, hamount, hdata⟩ := Outcome.bind_eq_ok.mp hdata
  obtain ⟨-, rfl⟩ := u128Bytes_eq_ok hamount
  cases h
  cases hdata
  refine resizeGrowOnly_of_fields ?_ ?_
  · simp only [fromBeBytes_append]
    rw [← beFixedWidth_opCode, ← beFixedWidth_u32, ← beFixedWidth_u16, ← beFixedWidth_u128 hlt,
      ← beFixedWidth_address]
    rfl
  · simp [DepositOp.CHUNKS]

/-- The same for a transfer, where both amounts are packed. -/
theorem TransferWitness.getPubdata_eq {op : TransferOp} {w : TransferWitness}
    (h : applyTx H tree op = .ok (w, tree')) (hdata : op.getPublicData = .ok data) :
    getPubdata w = .ok (fromBeBytes data) := by
  unfold applyTx at h
  simp only [Outcome.bind_eq_ok, unwrapU128_eq_ok] at h
  obtain ⟨_, ⟨-, rfl⟩, _, ⟨-, rfl⟩, _, -, x, hx, y, hy, _, -, _, -, h⟩ := h
  obtain ⟨amount, hamount, hdata⟩ := Outcome.bind_eq_ok.mp hdata
  obtain ⟨fee, hfee, hdata⟩ := Outcome.bind_eq_ok.mp hdata
  cases h
  cases hdata
  refine resizeGrowOnly_of_fields ?_ ?_
  · simp only [fromBeBytes_append]
    rw [← beFixedWidth_opCode, ← beFixedWidth_u32, ← beFixedWidth_u32, ← beFixedWidth_u16,
      ← beFixedWidth_amount hamount hx, ← beFixedWidth_fee hfee hy]
    rfl
  · simp [TransferOp.CHUNKS, length_packTokenAmount hamount, length_packFeeAmount hfee]

/-- The same for a transfer to a new account. -/
theorem TransferToNewWitness.getPubdata_eq {op : TransferToNewOp} {w : TransferToNewWitness}
    (h : applyTx H tree op = .ok (w, tree')) (hdata : op.getPublicData = .ok data) :
    getPubdata w = .ok (fromBeBytes data) := by
  unfold applyTx at h
  simp only [Outcome.bind_eq_ok, unwrapU128_eq_ok] at h
  obtain ⟨_, ⟨-, rfl⟩, _, ⟨-, rfl⟩, _, -, x, hx, y, hy, _, -, _, -, h⟩ := h
  obtain ⟨amount, hamount, hdata⟩ := Outcome.bind_eq_ok.mp hdata
  obtain ⟨fee, hfee, hdata⟩ := Outcome.bind_eq_ok.mp hdata
  cases h
  cases hdata
  refine resizeGrowOnly_of_fields ?_ ?_
  · simp only [fromBeBytes_append]
    rw [← beFixedWidth_opCode, ← beFixedWidth_u32, ← beFixedWidth_u32, ← beFixedWidth_u16,
      ← beFixedWidth_amount hamount hx, ← beFixedWidth_fee hfee hy, ← beFixedWidth_address]
    rfl
  · simp [TransferToNewOp.CHUNKS, length_packTokenAmount hamount, length_packFeeAmount hfee]

/-- The same for a withdrawal. -/
theorem WithdrawWitness.getPubdata_eq {op : WithdrawOp} {w : WithdrawWitness}
    (h : applyTx H tree op = .ok (w, tree')) (hdata : op.getPublicData = .ok data) :
    getPubdata w = .ok (fromBeBytes data) := by
  unfold applyTx at h
  simp only [Outcome.bind_eq_ok, unwrapU128_eq_ok] at h
  obtain ⟨_, ⟨hlt, rfl⟩, _, ⟨-, rfl⟩, _, -, x, hx, y, hy, _, -, h⟩ := h
  obtain ⟨amount, hamount, hdata⟩ := Outcome.bind_eq_ok.mp hdata
  obtain ⟨fee, hfee, hdata⟩ := Outcome.bind_eq_ok.mp hdata
  obtain ⟨-, rfl⟩ := u128Bytes_eq_ok hamount
  cases h
  cases hdata
  refine resizeGrowOnly_of_fields ?_ ?_
  · simp only [fromBeBytes_append]
    rw [← beFixedWidth_opCode, ← beFixedWidth_u32, ← beFixedWidth_u16, ← beFixedWidth_u128 hlt,
      ← beFixedWidth_fee hfee hy, ← beFixedWidth_address]
    rfl
  · simp [WithdrawOp.CHUNKS, length_packFeeAmount hfee]

/-- The same for an account that is closed. -/
theorem CloseAccountWitness.getPubdata_eq {op : CloseOp} {w : CloseAccountWitness}
    (h : applyTx H tree op = .ok (w, tree')) : getPubdata w = .ok (fromBeBytes op.getPublicData) := by
  unfold applyTx at h
  simp only [Outcome.bind_eq_ok] at h
  obtain ⟨_, -, _, -, h⟩ := h
  cases h
  refine resizeGrowOnly_of_fields ?_ ?_
  · rw [fromBeBytes_append, ← beFixedWidth_opCode, ← beFixedWidth_u32]
    rfl
  · simp [CloseOp.CHUNKS]

/-- The same for a full exit: a refused one shows the amount zero in both. -/
theorem FullExitWitness.getPubdata_eq {op : FullExitOp} {isSuccess : Bool} {w : FullExitWitness}
    (h : applyTx H tree op isSuccess = .ok (w, tree')) (hdata : op.getPublicData = .ok data) :
    getPubdata w = .ok (fromBeBytes data) := by
  unfold applyTx at h
  simp only [Outcome.bind_eq_ok] at h
  obtain ⟨_, -, _, -, h⟩ := h
  obtain ⟨amount, hamount, hdata⟩ := Outcome.bind_eq_ok.mp hdata
  obtain ⟨hlt, rfl⟩ := u128Bytes_eq_ok hamount
  have hexit : (op.withdrawAmount.map Fr.fromNat).getD (Fr.fromNat 0) =
      Fr.fromNat (op.withdrawAmount.getD 0) := Option.getD_map Fr.fromNat 0 _
  cases h
  cases hdata
  refine resizeGrowOnly_of_fields ?_ ?_
  · simp only [fromBeBytes_append]
    rw [← beFixedWidth_opCode, ← beFixedWidth_u32, ← beFixedWidth_u16, ← beFixedWidth_u128 hlt,
      ← beFixedWidth_address, ← hexit]
    rfl
  · simp [FullExitOp.CHUNKS]

/-- The account has the nonce that the transaction declares. -/
theorem ChangePubkeyOffChainWitness.getPubdata_eq {op : ChangePubKeyOp}
    {w : ChangePubkeyOffChainWitness} (h : applyTx H tree op = .ok (w, tree'))
    (hdata : op.getPublicData = .ok data)
    (hnonce : (accountAt H tree op.accountId).nonce.val % 2 ^ 32 = op.tx.nonce.toNat) :
    getPubdata w = .ok (fromBeBytes data) := by
  unfold applyTx at h
  simp only [Outcome.bind_eq_ok, unwrapU128_eq_ok] at h
  obtain ⟨_, ⟨-, rfl⟩, _, -, y, hy, ⟨leaf, _⟩, hleaf, h⟩ := h
  obtain ⟨fee, hfee, hdata⟩ := Outcome.bind_eq_ok.mp hdata
  have hbefore := accountWitnessBefore_eq hleaf
  cases h
  cases hdata
  refine resizeGrowOnly_of_fields ?_ ?_
  · simp only [fromBeBytes_append]
    rw [← beFixedWidth_opCode, ← beFixedWidth_u32 op.accountId, ← beFixedWidth_nonce hnonce,
      ← beFixedWidth_u16, ← beFixedWidth_fee hfee hy, ← beFixedWidth_address, ← beFixedWidth_address]
    dsimp only [branchBefore]
    rw [hbefore]
    rfl
  · simp [ChangePubKeyOp.CHUNKS, length_packFeeAmount hfee]

/-- The same for a forced exit, with the amount that was taken. -/
theorem ForcedExitWitness.getPubdata_eq {op : ForcedExitOp} {w : ForcedExitWitness}
    (h : applyTx H tree op = .ok (w, tree')) (hdata : op.getPublicData = .ok data) :
    getPubdata w = .ok (fromBeBytes data) := by
  unfold applyTx at h
  simp only [Outcome.bind_eq_ok, unwrapU128_eq_ok] at h
  obtain ⟨_, ⟨hlt, rfl⟩, _, ⟨-, rfl⟩, _, -, x, hx, y, hy, _, -, _, -, h⟩ := h
  obtain ⟨amount, hamount, hdata⟩ := Outcome.bind_eq_ok.mp hdata
  obtain ⟨fee, hfee, hdata⟩ := Outcome.bind_eq_ok.mp hdata
  obtain ⟨-, rfl⟩ := u128Bytes_eq_ok hamount
  cases h
  cases hdata
  refine resizeGrowOnly_of_fields ?_ ?_
  · simp only [fromBeBytes_append]
    rw [← beFixedWidth_opCode, ← beFixedWidth_u32, ← beFixedWidth_u32, ← beFixedWidth_u16,
      ← beFixedWidth_u128 hlt, ← beFixedWidth_fee hfee hy, ← beFixedWidth_address]
    rfl
  · simp [ForcedExitOp.CHUNKS, length_packFeeAmount hfee]

/-! ### Chunks -/

/-- There is an operation for every chunk that the public data has. -/
theorem exists_operationsFor (txType : Fr) (args : OperationArguments)
    (branches : Nat → OperationBranch × OperationBranch) {count : Nat}
    (hdata : data.length = count * CHUNK_BYTES) {chunks : List Nat} (h : ∀ chunk ∈ chunks, chunk < count) :
    ∃ operations, operationsFor txType args (fromBeBytes data) branches chunks = .ok operations ∧
      operations.length = chunks.length := by
  induction chunks with
  | nil => exact ⟨[], rfl, rfl⟩
  | cons chunk chunks ih =>
    obtain ⟨operations, hops, hlength⟩ := ih fun c hc => h c (List.mem_cons_of_mem _ hc)
    have hin : chunk * CHUNK_BIT_WIDTH < (fromBeBytes data).length := by
      have hlt := h chunk List.mem_cons_self
      rw [length_fromBeBytes, hdata]
      simp only [CHUNK_BIT_WIDTH, CHUNK_BYTES]
      omega
    obtain ⟨operation, hop⟩ : ∃ operation, operationsFor txType args (fromBeBytes data) branches
        (chunk :: chunks) = .ok (operation :: operations) := by
      rw [operationsFor, hops]
      unfold pubdataChunk
      rw [Outcome.assert_ok _ hin]
      exact ⟨_, rfl⟩
    exact ⟨operation :: operations, hop, congrArg Nat.succ hlength⟩

/-- The round of the loop for an operation that was executed: its bits, its fee, and an
operation for each of its chunks. -/
def RoundOk (H : Hasher Fr) (tree : CircuitAccountTree) (op : ZkSyncOp) (data : Bytes)
    (fees : List CollectedFee) (tree' : CircuitAccountTree) : Prop :=
  ∃ operations, witnessOperation H tree op = .ok (⟨operations, fromBeBytes data, fees⟩, tree') ∧
    operations.length = op.chunks

/-- What every round has in common. -/
theorem RoundOk.of_parts {op : ZkSyncOp} {fees : List CollectedFee} (txType : Fr)
    (args : OperationArguments) (branches : Nat → OperationBranch × OperationBranch)
    (hdata : op.publicData = .ok data) (count : Nat) (hcount : op.chunks = count) (chunks : List Nat)
    (hlength : chunks.length = count) (hchunks : ∀ chunk ∈ chunks, chunk < count)
    (hround : ∀ operations, operationsFor txType args (fromBeBytes data) branches chunks =
      .ok operations →
      witnessOperation H tree op = .ok (⟨operations, fromBeBytes data, fees⟩, tree')) :
    RoundOk H tree op data fees tree' := by
  have hbytes := ZkSyncOp.length_publicData hdata
  rw [hcount] at hbytes
  obtain ⟨operations, hops, hall⟩ := exists_operationsFor txType args branches hbytes hchunks
  exact ⟨operations, hround operations hops, (hall.trans hlength).trans hcount.symm⟩

/-- The round of a deposit adds its bits and pays no fee. -/
theorem roundOk_deposit {op : DepositOp} {w : DepositWitness}
    (h : DepositWitness.applyTx H tree op = .ok (w, tree')) (hdata : op.getPublicData = .ok data) :
    RoundOk H tree (.Deposit op) data [] tree' := by
  have hbits := DepositWitness.getPubdata_eq h hdata
  refine RoundOk.of_parts w.txType w.args w.branches hdata DepositOp.CHUNKS rfl
    (List.range DepositOp.CHUNKS) rfl (by decide) fun operations hops => ?_
  unfold witnessOperation DepositWitness.calculateOperations
  dsimp only
  rw [h, Outcome.ok_bind]
  dsimp only
  rw [hbits, Outcome.ok_bind, hops]
  rfl

/-- A transfer pays its fee in the token it moves. -/
theorem roundOk_transfer {op : TransferOp} {w : TransferWitness}
    (h : TransferWitness.applyTx H tree op = .ok (w, tree')) (hdata : op.getPublicData = .ok data) :
    RoundOk H tree (.Transfer op) data [⟨op.tx.token, op.tx.fee⟩] tree' := by
  have hbits := TransferWitness.getPubdata_eq h hdata
  refine RoundOk.of_parts w.txType w.args w.branches hdata TransferOp.CHUNKS rfl
    [0, 1] rfl (by decide) fun operations hops => ?_
  unfold witnessOperation TransferWitness.calculateOperations
  dsimp only
  rw [h, Outcome.ok_bind]
  dsimp only
  rw [hbits, Outcome.ok_bind, hops]
  rfl

/-- A transfer to a new account does, too. -/
theorem roundOk_transferToNew {op : TransferToNewOp} {w : TransferToNewWitness}
    (h : TransferToNewWitness.applyTx H tree op = .ok (w, tree')) (hdata : op.getPublicData = .ok data) :
    RoundOk H tree (.TransferToNew op) data [⟨op.tx.token, op.tx.fee⟩] tree' := by
  have hbits := TransferToNewWitness.getPubdata_eq h hdata
  refine RoundOk.of_parts w.txType w.args w.branches hdata TransferToNewOp.CHUNKS rfl
    ([0, 1] ++ List.range' 2 (ChangePubKeyOp.CHUNKS - 2)) rfl (by decide) fun operations hops => ?_
  unfold witnessOperation TransferToNewWitness.calculateOperations
  dsimp only
  rw [h, Outcome.ok_bind]
  dsimp only
  rw [hbits, Outcome.ok_bind, hops]
  rfl

/-- A withdrawal does, too. -/
theorem roundOk_withdraw {op : WithdrawOp} {w : WithdrawWitness}
    (h : WithdrawWitness.applyTx H tree op = .ok (w, tree')) (hdata : op.getPublicData = .ok data) :
    RoundOk H tree (.Withdraw op) data [⟨op.tx.token, op.tx.fee⟩] tree' := by
  have hbits := WithdrawWitness.getPubdata_eq h hdata
  refine RoundOk.of_parts w.txType w.args w.branches hdata WithdrawOp.CHUNKS rfl
    (List.range WithdrawOp.CHUNKS) rfl (by decide) fun operations hops => ?_
  unfold witnessOperation WithdrawWitness.calculateOperations
  dsimp only
  rw [h, Outcome.ok_bind]
  dsimp only
  rw [hbits, Outcome.ok_bind, hops]
  rfl

/-- Closing an account costs nothing. -/
theorem roundOk_close {op : CloseOp} {w : CloseAccountWitness}
    (h : CloseAccountWitness.applyTx H tree op = .ok (w, tree'))  :
    RoundOk H tree (.Close op) op.getPublicData [] tree' := by
  have hbits := CloseAccountWitness.getPubdata_eq h
  refine RoundOk.of_parts w.txType w.args w.branches rfl CloseOp.CHUNKS rfl
    [0] rfl (by decide) fun operations hops => ?_
  unfold witnessOperation CloseAccountWitness.calculateOperations
  dsimp only
  rw [h, Outcome.ok_bind]
  dsimp only
  rw [hbits, Outcome.ok_bind, hops]
  rfl

/-- A full exit costs nothing on the second layer. -/
theorem roundOk_fullExit {op : FullExitOp} {w : FullExitWitness}
    (h : FullExitWitness.applyTx H tree op op.withdrawAmount.isSome = .ok (w, tree')) (hdata : op.getPublicData = .ok data) :
    RoundOk H tree (.FullExit op) data [] tree' := by
  have hbits := FullExitWitness.getPubdata_eq h hdata
  refine RoundOk.of_parts w.txType w.args w.branches hdata FullExitOp.CHUNKS rfl
    (0 :: List.range' 1 5) rfl (by decide) fun operations hops => ?_
  unfold witnessOperation FullExitWitness.calculateOperations
  dsimp only
  rw [h, Outcome.ok_bind]
  dsimp only
  rw [hbits, Outcome.ok_bind, hops]
  rfl

/-- A key change names the token of its fee. -/
theorem roundOk_changePubkey {op : ChangePubKeyOp} {w : ChangePubkeyOffChainWitness}
    (h : ChangePubkeyOffChainWitness.applyTx H tree op = .ok (w, tree')) (hdata : op.getPublicData = .ok data)
    (hnonce : (accountAt H tree op.accountId).nonce.val % 2 ^ 32 = op.tx.nonce.toNat) :
    RoundOk H tree (.ChangePubKeyOffchain op) data [⟨op.tx.feeToken, op.tx.fee⟩] tree' := by
  have hbits := ChangePubkeyOffChainWitness.getPubdata_eq h hdata hnonce
  refine RoundOk.of_parts w.txType w.args (fun _ => (w.before, w.after)) hdata ChangePubKeyOp.CHUNKS rfl
    (List.range ChangePubKeyOp.CHUNKS) rfl (by decide) fun operations hops => ?_
  have hcount : (fromBeBytes data).length / CHUNK_BIT_WIDTH = ChangePubKeyOp.CHUNKS := by
    have hlength : data.length = ChangePubKeyOp.CHUNKS * CHUNK_BYTES :=
      ZkSyncOp.length_publicData (show ZkSyncOp.publicData (.ChangePubKeyOffchain op) = _ from hdata)
    rw [length_fromBeBytes, hlength]
    decide
  unfold witnessOperation ChangePubkeyOffChainWitness.calculateOperations
  dsimp only
  rw [h, Outcome.ok_bind]
  dsimp only
  rw [hbits, Outcome.ok_bind, hcount, hops]
  rfl

/-- The initiator of a forced exit pays in the token that the target loses. -/
theorem roundOk_forcedExit {op : ForcedExitOp} {w : ForcedExitWitness}
    (h : ForcedExitWitness.applyTx H tree op = .ok (w, tree')) (hdata : op.getPublicData = .ok data) :
    RoundOk H tree (.ForcedExit op) data [⟨op.tx.token, op.tx.fee⟩] tree' := by
  have hbits := ForcedExitWitness.getPubdata_eq h hdata
  refine RoundOk.of_parts w.txType w.args w.branches hdata ForcedExitOp.CHUNKS rfl
    ([0, 1] ++ List.range' 2 (ForcedExitOp.CHUNKS - 2)) rfl (by decide) fun operations hops => ?_
  unfold witnessOperation ForcedExitWitness.calculateOperations
  dsimp only
  rw [h, Outcome.ok_bind]
  dsimp only
  rw [hbits, Outcome.ok_bind, hops]
  rfl

/-- What the round of an operation needs of the tree. -/
def NonceDeclared (H : Hasher Fr) (tree : CircuitAccountTree) : ZkSyncOp → Prop
  | .ChangePubKeyOffchain op =>
    (accountAt H tree op.accountId).nonce.val % 2 ^ 32 = op.tx.nonce.toNat
  | _ => True

/-- A round that returns wrote the bits of the public data. -/
theorem witnessOperation_pubData {op : ZkSyncOp} {added : BlockAccum} (hnoop : op ≠ .Noop)
    (hnonce : NonceDeclared H tree op) (hdata : op.publicData = .ok data)
    (h : witnessOperation H tree op = .ok (added, tree')) :
    added.pubData = fromBeBytes data ∧ added.operations.length = op.chunks := by
  have hround : ∃ fees tree₁, RoundOk H tree op data fees tree₁ := by
    cases op with
    | Noop => exact absurd rfl hnoop
    | Deposit op =>
      obtain ⟨⟨w, t⟩, hw, -⟩ := Outcome.bind_eq_ok.mp h
      exact ⟨_, _, roundOk_deposit hw hdata⟩
    | Transfer op =>
      obtain ⟨⟨w, t⟩, hw, -⟩ := Outcome.bind_eq_ok.mp h
      exact ⟨_, _, roundOk_transfer hw hdata⟩
    | TransferToNew op =>
      obtain ⟨⟨w, t⟩, hw, -⟩ := Outcome.bind_eq_ok.mp h
      exact ⟨_, _, roundOk_transferToNew hw hdata⟩
    | Withdraw op =>
      obtain ⟨⟨w, t⟩, hw, -⟩ := Outcome.bind_eq_ok.mp h
      exact ⟨_, _, roundOk_withdraw hw hdata⟩
    | Close op =>
      cases hdata
      obtain ⟨⟨w, t⟩, hw, -⟩ := Outcome.bind_eq_ok.mp h
      exact ⟨_, _, roundOk_close hw⟩
    | FullExit op =>
      obtain ⟨⟨w, t⟩, hw, -⟩ := Outcome.bind_eq_ok.mp h
      exact ⟨_, _, roundOk_fullExit hw hdata⟩
    | ChangePubKeyOffchain op =>
      obtain ⟨⟨w, t⟩, hw, -⟩ := Outcome.bind_eq_ok.mp h
      exact ⟨_, _, roundOk_changePubkey hw hdata hnonce⟩
    | ForcedExit op =>
      obtain ⟨⟨w, t⟩, hw, -⟩ := Outcome.bind_eq_ok.mp h
      exact ⟨_, _, roundOk_forcedExit hw hdata⟩
  obtain ⟨fees, tree₁, operations, hops, hlength⟩ := hround
  rw [h] at hops
  cases hops
  exact ⟨rfl, hlength⟩

end Operations

end Circuit

end ZkSync
