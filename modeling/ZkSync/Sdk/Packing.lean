import ZkSync.Types.Packable

/-!
# Packed amounts in the SDK

`zksync.js/src/utils.ts`: how a client packs amounts and fees. It keeps the mantissa
in digits as long as the mantissa, rounded down, fits; the server asks that the
number itself does not exceed the largest mantissa times the power
(`LeastExponent`). So they choose different exponents for the numbers in between
(`BetweenMantissas`): there the client rounds down to the largest mantissa, and the
server one digit further (`FallsBack`). None of these numbers is packable, so both
accept the same numbers, and write the same bytes for them. What they call the
closest packable number is the same just elsewhere (`packing_alike_iff`).

A bit is a boolean here. `numberToBits` halves a double; a number below `2 ^ 53`
stays exact, and only its integer part is read.
-/

namespace ZkSync

open FloatConversions

namespace Sdk

/-! ## `utils.ts` -/

/-- `numberToBits`: the low bits first. -/
def numberToBits : Nat → Nat → List Bool
  | _, 0 => []
  | integer, bits + 1 => (integer % 2 == 1) :: numberToBits (integer / 2) bits

/-- The loop of `bitsIntoBytesInBEOrder`, over full bytes. -/
def bytesInBEOrder : List Bool → Bytes
  | b₀ :: b₁ :: b₂ :: b₃ :: b₄ :: b₅ :: b₆ :: b₇ :: bits =>
    ((if b₀ then 0x80 else 0) ||| (if b₁ then 0x40 else 0) ||| (if b₂ then 0x20 else 0) |||
      (if b₃ then 0x10 else 0) ||| (if b₄ then 0x08 else 0) ||| (if b₅ then 0x04 else 0) |||
      (if b₆ then 0x02 else 0) ||| (if b₇ then 0x01 else 0)) :: bytesInBEOrder bits
  | _ => []

/-- `bitsIntoBytesInBEOrder`: there have to be whole bytes. -/
def bitsIntoBytesInBEOrder (bits : List Bool) : Outcome Bytes := do
  Outcome.ensure (bits.length % 8 = 0) "wrong number of bits to pack"
  return bytesInBEOrder bits

/-- The loop that divides until the mantissa fits, from an exponent on. -/
def scaleDown (maxMantissa mantissa exponent : Nat) : Nat × Nat :=
  if mantissa > maxMantissa then scaleDown maxMantissa (mantissa / 10) (exponent + 1)
  else (exponent, mantissa)
  termination_by mantissa
  decreasing_by omega

/-- `integerToFloat` with the base 10. -/
def integerToFloat (integer expBits mantissaBits : Nat) : Outcome Bytes := do
  let maxExponent := 10 ^ (2 ^ expBits - 1)
  let maxMantissa := 2 ^ mantissaBits - 1
  if integer > maxMantissa * maxExponent then Outcome.bail "Integer is too big"
  let (exponent, mantissa) := scaleDown maxMantissa integer 0
  let encoding := numberToBits exponent expBits ++ numberToBits mantissa mantissaBits
  let bytes ← bitsIntoBytesInBEOrder encoding.reverse
  return bytes.reverse

/-- The bytes are reversed in place; what `map` makes of them is dropped. -/
def reverseBits (buffer : Bytes) : Bytes := buffer.reverse

/-- `buffer2bitsBE`: the high bit of each byte first. -/
def buffer2bitsBE (buff : Bytes) : List Bool :=
  buff.flatMap fun b =>
    [b &&& 0x80 != 0, b &&& 0x40 != 0, b &&& 0x20 != 0, b &&& 0x10 != 0,
      b &&& 0x08 != 0, b &&& 0x04 != 0, b &&& 0x02 != 0, b &&& 0x01 != 0]

/-- The loops of `floatToInteger` over bits, with the next power of two. -/
def sumOfBits (bits : List Bool) : Nat :=
  (bits.foldl (fun (sum, pow2) bit => (if bit then sum + pow2 else sum, pow2 * 2)) (0, 1)).1

/-- `floatToInteger` with the base 10. -/
def floatToInteger (floatBytes : Bytes) (expBits mantissaBits : Nat) : Outcome Nat := do
  Outcome.ensure (floatBytes.length * 8 = mantissaBits + expBits)
    "Float unpacking, incorrect input length"
  let bits := (buffer2bitsBE floatBytes).reverse
  let exponent := 10 ^ sumOfBits (bits.take expBits)
  let mantissa := sumOfBits ((bits.drop expBits).take mantissaBits)
  return exponent * mantissa

/-- `packAmount` and `packFee`, by the width of the mantissa. -/
def pack (mantissaBits number : Nat) : Outcome Bytes := do
  return reverseBits (← integerToFloat number 5 mantissaBits)

/-- `closestPackableTransactionAmount`, for any mantissa: pack and read back. -/
def closestPackable (mantissaBits number : Nat) : Outcome Nat := do
  floatToInteger (← pack mantissaBits number) 5 mantissaBits

/-- `isTransactionAmountPackable`: a number is packable if it comes back. -/
def isPackable (mantissaBits number : Nat) : Outcome Bool := do
  return decide ((← closestPackable mantissaBits number) = number)

/-- `packAmountChecked`: what is not packable is thrown out. -/
def packChecked (mantissaBits : Nat) (message : String) (number : Nat) : Outcome Bytes := do
  Outcome.ensure ((← closestPackable mantissaBits number) = number) message
  pack mantissaBits number

def packAmount : Nat → Outcome Bytes := pack 35
def packFee : Nat → Outcome Bytes := pack 11
def closestPackableTransactionAmount : Nat → Outcome Nat := closestPackable 35
def closestPackableTransactionFee : Nat → Outcome Nat := closestPackable 11
def isTransactionAmountPackable : Nat → Outcome Bool := isPackable 35
def isTransactionFeePackable : Nat → Outcome Bool := isPackable 11
def packAmountChecked : Nat → Outcome Bytes :=
  packChecked 35 "Transaction Amount is not packable"
def packFeeChecked : Nat → Outcome Bytes := packChecked 11 "Fee Amount is not packable"

/-! ## The same bits and bytes -/

/-- The bits are those of the server. -/
theorem numberToBits_eq (n len : Nat) : numberToBits n len = bitsLe n len := by
  induction len generalizing n with
  | zero => rfl
  | succ len ih =>
    rw [bitsLe_succ, numberToBits, ih, Nat.testBit_zero]
    rfl

theorem byte_eq (b₀ b₁ b₂ b₃ b₄ b₅ b₆ b₇ : Bool) :
    ((if b₀ then 0x80 else 0) ||| (if b₁ then 0x40 else 0) ||| (if b₂ then 0x20 else 0) |||
      (if b₃ then 0x10 else 0) ||| (if b₄ then 0x08 else 0) ||| (if b₅ then 0x04 else 0) |||
      (if b₆ then 0x02 else 0) ||| (if b₇ then 0x01 else 0) : UInt8) =
      byteOfBits [b₀, b₁, b₂, b₃, b₄, b₅, b₆, b₇] := by
  revert b₀ b₁ b₂ b₃ b₄ b₅ b₆ b₇
  decide

/-- The bytes are those of the server. -/
theorem bytesInBEOrder_eq (bits : List Bool) : bytesInBEOrder bits = intoBytesOrdered bits := by
  fun_induction bytesInBEOrder bits with
  | case1 b₀ b₁ b₂ b₃ b₄ b₅ b₆ b₇ bits ih => rw [intoBytesOrdered, ih, byte_eq]
  | case2 bits hshort =>
    rw [intoBytesOrdered]
    exact hshort

theorem bits_eq (b : UInt8) :
    [b &&& 0x80 != 0, b &&& 0x40 != 0, b &&& 0x20 != 0, b &&& 0x10 != 0,
      b &&& 0x08 != 0, b &&& 0x04 != 0, b &&& 0x02 != 0, b &&& 0x01 != 0] =
      (List.range 8).map fun i => b.toNat.testBit (7 - i) := by
  obtain ⟨v⟩ := b
  revert v
  decide

/-- The bits of a buffer are those of the server. -/
theorem buffer2bitsBE_eq (buff : Bytes) : buffer2bitsBE buff = fromBeBytes buff := by
  unfold buffer2bitsBE fromBeBytes
  simp only [bits_eq]

/-- Summing the bits up gives the number they stand for. -/
theorem sumOfBits_eq (bits : List Bool) : sumOfBits bits = ofBitsLe bits := by
  have hfold : ∀ (bits : List Bool) (sum pow2 : Nat),
      (bits.foldl (fun (sum, pow2) bit => (if bit then sum + pow2 else sum, pow2 * 2))
        (sum, pow2)).1 = sum + pow2 * ofBitsLe bits := by
    intro bits
    induction bits with
    | nil => exact fun sum pow2 => rfl
    | cons b bits ih =>
      intro sum pow2
      rw [List.foldl_cons, ih, ofBitsLe_cons]
      cases b with
      | false =>
        show sum + pow2 * 2 * ofBitsLe bits = sum + pow2 * (0 + 2 * ofBitsLe bits)
        ring
      | true =>
        show sum + pow2 + pow2 * 2 * ofBitsLe bits = sum + pow2 * (1 + 2 * ofBitsLe bits)
        ring
  unfold sumOfBits
  rw [hfold, Nat.zero_add, Nat.one_mul]

/-! ## What the client packs -/

/-- The least exponent with which the mantissa, rounded down, fits. -/
def LeastScale (maxMantissa n exponent : Nat) : Prop :=
  n < (maxMantissa + 1) * 10 ^ exponent ∧ ∀ e < exponent, (maxMantissa + 1) * 10 ^ e ≤ n

/-- The loop divides by ten until the mantissa fits, and no further. -/
theorem scaleDown_spec (maxMantissa n : Nat) :
    ∀ mantissa exponent, mantissa = n / 10 ^ exponent →
      (∀ e < exponent, (maxMantissa + 1) * 10 ^ e ≤ n) →
      ∃ e, scaleDown maxMantissa mantissa exponent = (e, n / 10 ^ e) ∧
        LeastScale maxMantissa n e := by
  intro mantissa exponent
  fun_induction scaleDown maxMantissa mantissa exponent with
  | case1 mantissa exponent hlarge ih =>
    intro hm hearlier
    refine ih ?_ fun e he => ?_
    · rw [hm, Nat.div_div_eq_div_mul, Nat.pow_succ]
    · rcases Nat.lt_or_eq_of_le (Nat.le_of_lt_succ he) with he | rfl
      · exact hearlier e he
      · rw [hm] at hlarge
        exact (Nat.le_div_iff_mul_le (Nat.pow_pos (by decide))).mp hlarge
  | case2 mantissa exponent hsmall =>
    intro hm hearlier
    refine ⟨exponent, by rw [hm], ?_, hearlier⟩
    rw [hm] at hsmall
    exact (Nat.div_lt_iff_lt_mul (Nat.pow_pos (by decide))).mp
      (Nat.lt_succ_of_le (Nat.le_of_not_lt hsmall))

section Client

variable {mantissaLen number n : Nat}

/-- A number that is not too large is packed with its least scale. -/
theorem pack_spec (hlen : 5 + mantissaLen = 8 * n) (hle : number ≤ maxPackable mantissaLen) :
    ∃ e, LeastScale (2 ^ mantissaLen - 1) number e ∧
      pack mantissaLen number = .ok (bytesOf 5 mantissaLen e (number / 10 ^ e)) := by
  obtain ⟨e, hscale, hleast⟩ := scaleDown_spec (2 ^ mantissaLen - 1) number number 0
    (by rw [Nat.pow_zero, Nat.div_one]) fun e he => absurd he (Nat.not_lt_zero e)
  refine ⟨e, hleast, ?_⟩
  have hfull : (bitsLe e 5 ++ bitsLe (number / 10 ^ e) mantissaLen).reverse.length % 8 = 0 := by
    rw [List.length_reverse, List.length_append, length_bitsLe, length_bitsLe, hlen]
    exact Nat.mul_mod_right 8 n
  unfold pack integerToFloat bitsIntoBytesInBEOrder
  dsimp only
  have hsmall : ¬ number > (2 ^ mantissaLen - 1) * 10 ^ (2 ^ 5 - 1) := Nat.not_lt.mpr hle
  rw [if_neg hsmall, hscale]
  simp only [Outcome.ensure, if_pos hfull, Outcome.ok_bind, Outcome.pure_eq, reverseBits,
    List.reverse_reverse, bytesInBEOrder_eq, numberToBits_eq, bytesOf]

/-- A number that has no room is refused. -/
theorem pack_ne_ok (hlt : maxPackable mantissaLen < number) :
    pack mantissaLen number = Outcome.bail "Integer is too big" := by
  unfold pack integerToFloat
  dsimp only
  rw [if_pos (show number > (2 ^ mantissaLen - 1) * 10 ^ (2 ^ 5 - 1) from hlt)]
  rfl

/-- A mantissa and an exponent are read back from their bytes. -/
theorem floatToInteger_bytesOf (hlen : 5 + mantissaLen = 8 * n) {e m : Nat} (he : e < 2 ^ 5)
    (hm : m < 2 ^ mantissaLen) :
    floatToInteger (bytesOf 5 mantissaLen e m) 5 mantissaLen = .ok (10 ^ e * m) := by
  have hbits : (bitsLe e 5 ++ bitsLe m mantissaLen).reverse.length = 8 * n := by
    rw [List.length_reverse, List.length_append, length_bitsLe, length_bitsLe, hlen]
  have hlength : (bytesOf 5 mantissaLen e m).length * 8 = mantissaLen + 5 := by
    unfold bytesOf
    rw [length_intoBytesOrdered hbits]
    omega
  have hback : (buffer2bitsBE (bytesOf 5 mantissaLen e m)).reverse =
      bitsLe e 5 ++ bitsLe m mantissaLen := by
    unfold bytesOf
    rw [buffer2bitsBE_eq, fromBeBytes_intoBytesOrdered hbits, List.reverse_reverse]
  unfold floatToInteger
  dsimp only
  rw [hback, List.take_left' (length_bitsLe e 5), List.drop_left' (length_bitsLe e 5),
    List.take_of_length_le (Nat.le_of_eq (length_bitsLe m mantissaLen)), sumOfBits_eq, sumOfBits_eq,
    ofBitsLe_bitsLe he, ofBitsLe_bitsLe hm]
  simp only [Outcome.ensure, if_pos hlength, Outcome.ok_bind, Outcome.pure_eq]

end Client

/-! ## Client and server -/

/-- The number lies between the largest mantissa and the next number, at some exponent. -/
def BetweenMantissas (mantissaLen n : Nat) : Prop :=
  ∃ e < 31, (2 ^ mantissaLen - 1) * 10 ^ e < n ∧ n < 2 ^ mantissaLen * 10 ^ e

/-- A client and a server treat a number alike: they agree on the closest packable
number, on whether it is packable, and then on its bytes. -/
structure Alike (closestJs closestRs : Outcome Nat) (isPackableJs : Outcome Bool)
    (isPackableRs : Prop) (packedJs packedRs : Outcome Bytes) : Prop where
  closest : ∀ value, closestJs = .ok value ↔ closestRs = .ok value
  packable : isPackableJs = .ok true ↔ isPackableRs
  bytes : isPackableRs → packedJs = packedRs

section Compare

variable {mantissaLen number n : Nat}

/-- The two exponents. -/
theorem exponents_eq_or_between {maxMantissa e e' : Nat} (hmax : 0 < maxMantissa)
    (hjs : LeastScale maxMantissa number e) (hrs : LeastExponent maxMantissa number e') :
    e = e' ∨ maxMantissa * 10 ^ e < number ∧ number < (maxMantissa + 1) * 10 ^ e ∧ e' = e + 1 := by
  by_cases hreach : number ≤ maxMantissa * 10 ^ e
  · refine Or.inl (LeastExponent.unique ⟨hreach, fun i hi => ?_⟩ hrs)
    refine Nat.lt_of_lt_of_le ?_ (hjs.2 i hi)
    exact Nat.mul_lt_mul_of_pos_right (Nat.lt_succ_self _) (Nat.pow_pos (by decide))
  · have hgt := Nat.lt_of_not_le hreach
    refine Or.inr ⟨hgt, hjs.1, hrs.unique ⟨?_, fun i hi => ?_⟩⟩
    · refine Nat.le_of_lt (Nat.lt_of_lt_of_le hjs.1 ?_)
      have hten : maxMantissa * 10 ^ (e + 1) = 10 * maxMantissa * 10 ^ e := by
        rw [Nat.pow_succ]
        ring
      rw [hten]
      exact Nat.mul_le_mul_right _ (by omega)
    · refine Nat.lt_of_le_of_lt ?_ hgt
      exact Nat.mul_le_mul_left _ (Nat.pow_le_pow_right (by decide) (Nat.le_of_lt_succ hi))

/-- Between two mantissas the client rounds to the lower one. -/
theorem div_of_between {maxMantissa e : Nat} (hgt : maxMantissa * 10 ^ e < number)
    (hlt : number < (maxMantissa + 1) * 10 ^ e) : number / 10 ^ e = maxMantissa :=
  Nat.div_eq_of_lt_le (Nat.le_of_lt hgt) hlt

/-- The server's value is not that mantissa, since an odd mantissa is no multiple of ten. -/
theorem server_ne_of_between {maxMantissa e : Nat} (hodd : maxMantissa % 2 = 1) :
    number / 10 ^ (e + 1) * 10 ^ (e + 1) ≠ maxMantissa * 10 ^ e := by
  intro h
  have hten : number / 10 ^ (e + 1) * 10 ^ (e + 1) = number / 10 ^ (e + 1) * 10 * 10 ^ e := by
    rw [Nat.pow_succ]
    ring
  rw [hten] at h
  have h' := Nat.eq_of_mul_eq_mul_right (Nat.pow_pos (by decide)) h
  omega

theorem maxMantissa_odd (hlen : 5 + mantissaLen = 8 * n) :
    0 < 2 ^ mantissaLen - 1 ∧ (2 ^ mantissaLen - 1) % 2 = 1 ∧
      2 ^ mantissaLen - 1 + 1 = 2 ^ mantissaLen := by
  obtain ⟨k, rfl⟩ : ∃ k, mantissaLen = k + 1 := ⟨mantissaLen - 1, by omega⟩
  have hpos : 0 < 2 ^ k := Nat.pow_pos (by decide)
  rw [Nat.pow_succ]
  omega

/-- The client's closest number. -/
theorem closestPackable_eq (hlen : 5 + mantissaLen = 8 * n) {e : Nat} (he : e < 32)
    (hm : number / 10 ^ e < 2 ^ mantissaLen)
    (hpack : pack mantissaLen number = .ok (bytesOf 5 mantissaLen e (number / 10 ^ e))) :
    closestPackable mantissaLen number = .ok (number / 10 ^ e * 10 ^ e) := by
  unfold closestPackable
  rw [hpack, Outcome.ok_bind, floatToInteger_bytesOf hlen he hm, Nat.mul_comm]

/-- A number is packable if it is the closest packable one. -/
theorem isPackable_iff {value : Nat} (h : closestPackable mantissaLen number = .ok value) :
    isPackable mantissaLen number = .ok true ↔ value = number := by
  unfold isPackable
  rw [h]
  simp only [Outcome.ok_bind, Outcome.pure_eq, Except.ok.injEq, decide_eq_true_eq]

/-- Behind the check the number is packed. -/
theorem packChecked_eq {message : String} (h : closestPackable mantissaLen number = .ok number) :
    packChecked mantissaLen message number = pack mantissaLen number := by
  have hsame : Outcome.ensure (number = number) message = .ok () := if_pos rfl
  unfold packChecked
  rw [h, Outcome.ok_bind, hsame, Outcome.ok_bind]

/-- Between two mantissas the exponents differ. -/
theorem exponents_of_between {maxMantissa e : Nat} (hmax : 10 ≤ maxMantissa)
    (hgt : maxMantissa * 10 ^ e < number) (hlt : number < (maxMantissa + 1) * 10 ^ e) :
    LeastScale maxMantissa number e ∧ LeastExponent maxMantissa number (e + 1) := by
  refine ⟨⟨hlt, fun i hi => ?_⟩, LeastExponent.of_fallsBack hmax hgt ?_⟩
  · obtain ⟨j, rfl⟩ : ∃ j, e = j + 1 := ⟨e - 1, by omega⟩
    refine Nat.le_trans ?_ (Nat.le_of_lt hgt)
    rw [mul_pow_succ]
    exact Nat.mul_le_mul (by omega) (Nat.pow_le_pow_right (by decide) (Nat.le_of_lt_succ hi))
  · refine Nat.lt_of_lt_of_le hlt ?_
    rw [mul_pow_succ]
    exact Nat.mul_le_mul_right _ (by omega)

/-- What lies between two mantissas is not beyond the last number. -/
theorem BetweenMantissas.le_maxPackable (hmax : 10 ≤ 2 ^ mantissaLen - 1)
    (h : BetweenMantissas mantissaLen number) : number ≤ maxPackable mantissaLen := by
  obtain ⟨e, he, -, hlt⟩ := h
  refine Nat.le_of_lt (Nat.lt_of_lt_of_le hlt ?_)
  have hten : 2 ^ mantissaLen * 10 ^ e ≤ (2 ^ mantissaLen - 1) * 10 * 10 ^ e :=
    Nat.mul_le_mul_right _ (by omega)
  rw [← mul_pow_succ] at hten
  exact Nat.le_trans hten (Nat.mul_le_mul_left _ (Nat.pow_le_pow_right (by decide) he))

/-- With one exponent, client and server treat a number alike. -/
theorem alike_of_exponent (hlen : 5 + mantissaLen = 8 * n) (h128 : number < u128Bound)
    (hle : number ≤ maxPackable mantissaLen) {message messageRs : String} {e : Nat}
    (hleast : LeastExponent (2 ^ mantissaLen - 1) number e)
    (hpack : pack mantissaLen number = .ok (bytesOf 5 mantissaLen e (number / 10 ^ e))) :
    Alike (closestPackable mantissaLen number)
      (FloatConversions.closestPackable mantissaLen messageRs number)
      (isPackable mantissaLen number) (IsPackable mantissaLen number)
      (packChecked mantissaLen message number) (FloatConversions.pack number 5 mantissaLen) := by
  obtain ⟨e', hleast', hpackRs, -, hclosestRs⟩ :=
    FloatConversions.closestPackable_eq messageRs hlen h128 hle
  obtain rfl := hleast.unique hleast'
  have hm : number / 10 ^ e < 2 ^ mantissaLen := by
    have hm := hleast.mantissa_le
    have hpos : 0 < 2 ^ mantissaLen := Nat.pow_pos (by decide)
    omega
  have hclosest := closestPackable_eq hlen (hleast.lt_32 hle) hm hpack
  refine ⟨fun value => ?_, ?_, fun hpackable => ?_⟩
  · rw [hclosest, hclosestRs]
  · rw [isPackable_iff hclosest, isPackable_iff_eq hlen h128 hle hleast]
  · have heq := (isPackable_iff_eq hlen h128 hle hleast).mp hpackable
    rw [packChecked_eq (by rw [hclosest, heq]), hpack, hpackRs]

/-- A client and a server treat every number alike that is not between two mantissas. -/
theorem alike_iff (hlen : 5 + mantissaLen = 8 * n) (hmax : 10 ≤ 2 ^ mantissaLen - 1)
    (h128 : number < u128Bound) {message messageRs : String} :
    Alike (closestPackable mantissaLen number)
      (FloatConversions.closestPackable mantissaLen messageRs number)
      (isPackable mantissaLen number) (IsPackable mantissaLen number)
      (packChecked mantissaLen message number) (FloatConversions.pack number 5 mantissaLen) ↔
      ¬ BetweenMantissas mantissaLen number := by
  obtain ⟨hpos, hodd, hsucc⟩ := maxMantissa_odd hlen
  rcases Nat.lt_or_ge (maxPackable mantissaLen) number with hlarge | hle
  · -- Neither packs a number that is too large.
    have hclient : closestPackable mantissaLen number = Outcome.bail "Integer is too big" := by
      unfold closestPackable
      rw [pack_ne_ok hlarge]
      rfl
    refine ⟨fun _ h => absurd (h.le_maxPackable hmax) (Nat.not_le.mpr hlarge), fun _ => ?_⟩
    have hserver : ∀ value,
        FloatConversions.closestPackable mantissaLen messageRs number ≠ .ok value := by
      intro value h
      obtain ⟨packed, hpacked, -⟩ := Outcome.bind_eq_ok.mp h
      exact FloatConversions.pack_ne_ok hlarge hpacked
    refine ⟨fun value => ⟨fun h => ?_, fun h => absurd h (hserver value)⟩,
      ⟨fun h => ?_, fun h => absurd h.choose_spec.1 (FloatConversions.pack_ne_ok hlarge)⟩,
      fun h => absurd h.choose_spec.1 (FloatConversions.pack_ne_ok hlarge)⟩
    · rw [hclient] at h
      cases h
    · unfold isPackable at h
      rw [hclient] at h
      cases h
  · obtain ⟨e, hscale, hpack⟩ := pack_spec hlen hle
    obtain ⟨e', hleast, -, -, hclosestRs⟩ :=
      FloatConversions.closestPackable_eq messageRs hlen h128 hle
    rcases exponents_eq_or_between hpos hscale hleast with rfl | ⟨hgt, hlt, rfl⟩
    · refine ⟨fun _ => ?_, fun _ => alike_of_exponent hlen h128 hle hleast hpack⟩
      rintro ⟨i, -, hgt, hlt⟩
      rw [← hsucc] at hlt
      obtain ⟨hscale', hleast'⟩ := exponents_of_between hmax hgt hlt
      rcases exponents_eq_or_between hpos hscale' hleast with rfl | ⟨-, -, rfl⟩
      · exact absurd (hleast.unique hleast') (Nat.ne_of_lt (Nat.lt_succ_self _))
      · exact absurd (hscale.2 i (Nat.lt_succ_self i)) (Nat.not_le.mpr hlt)
    · have he := hleast.lt_32 hle
      refine ⟨fun halike => ?_, fun hnot => ?_⟩
      · have hm := div_of_between hgt hlt
        have hclosest := closestPackable_eq hlen (Nat.lt_of_succ_lt he) (by omega) hpack
        have hsame := (halike.closest _).mp hclosest
        rw [hclosestRs, hm] at hsame
        exact absurd (Except.ok.inj hsame) (server_ne_of_between hodd)
      · exact absurd ⟨e, by omega, hgt, by rwa [← hsucc]⟩ hnot

/-- A packable number is not between two mantissas: it is a multiple of the next power, and
the largest mantissa is followed by the next number. -/
theorem not_between_of_packable (hlen : 5 + mantissaLen = 8 * n)
    (hmax : 10 ≤ 2 ^ mantissaLen - 1) (h128 : number < u128Bound)
    (h : IsPackable mantissaLen number) : ¬ BetweenMantissas mantissaLen number := by
  intro hbetween
  have hle := hbetween.le_maxPackable hmax
  obtain ⟨-, -, hsucc⟩ := maxMantissa_odd hlen
  obtain ⟨e, -, hgt, hlt⟩ := hbetween
  rw [← hsucc] at hlt
  have hleast := (exponents_of_between hmax hgt hlt).2
  have heq := (isPackable_iff_eq hlen h128 hle hleast).mp h
  rw [← heq, mul_pow_succ] at hgt hlt
  have hlow := Nat.lt_of_mul_lt_mul_right hgt
  have hhigh := Nat.lt_of_mul_lt_mul_right hlt
  omega

end Compare

/-! ## Amounts and fees -/

/-- A client and a server treat an amount alike, and a fee. -/
def AmountAlike (amount : Nat) : Prop :=
  Alike (closestPackableTransactionAmount amount) (closestPackableTokenAmount amount)
    (isTransactionAmountPackable amount) (IsTokenAmountPackable amount)
    (packAmountChecked amount) (packTokenAmount amount)

/-- Server and library do the same with a fee. -/
def FeeAlike (fee : Nat) : Prop :=
  Alike (closestPackableTransactionFee fee) (closestPackableFeeAmount fee)
    (isTransactionFeePackable fee) (IsFeeAmountPackable fee) (packFeeChecked fee)
    (packFeeAmount fee)

/-- They do so for every number that is not between two mantissas. -/
theorem packing_alike_iff {number : Nat} (h : number < u128Bound) :
    (AmountAlike number ↔ ¬ BetweenMantissas 35 number) ∧
    (FeeAlike number ↔ ¬ BetweenMantissas 11 number) :=
  ⟨alike_iff (n := 5) rfl (by decide) h, alike_iff (n := 2) rfl (by decide) h⟩

/-- The greatest mantissa of an amount, ten times: as an amount it has the exponent one, and as
a fee it has to be rounded. -/
theorem packing_alike_iff_ten :
    (AmountAlike 343597383670 ↔ ¬ BetweenMantissas 35 343597383670) ∧
      (FeeAlike 343597383670 ↔ ¬ BetweenMantissas 11 343597383670) :=
  packing_alike_iff (by decide)

/-- The client offers 343597383670 for this amount, the server 343597383600. -/
theorem packing_not_alike : ¬ AmountAlike 343597383675 := by
  intro h
  exact (alike_iff (n := 5) rfl (by decide) (by decide)).mp h
    ⟨1, by decide, by decide, by decide⟩

end Sdk

end ZkSync
