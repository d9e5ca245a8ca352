import ZkSync.Types.Packed
import Mathlib.Data.Nat.Digits.Defs
import Mathlib.Data.Nat.Log

/-!
# The value of a packed amount

What packing makes of a number, in closed form: the exponent is the least one for
which the largest mantissa reaches the number (`exponentAndMantissa_spec`), the
mantissa is what is left of the number after as many divisions, and unpacking gives
the mantissa times the power of ten (`unpack_bytesOf`). So a number is packed to the
largest multiple of that power below it (`closest_eq`).
-/

namespace ZkSync

/-! ## Bits -/

namespace FloatConversions

/-- The number of a list of bits, lowest first. -/
def ofBitsLe (bits : List Bool) : Nat := Nat.ofDigits 2 (bits.map Bool.toNat)

theorem ofBitsLe_cons (b : Bool) (bits : List Bool) :
    ofBitsLe (b :: bits) = b.toNat + 2 * ofBitsLe bits := rfl

theorem bitsLe_succ (n len : Nat) : bitsLe n (len + 1) = n.testBit 0 :: bitsLe (n / 2) len := by
  unfold bitsLe
  rw [List.range_succ_eq_map, List.map_cons, List.map_map]
  refine congrArg _ (List.map_congr_left fun i _ => ?_)
  exact Nat.testBit_succ n i

theorem ofBitsLe_bitsLe {n len : Nat} (h : n < 2 ^ len) : ofBitsLe (bitsLe n len) = n := by
  induction len generalizing n with
  | zero =>
    rw [Nat.lt_one_iff.mp h]
    rfl
  | succ len ih =>
    rw [bitsLe_succ, ofBitsLe_cons, ih (by omega), Nat.testBit_zero]
    rcases Nat.mod_two_eq_zero_or_one n with h0 | h1
    · rw [h0]
      show 0 + 2 * (n / 2) = n
      omega
    · rw [h1]
      show 1 + 2 * (n / 2) = n
      omega

/-- Adding up the bits does not overflow if the sum does not. -/
theorem foldlM_checkedSum {bound : Nat} (bits : List Bool) (k acc : Nat)
    (h : acc + 2 ^ k * ofBitsLe bits < bound) :
    (bits.zipIdx k).foldlM (fun acc (bit, i) =>
      if bit then if acc + 2 ^ i < bound then some (acc + 2 ^ i) else none else some acc) acc =
      some (acc + 2 ^ k * ofBitsLe bits) := by
  induction bits generalizing k acc with
  | nil => rfl
  | cons b bits ih =>
    have hsplit : acc + 2 ^ k * ofBitsLe (b :: bits) =
        acc + 2 ^ k * b.toNat + 2 ^ (k + 1) * ofBitsLe bits := by
      rw [ofBitsLe_cons, Nat.pow_succ]
      ring
    rw [hsplit] at h ⊢
    rw [List.zipIdx_cons, List.foldlM_cons]
    cases b with
    | false => exact ih (k + 1) acc h
    | true =>
      have hnow : acc + 2 ^ k < bound := by
        have hle : acc + 2 ^ k * true.toNat ≤
            acc + 2 ^ k * true.toNat + 2 ^ (k + 1) * ofBitsLe bits := Nat.le_add_right _ _
        rw [show true.toNat = 1 from rfl, Nat.mul_one] at hle h
        exact Nat.lt_of_le_of_lt hle h
      dsimp only
      rw [if_pos rfl, if_pos hnow]
      show (bits.zipIdx (k + 1)).foldlM _ (acc + 2 ^ k) = _
      rw [ih (k + 1) (acc + 2 ^ k) (by rwa [show true.toNat = 1 from rfl, Nat.mul_one] at h)]
      rw [show true.toNat = 1 from rfl, Nat.mul_one]

theorem checkedSum_bitsLe {bound n len : Nat} (hlen : n < 2 ^ len) (hbound : n < bound) :
    checkedSum bound (bitsLe n len).reverse = some n := by
  unfold checkedSum
  rw [List.reverse_reverse, foldlM_checkedSum]
  · rw [ofBitsLe_bitsLe hlen, Nat.pow_zero, Nat.one_mul, Nat.zero_add]
  · rwa [ofBitsLe_bitsLe hlen, Nat.pow_zero, Nat.one_mul, Nat.zero_add]

/-! ## Bytes -/

theorem bits_byteOfBits (b₇ b₆ b₅ b₄ b₃ b₂ b₁ b₀ : Bool) :
    (List.range 8).map (fun i =>
      (byteOfBits [b₇, b₆, b₅, b₄, b₃, b₂, b₁, b₀]).toNat.testBit (7 - i)) =
      [b₇, b₆, b₅, b₄, b₃, b₂, b₁, b₀] := by
  revert b₇ b₆ b₅ b₄ b₃ b₂ b₁ b₀
  decide

theorem fromBeBytes_intoBytesOrdered {bits : List Bool} {n : Nat} (h : bits.length = 8 * n) :
    fromBeBytes (intoBytesOrdered bits) = bits := by
  fun_induction intoBytesOrdered bits generalizing n with
  | case1 b₇ b₆ b₅ b₄ b₃ b₂ b₁ b₀ bits ih =>
    simp only [List.length_cons] at h
    unfold fromBeBytes at ih ⊢
    rw [List.flatMap_cons, ih (n := n - 1) (by omega), bits_byteOfBits]
    rfl
  | case2 bits hshort =>
    have hlength : bits.length < 8 := by
      by_contra hlong
      obtain ⟨b₇, b₆, b₅, b₄, b₃, b₂, b₁, b₀, rest, rfl⟩ : ∃ b₇ b₆ b₅ b₄ b₃ b₂ b₁ b₀ rest,
          bits = b₇ :: b₆ :: b₅ :: b₄ :: b₃ :: b₂ :: b₁ :: b₀ :: rest := by
        rcases bits with _ | ⟨b₇, _ | ⟨b₆, _ | ⟨b₅, _ | ⟨b₄, _ | ⟨b₃, _ | ⟨b₂, _ | ⟨b₁, _ | ⟨b₀,
          rest⟩⟩⟩⟩⟩⟩⟩⟩ <;> first
          | exact ⟨_, _, _, _, _, _, _, _, _, rfl⟩
          | exact absurd (by simp only [List.length_cons, List.length_nil]; omega) hlong
      exact hshort b₇ b₆ b₅ b₄ b₃ b₂ b₁ b₀ rest rfl
    exact (List.length_eq_zero_iff.mp (by omega)).symm

/-- The bytes of an exponent and a mantissa. -/
def bytesOf (exponentLen mantissaLen exponent mantissa : Nat) : Bytes :=
  intoBytesOrdered (bitsLe exponent exponentLen ++ bitsLe mantissa mantissaLen).reverse

theorem unpack_bytesOf {exponentLen mantissaLen exponent mantissa n : Nat}
    (hlen : exponentLen + mantissaLen = 8 * n) (he : exponent < 2 ^ exponentLen)
    (hm : mantissa < 2 ^ mantissaLen) (he32 : exponent < 2 ^ 32)
    (hpow : 10 ^ exponent < u128Bound) (hvalue : mantissa * 10 ^ exponent < u128Bound) :
    unpack (bytesOf exponentLen mantissaLen exponent mantissa) exponentLen mantissaLen =
      some (mantissa * 10 ^ exponent) := by
  have hbits : (bitsLe exponent exponentLen ++ bitsLe mantissa mantissaLen).reverse.length =
      8 * n := by
    rw [List.length_reverse, List.length_append, length_bitsLe, length_bitsLe, hlen]
  have hm128 : mantissa < u128Bound :=
    Nat.lt_of_le_of_lt (Nat.le_mul_of_pos_right _ (Nat.pow_pos (by decide))) hvalue
  have htake : (bitsLe mantissa mantissaLen).reverse.length = mantissaLen := by
    rw [List.length_reverse, length_bitsLe]
  have hexp : (bitsLe exponent exponentLen).reverse.length = exponentLen := by
    rw [List.length_reverse, length_bitsLe]
  unfold unpack bytesOf
  rw [if_neg (by rw [length_intoBytesOrdered hbits]; omega), fromBeBytes_intoBytesOrdered hbits,
    List.reverse_append]
  dsimp only
  rw [List.take_left' htake, List.drop_left' htake, List.take_of_length_le (Nat.le_of_eq hexp),
    checkedSum_bitsLe hm hm128, checkedSum_bitsLe he he32]
  simp only [Option.bind_eq_bind, Option.bind_some, toU128, if_pos hpow, if_pos hvalue]

/-! ## The exponent -/

theorem exponentOf_eq_log (n : Nat) : exponentOf n = Nat.log 10 n := by
  fun_induction exponentOf n with
  | case1 n hlt => exact (Nat.log_of_lt hlt).symm
  | case2 n hge ih =>
    have hge' : 10 ≤ n := Nat.le_of_not_lt hge
    rw [ih, Nat.log_of_one_lt_of_le (by decide) hge']
    rfl

/-- The exponent is the least one for which the largest mantissa reaches the number. -/
def LeastExponent (maxMantissa n exponent : Nat) : Prop :=
  n ≤ maxMantissa * 10 ^ exponent ∧ ∀ e < exponent, maxMantissa * 10 ^ e < n

theorem exponentAndMantissa_spec {maxMantissa : Nat} (hmax : 0 < maxMantissa) (n : Nat) :
    ∃ exponent, exponentAndMantissa n maxMantissa = (exponent, n / 10 ^ exponent) ∧
      LeastExponent maxMantissa n exponent := by
  unfold exponentAndMantissa
  split
  next hlarge =>
    dsimp only
    rw [exponentOf_eq_log]
    have hguess : n / maxMantissa ≠ 0 :=
      Nat.ne_of_gt (Nat.div_pos (Nat.le_of_lt hlarge) hmax)
    -- The power is at most the guess, and ten times the power is more than that.
    have hbelow : maxMantissa * 10 ^ Nat.log 10 (n / maxMantissa) ≤ n := by
      refine Nat.le_trans (Nat.mul_le_mul_left _ (Nat.pow_log_le_self 10 hguess)) ?_
      exact Nat.mul_div_le n maxMantissa
    have habove : n < maxMantissa * 10 ^ (Nat.log 10 (n / maxMantissa) + 1) := by
      have hlt := Nat.lt_pow_succ_log_self (by decide : 1 < 10) (n / maxMantissa)
      rw [Nat.mul_comm]
      exact (Nat.div_lt_iff_lt_mul hmax).mp hlt
    have hearlier : ∀ e < Nat.log 10 (n / maxMantissa), maxMantissa * 10 ^ e < n := by
      intro e he
      refine Nat.lt_of_lt_of_le ?_ hbelow
      exact Nat.mul_lt_mul_of_pos_left (Nat.pow_lt_pow_right (by decide) he) hmax
    split
    next hless =>
      refine ⟨_, rfl, Nat.le_of_lt habove, fun e he => ?_⟩
      rcases Nat.lt_or_eq_of_le (Nat.le_of_lt_succ he) with he | rfl
      · exact hearlier e he
      · rw [Nat.mul_comm]
        exact hless
    next hnot =>
      refine ⟨_, rfl, ?_, hearlier⟩
      rw [Nat.mul_comm]
      exact Nat.le_of_not_lt hnot
  next hsmall =>
    refine ⟨0, by rw [Nat.pow_zero, Nat.div_one], ?_, fun e he => absurd he (Nat.not_lt_zero e)⟩
    rw [Nat.pow_zero, Nat.mul_one]
    exact Nat.le_of_not_lt hsmall

theorem LeastExponent.unique {maxMantissa n e e' : Nat} (h : LeastExponent maxMantissa n e)
    (h' : LeastExponent maxMantissa n e') : e = e' := by
  rcases Nat.lt_trichotomy e e' with hlt | heq | hgt
  · exact absurd h.1 (Nat.not_le.mpr (h'.2 e hlt))
  · exact heq
  · exact absurd h'.1 (Nat.not_le.mpr (h.2 e' hgt))

/-- The mantissa fits. -/
theorem LeastExponent.mantissa_le {maxMantissa n e : Nat} (h : LeastExponent maxMantissa n e) :
    n / 10 ^ e ≤ maxMantissa :=
  (Nat.div_le_iff_le_mul_add_pred (Nat.pow_pos (by decide))).mpr
    (Nat.le_trans h.1 (by rw [Nat.mul_comm]; exact Nat.le_add_right _ _))

/-! ## Packing with five bits of exponent -/

/-- The largest number with `mantissaLen` bits of mantissa: anything larger is rejected. -/
def maxPackable (mantissaLen : Nat) : Nat := (2 ^ mantissaLen - 1) * 10 ^ 31

section Pack

variable {mantissaLen number n : Nat}

theorem pow_lt_u128Bound {e : Nat} (he : e < 32) : 10 ^ e < u128Bound :=
  Nat.lt_of_le_of_lt (Nat.pow_le_pow_right (by decide) (Nat.le_of_lt_succ he)) (by decide)

theorem LeastExponent.lt_32 {e : Nat} (h : LeastExponent (2 ^ mantissaLen - 1) number e)
    (hle : number ≤ maxPackable mantissaLen) : e < 32 := by
  refine Nat.lt_of_not_le fun hge => ?_
  exact absurd hle (Nat.not_le.mpr (h.2 31 hge))

theorem toFloat_eq (h128 : number < u128Bound) (hle : number ≤ maxPackable mantissaLen) :
    toFloat number 5 mantissaLen =
      .ok (bitsLe (exponentAndMantissa number (2 ^ mantissaLen - 1)).1 5 ++
        bitsLe (exponentAndMantissa number (2 ^ mantissaLen - 1)).2 mantissaLen) := by
  have hmax : (List.range (2 ^ 5 - 1)).foldl (fun acc _ => saturatingMul acc base) 1 = 10 ^ 31 := by
    decide +kernel
  unfold toFloat
  dsimp only
  rw [hmax, if_neg]
  · rfl
  · refine Nat.not_lt.mpr (Nat.le_min.mpr ⟨hle, ?_⟩)
    omega

theorem pack_of_toFloat {exponentLen : Nat} {bits : List Bool} (h128 : number < u128Bound)
    (hfloat : toFloat number exponentLen mantissaLen = .ok bits) (hfull : bits.length % 8 = 0) :
    pack number exponentLen mantissaLen = .ok (intoBytesOrdered bits.reverse) := by
  unfold pack toU128
  rw [if_pos h128]
  simp only [Outcome.expect, Outcome.ok_bind, hfloat, Outcome.assert_ok _ hfull, Outcome.pure_eq]

/-- A number that is not too large is packed with its least exponent. -/
theorem pack_eq (hlen : 5 + mantissaLen = 8 * n) (h128 : number < u128Bound)
    (hle : number ≤ maxPackable mantissaLen) :
    ∃ e, LeastExponent (2 ^ mantissaLen - 1) number e ∧
      pack number 5 mantissaLen = .ok (bytesOf 5 mantissaLen e (number / 10 ^ e)) := by
  have hpos : 0 < 2 ^ mantissaLen - 1 :=
    Nat.sub_pos_of_lt (Nat.one_lt_two_pow (by omega))
  obtain ⟨e, heq, hleast⟩ := exponentAndMantissa_spec hpos number
  refine ⟨e, hleast, pack_of_toFloat h128 ?_ ?_⟩
  · rw [toFloat_eq h128 hle, heq]
  · rw [List.length_append, length_bitsLe, length_bitsLe, hlen]
    exact Nat.mul_mod_right 8 n

/-- A number that is too large is not packed. -/
theorem pack_ne_ok (hlt : maxPackable mantissaLen < number) {bytes : Bytes} :
    pack number 5 mantissaLen ≠ .ok bytes := by
  intro h
  unfold pack toU128 at h
  obtain ⟨uint, huint, h⟩ := Outcome.bind_eq_ok.mp h
  split at huint
  next h128 =>
    obtain rfl : number = uint := by
      cases huint
      rfl
    have hfloat : toFloat number 5 mantissaLen = Outcome.bail "Integer is too big" := by
      have hmax : (List.range (2 ^ 5 - 1)).foldl (fun acc _ => saturatingMul acc base) 1 =
          10 ^ 31 := by
        decide +kernel
      unfold toFloat
      dsimp only
      rw [hmax, if_pos]
      · rfl
      · exact Nat.lt_of_le_of_lt (Nat.min_le_left _ _) hlt
    rw [hfloat] at h
    cases h
  next => cases huint

/-- What was packed unpacks to the number, rounded down to a multiple of the power. -/
theorem unpack_pack (hlen : 5 + mantissaLen = 8 * n) (h128 : number < u128Bound)
    (hle : number ≤ maxPackable mantissaLen) {e : Nat}
    (hleast : LeastExponent (2 ^ mantissaLen - 1) number e) :
    unpack (bytesOf 5 mantissaLen e (number / 10 ^ e)) 5 mantissaLen =
      some (number / 10 ^ e * 10 ^ e) := by
  have he := hleast.lt_32 hle
  have hm := hleast.mantissa_le
  have hpos : 0 < 2 ^ mantissaLen := Nat.pow_pos (by decide)
  refine unpack_bytesOf hlen he (by omega) (Nat.lt_trans he (by decide)) (pow_lt_u128Bound he) ?_
  exact Nat.lt_of_le_of_lt (Nat.div_mul_le_self _ _) h128

end Pack

end FloatConversions

end ZkSync
