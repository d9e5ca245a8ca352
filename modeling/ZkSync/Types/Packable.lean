import ZkSync.Types.PackedValue
import Mathlib.Order.Bounds.Defs

/-!
# Packable numbers

`helpers.rs` calls a number packable if packing and unpacking gives it back, and
takes what comes back for the closest packable number below. The packable numbers
are the mantissas times the powers of ten (`packable_iff`), and what comes back is
one of them and not above the number (`repacked_le`). It is not always the greatest:
the exponent is chosen so that the largest mantissa *reaches* the number, so a number
just above the largest mantissa falls back to the next exponent, whose mantissas are
ten times as far apart (`FallsBack`). Such a number is given a value below the
largest mantissa, which packs with the smaller exponent (`packing_exact_iff`), which
is not the closest, and which is smaller than what a number below it is given
(`Overtakes`, `closest_packable_iff`).

The exponents compare by arithmetic on an arbitrary largest mantissa; the bytes come
in through `pack_eq` and `unpack_pack` only.
-/

namespace ZkSync

namespace FloatConversions

/-! ## Rounding down with the least exponent -/

/-- The number is above the largest mantissa at an exponent, and rounds below it at the
next. -/
def FallsBack (maxMantissa n : Nat) : Prop :=
  ∃ e < 31, maxMantissa * 10 ^ e < n ∧ n < (maxMantissa / 10 + 1) * 10 ^ (e + 1)

/-- The larger number falls back below what the smaller one, at most the largest mantissa,
is rounded to. -/
def Overtakes (maxMantissa x y : Nat) : Prop :=
  ∃ e < 31, (10 * (maxMantissa / 10) + 1) * 10 ^ e ≤ x ∧ x ≤ maxMantissa * 10 ^ e ∧
    maxMantissa * 10 ^ e < y ∧ y < (maxMantissa / 10 + 1) * 10 ^ (e + 1)

section Rounding

variable {maxMantissa n e : Nat}

theorem pow_pos_ten (e : Nat) : 0 < 10 ^ e := Nat.pow_pos (by decide)

theorem mul_pow_succ (m e : Nat) : m * 10 ^ (e + 1) = m * 10 * 10 ^ e := by
  rw [Nat.pow_succ]
  ring

/-- A mantissa times a power needs no larger exponent. -/
theorem LeastExponent.le_of_decimal {m i : Nat} (hm : m ≤ maxMantissa)
    (h : LeastExponent maxMantissa (m * 10 ^ i) e) : e ≤ i := by
  refine Nat.le_of_not_lt fun hlt => ?_
  exact absurd (Nat.mul_le_mul_right _ hm) (Nat.not_le.mpr (h.2 i hlt))

/-- So it is not rounded. -/
theorem LeastExponent.decimal_eq {m i : Nat} (hm : m ≤ maxMantissa)
    (h : LeastExponent maxMantissa (m * 10 ^ i) e) :
    m * 10 ^ i / 10 ^ e * 10 ^ e = m * 10 ^ i := by
  have hdvd : 10 ^ e ∣ m * 10 ^ i :=
    Dvd.dvd.mul_left (Nat.pow_dvd_pow 10 (h.le_of_decimal hm)) m
  exact Nat.div_mul_cancel hdvd

/-- The rounded number has the same exponent, unless the number falls back. -/
theorem LeastExponent.again_iff (h : LeastExponent maxMantissa n e) :
    LeastExponent maxMantissa (n / 10 ^ e * 10 ^ e) e ↔
      ∀ i, e = i + 1 → (maxMantissa / 10 + 1) * 10 ^ (i + 1) ≤ n := by
  have hreach : n / 10 ^ e * 10 ^ e ≤ maxMantissa * 10 ^ e :=
    Nat.mul_le_mul_right _ h.mantissa_le
  constructor
  · rintro ⟨-, hearlier⟩ i rfl
    have hlt := hearlier i (Nat.lt_succ_self i)
    rw [mul_pow_succ] at hlt
    have hlt' := Nat.lt_of_mul_lt_mul_right hlt
    exact (Nat.le_div_iff_mul_le (pow_pos_ten _)).mp (by omega)
  · intro hnot
    refine ⟨hreach, fun i hi => ?_⟩
    obtain ⟨j, rfl⟩ : ∃ j, e = j + 1 := ⟨e - 1, by omega⟩
    have hq : maxMantissa / 10 + 1 ≤ n / 10 ^ (j + 1) :=
      (Nat.le_div_iff_mul_le (pow_pos_ten _)).mpr (hnot j rfl)
    have hten : maxMantissa < n / 10 ^ (j + 1) * 10 := by omega
    rw [mul_pow_succ]
    calc maxMantissa * 10 ^ i ≤ maxMantissa * 10 ^ j :=
          Nat.mul_le_mul_left _ (Nat.pow_le_pow_right (by decide) (Nat.le_of_lt_succ hi))
      _ < n / 10 ^ (j + 1) * 10 * 10 ^ j := Nat.mul_lt_mul_of_pos_right hten (pow_pos_ten j)

/-- A number above the largest mantissa that rounds below it has the next exponent. -/
theorem LeastExponent.of_fallsBack (hmax : 10 ≤ maxMantissa) (hgt : maxMantissa * 10 ^ e < n)
    (hlt : n < (maxMantissa / 10 + 1) * 10 ^ (e + 1)) :
    LeastExponent maxMantissa n (e + 1) := by
  refine ⟨Nat.le_of_lt (Nat.lt_of_lt_of_le hlt (Nat.mul_le_mul_right _ (by omega))), ?_⟩
  intro i hi
  refine Nat.lt_of_le_of_lt ?_ hgt
  exact Nat.mul_le_mul_left _ (Nat.pow_le_pow_right (by decide) (Nat.le_of_lt_succ hi))

theorem fallsBack_iff (hmax : 10 ≤ maxMantissa) (hle : n ≤ maxMantissa * 10 ^ 31)
    (h : LeastExponent maxMantissa n e) :
    FallsBack maxMantissa n ↔ ∃ i, e = i + 1 ∧ n < (maxMantissa / 10 + 1) * 10 ^ (i + 1) := by
  constructor
  · rintro ⟨i, -, hgt, hlt⟩
    exact ⟨i, h.unique (LeastExponent.of_fallsBack hmax hgt hlt), hlt⟩
  · rintro ⟨i, rfl, hlt⟩
    have hgt := h.2 i (Nat.lt_succ_self i)
    refine ⟨i, Nat.lt_of_not_le fun hge => ?_, hgt, hlt⟩
    have hpow : 10 ^ 31 ≤ 10 ^ i := Nat.pow_le_pow_right (by decide) hge
    exact absurd hle (Nat.not_le.mpr (Nat.lt_of_le_of_lt (Nat.mul_le_mul_left _ hpow) hgt))

/-- A number that falls back has the mantissa that is left of the largest. -/
theorem div_of_fallsBack (hgt : maxMantissa * 10 ^ e < n)
    (hlt : n < (maxMantissa / 10 + 1) * 10 ^ (e + 1)) : n / 10 ^ (e + 1) = maxMantissa / 10 := by
  refine Nat.div_eq_of_lt_le ?_ hlt
  refine Nat.le_trans ?_ (Nat.le_of_lt hgt)
  rw [mul_pow_succ]
  exact Nat.mul_le_mul_right _ (Nat.div_mul_le_self _ _)

/-- A number that does not fall back is rounded to the greatest mantissa times a power that
is not above it. -/
theorem LeastExponent.greatest (h : LeastExponent maxMantissa n e)
    (hnot : ∀ i, e = i + 1 → (maxMantissa / 10 + 1) * 10 ^ (i + 1) ≤ n) {m i : Nat}
    (hm : m ≤ maxMantissa) (hle : m * 10 ^ i ≤ n) : m * 10 ^ i ≤ n / 10 ^ e * 10 ^ e := by
  by_cases hi : e ≤ i
  · -- A multiple of the power that is not above the number is not above the rounded one.
    obtain ⟨d, rfl⟩ := Nat.exists_eq_add_of_le hi
    have hsplit : m * 10 ^ (e + d) = m * 10 ^ d * 10 ^ e := by
      rw [Nat.pow_add]
      ring
    rw [hsplit] at hle ⊢
    exact Nat.mul_le_mul_right _ ((Nat.le_div_iff_mul_le (pow_pos_ten e)).mpr hle)
  · have hlt : i < e := Nat.lt_of_not_le hi
    have hagain := h.again_iff.mpr hnot
    refine Nat.le_of_lt (Nat.lt_of_le_of_lt ?_ (hagain.2 i hlt))
    exact Nat.mul_le_mul_right _ hm

end Rounding

/-- A smaller number is rounded to more exactly if the larger falls back and it does not. -/
theorem rounded_lt_iff {maxMantissa x y e i : Nat} (hmax : 10 ≤ maxMantissa)
    (hten : 10 * (maxMantissa / 10) < maxMantissa) (hxy : x ≤ y)
    (hy : y ≤ maxMantissa * 10 ^ 31) (hex : LeastExponent maxMantissa x e)
    (hey : LeastExponent maxMantissa y i) :
    y / 10 ^ i * 10 ^ i < x / 10 ^ e * 10 ^ e ↔ Overtakes maxMantissa x y := by
  constructor
  · intro hlt
    -- The larger number falls back: else it is rounded to the greatest value below it.
    have hback : ¬ ∀ j, i = j + 1 → (maxMantissa / 10 + 1) * 10 ^ (j + 1) ≤ y := by
      intro hnot
      have hle : x / 10 ^ e * 10 ^ e ≤ y := Nat.le_trans (Nat.div_mul_le_self _ _) hxy
      exact absurd (hey.greatest hnot hex.mantissa_le hle) (Nat.not_le.mpr hlt)
    obtain ⟨j, hj⟩ := not_forall.mp hback
    obtain ⟨rfl, hsmall⟩ := Classical.not_imp.mp hj
    have hsmall := Nat.lt_of_not_le hsmall
    have hgt := hey.2 j (Nat.lt_succ_self j)
    have hj31 : j < 31 := by
      refine Nat.lt_of_not_le fun hge => ?_
      have hpow : 10 ^ 31 ≤ 10 ^ j := Nat.pow_le_pow_right (by decide) hge
      exact absurd hy (Nat.not_le.mpr (Nat.lt_of_le_of_lt (Nat.mul_le_mul_left _ hpow) hgt))
    rw [div_of_fallsBack hgt hsmall, mul_pow_succ] at hlt
    -- The smaller one is above the multiples of ten and has the exponent before.
    have hxle : x ≤ maxMantissa * 10 ^ j := by
      refine Nat.le_of_not_lt fun hxgt => ?_
      have hxsmall := Nat.lt_of_le_of_lt hxy hsmall
      obtain rfl := hex.unique (LeastExponent.of_fallsBack hmax hxgt hxsmall)
      rw [div_of_fallsBack hxgt hxsmall, mul_pow_succ] at hlt
      exact absurd hlt (Nat.lt_irrefl _)
    have hej : e = j := by
      refine hex.unique ⟨hxle, fun k hk => ?_⟩
      refine Nat.lt_of_le_of_lt ?_ (Nat.lt_of_lt_of_le hlt (Nat.div_mul_le_self _ _))
      obtain ⟨l, rfl⟩ : ∃ l, j = l + 1 := ⟨j - 1, by omega⟩
      rw [mul_pow_succ]
      exact Nat.mul_le_mul (by omega)
        (Nat.pow_le_pow_right (by decide) (Nat.le_of_lt_succ hk))
    subst hej
    have hmant := Nat.lt_of_mul_lt_mul_right hlt
    refine ⟨e, hj31, ?_, hxle, hgt, hsmall⟩
    exact (Nat.le_div_iff_mul_le (pow_pos_ten e)).mp (by omega)
  · rintro ⟨j, -, hlow, hxle, hgt, hsmall⟩
    obtain rfl := hey.unique (LeastExponent.of_fallsBack hmax hgt hsmall)
    have hxj : LeastExponent maxMantissa x j := by
      refine ⟨hxle, fun k hk => Nat.lt_of_lt_of_le ?_ hlow⟩
      obtain ⟨l, rfl⟩ : ∃ l, j = l + 1 := ⟨j - 1, by omega⟩
      rw [mul_pow_succ]
      have hpow : 10 ^ k ≤ 10 ^ l := Nat.pow_le_pow_right (by decide) (Nat.le_of_lt_succ hk)
      exact Nat.lt_of_le_of_lt (Nat.mul_le_mul_left _ hpow)
        (Nat.mul_lt_mul_of_pos_right (by omega) (pow_pos_ten l))
    obtain rfl := hex.unique hxj
    rw [div_of_fallsBack hgt hsmall, mul_pow_succ]
    refine Nat.mul_lt_mul_of_pos_right ?_ (pow_pos_ten e)
    have hq := (Nat.le_div_iff_mul_le (pow_pos_ten e)).mpr hlow
    omega

/-! ## Packing twice -/

/-- `is_token_amount_packable` and `is_fee_amount_packable`, by the width of the mantissa. -/
def IsPackable (mantissaLen number : Nat) : Prop :=
  ∃ packed, pack number 5 mantissaLen = .ok packed ∧ unpack packed 5 mantissaLen = some number

/-- The functions for the closest packable amount, by the width of the mantissa. -/
def closestPackable (mantissaLen : Nat) (message : String) (number : Nat) : Outcome Nat := do
  let packed ← pack number 5 mantissaLen
  Outcome.expect (unpack packed 5 mantissaLen) message

/-- A mantissa times a power of ten, as there is room for in the packed form. -/
def IsDecimal (mantissaLen n : Nat) : Prop := ∃ m < 2 ^ mantissaLen, ∃ e < 32, n = m * 10 ^ e

theorem bitsLe_inj {a b len : Nat} (ha : a < 2 ^ len) (hb : b < 2 ^ len)
    (h : bitsLe a len = bitsLe b len) : a = b := by
  rw [← ofBitsLe_bitsLe ha, h, ofBitsLe_bitsLe hb]

/-- The bytes have the exponent and the mantissa in them. -/
theorem bytesOf_inj {exponentLen mantissaLen e e' m m' n : Nat}
    (hlen : exponentLen + mantissaLen = 8 * n) (he : e < 2 ^ exponentLen)
    (he' : e' < 2 ^ exponentLen) (hm : m < 2 ^ mantissaLen) (hm' : m' < 2 ^ mantissaLen)
    (h : bytesOf exponentLen mantissaLen e m = bytesOf exponentLen mantissaLen e' m') :
    e = e' ∧ m = m' := by
  have hbits : ∀ e m, (bitsLe e exponentLen ++ bitsLe m mantissaLen).reverse.length = 8 * n := by
    intro e m
    rw [List.length_reverse, List.length_append, length_bitsLe, length_bitsLe, hlen]
  have hback : fromBeBytes (bytesOf exponentLen mantissaLen e m) =
      fromBeBytes (bytesOf exponentLen mantissaLen e' m') := congrArg _ h
  unfold bytesOf at hback
  rw [fromBeBytes_intoBytesOrdered (hbits e m), fromBeBytes_intoBytesOrdered (hbits e' m')] at hback
  obtain ⟨hexp, hmant⟩ := List.append_inj (List.reverse_inj.mp hback)
    (by rw [length_bitsLe, length_bitsLe])
  exact ⟨bitsLe_inj he he' hexp, bitsLe_inj hm hm' hmant⟩

section Packable

variable {mantissaLen number n : Nat} {message : String}

variable (message) in
/-- What packing and unpacking makes of a number that is not too large. -/
theorem closestPackable_eq (hlen : 5 + mantissaLen = 8 * n) (h128 : number < u128Bound)
    (hle : number ≤ maxPackable mantissaLen) :
    ∃ e, LeastExponent (2 ^ mantissaLen - 1) number e ∧
      pack number 5 mantissaLen = .ok (bytesOf 5 mantissaLen e (number / 10 ^ e)) ∧
      unpack (bytesOf 5 mantissaLen e (number / 10 ^ e)) 5 mantissaLen =
        some (number / 10 ^ e * 10 ^ e) ∧
      closestPackable mantissaLen message number = .ok (number / 10 ^ e * 10 ^ e) := by
  obtain ⟨e, hleast, hpack⟩ := pack_eq hlen h128 hle
  have hunpack := unpack_pack hlen h128 hle hleast
  refine ⟨e, hleast, hpack, hunpack, ?_⟩
  unfold closestPackable
  rw [hpack, Outcome.ok_bind, hunpack]
  rfl

/-- A packed number was not too large. -/
theorem le_of_pack {bytes : Bytes} (h : pack number 5 mantissaLen = .ok bytes) :
    number ≤ maxPackable mantissaLen :=
  Nat.le_of_not_lt fun hlt => pack_ne_ok hlt h

/-- A number that is packed is a `u128`. -/
theorem lt_of_pack {bytes : Bytes} (h : pack number 5 mantissaLen = .ok bytes) :
    number < u128Bound := by
  unfold pack toU128 at h
  obtain ⟨uint, huint, -⟩ := Outcome.bind_eq_ok.mp h
  split at huint
  next h128 => exact h128
  next => cases huint

theorem le_of_decimal {m e : Nat} (hm : m < 2 ^ mantissaLen) (he : e < 32) :
    m * 10 ^ e ≤ maxPackable mantissaLen :=
  Nat.mul_le_mul (by omega) (Nat.pow_le_pow_right (by decide) (Nat.le_of_lt_succ he))

/-- A number comes back exactly if it is its mantissa times its power. -/
theorem isPackable_iff_eq (hlen : 5 + mantissaLen = 8 * n) (h128 : number < u128Bound)
    (hle : number ≤ maxPackable mantissaLen) {e : Nat}
    (hleast : LeastExponent (2 ^ mantissaLen - 1) number e) :
    IsPackable mantissaLen number ↔ number / 10 ^ e * 10 ^ e = number := by
  obtain ⟨e', hleast', hpack, hunpack, -⟩ := closestPackable_eq "" hlen h128 hle
  obtain rfl := hleast.unique hleast'
  constructor
  · rintro ⟨packed, hpacked, hback⟩
    obtain rfl := Except.ok.inj (hpack.symm.trans hpacked)
    exact Option.some.inj (hunpack.symm.trans hback)
  · intro heq
    exact ⟨_, hpack, by rw [hunpack, heq]⟩

/-- The packable numbers are the mantissas times the powers. -/
theorem packable_iff (hlen : 5 + mantissaLen = 8 * n) (h128 : number < u128Bound) :
    IsPackable mantissaLen number ↔ IsDecimal mantissaLen number := by
  have hpos : 0 < 2 ^ mantissaLen := Nat.pow_pos (by decide)
  constructor
  · intro h
    have hle := le_of_pack h.choose_spec.1
    obtain ⟨e, hleast, -⟩ := pack_eq hlen h128 hle
    have heq := (isPackable_iff_eq hlen h128 hle hleast).mp h
    have hm := hleast.mantissa_le
    exact ⟨number / 10 ^ e, by omega, e, hleast.lt_32 hle, heq.symm⟩
  · rintro ⟨m, hm, i, hi, rfl⟩
    have hle := le_of_decimal hm hi
    obtain ⟨e, hleast, -⟩ := pack_eq hlen h128 hle
    have hm' : m ≤ 2 ^ mantissaLen - 1 := by omega
    exact (isPackable_iff_eq hlen h128 hle hleast).mpr (hleast.decimal_eq hm')

/-- What comes back is packable and not above the number. -/
theorem repacked_le (hlen : 5 + mantissaLen = 8 * n) (h128 : number < u128Bound) {packed : Bytes}
    (hpack : pack number 5 mantissaLen = .ok packed) :
    ∃ value, unpack packed 5 mantissaLen = some value ∧ value ≤ number ∧
      IsPackable mantissaLen value := by
  have hle := le_of_pack hpack
  obtain ⟨e, hleast, hpack', hunpack, -⟩ := closestPackable_eq "" hlen h128 hle
  obtain rfl := Except.ok.inj (hpack'.symm.trans hpack)
  have hvalue : number / 10 ^ e * 10 ^ e ≤ number := Nat.div_mul_le_self _ _
  have hpos : 0 < 2 ^ mantissaLen := Nat.pow_pos (by decide)
  have hm := hleast.mantissa_le
  refine ⟨_, hunpack, hvalue, (packable_iff hlen (Nat.lt_of_le_of_lt hvalue h128)).mpr ?_⟩
  exact ⟨number / 10 ^ e, by omega, e, hleast.lt_32 hle, rfl⟩

/-- What comes back is packed to the same bytes, unless the number falls back. -/
theorem repack_iff (hlen : 5 + mantissaLen = 8 * n) (hmax : 10 ≤ 2 ^ mantissaLen - 1)
    (h128 : number < u128Bound) {packed : Bytes} {value : Nat}
    (hpack : pack number 5 mantissaLen = .ok packed)
    (hunpack : unpack packed 5 mantissaLen = some value) :
    pack value 5 mantissaLen = .ok packed ↔ ¬ FallsBack (2 ^ mantissaLen - 1) number := by
  have hle := le_of_pack hpack
  obtain ⟨e, hleast, hpack', hunpack', -⟩ := closestPackable_eq "" hlen h128 hle
  obtain rfl := Except.ok.inj (hpack'.symm.trans hpack)
  obtain rfl := Option.some.inj (hunpack'.symm.trans hunpack)
  have hvalue : number / 10 ^ e * 10 ^ e ≤ number := Nat.div_mul_le_self _ _
  have hpos : 0 < 2 ^ mantissaLen := Nat.pow_pos (by decide)
  obtain ⟨e', hleast', hpackValue⟩ := pack_eq hlen (Nat.lt_of_le_of_lt hvalue h128)
    (Nat.le_trans hvalue hle)
  have hagain : LeastExponent (2 ^ mantissaLen - 1) (number / 10 ^ e * 10 ^ e) e ↔
      ¬ FallsBack (2 ^ mantissaLen - 1) number := by
    rw [hleast.again_iff, fallsBack_iff hmax hle hleast]
    constructor
    · rintro h ⟨i, hi, hlt⟩
      exact absurd (h i hi) (Nat.not_le.mpr hlt)
    · exact fun h i hi => Nat.le_of_not_lt fun hlt => h ⟨i, hi, hlt⟩
  rw [← hagain, hpackValue]
  constructor
  · intro h
    have hm := hleast.mantissa_le
    have hm' := hleast'.mantissa_le
    obtain ⟨rfl, -⟩ := bytesOf_inj hlen (hleast'.lt_32 (Nat.le_trans hvalue hle))
      (hleast.lt_32 hle) (by omega) (by omega) (Except.ok.inj h)
    exact hleast'
  · intro h
    obtain rfl := hleast'.unique h
    rw [Nat.mul_div_cancel _ (pow_pos_ten e')]

theorem FallsBack.le_maxPackable (hmax : 10 ≤ 2 ^ mantissaLen - 1)
    (h : FallsBack (2 ^ mantissaLen - 1) number) : number ≤ maxPackable mantissaLen := by
  obtain ⟨e, he, -, hlt⟩ := h
  refine Nat.le_of_lt (Nat.lt_of_lt_of_le hlt ?_)
  exact Nat.mul_le_mul (by omega) (Nat.pow_le_pow_right (by decide) he)

/-- What comes back is the greatest packable number below, unless the number falls back. -/
theorem closest_isGreatest_iff (hlen : 5 + mantissaLen = 8 * n)
    (hmax : 10 ≤ 2 ^ mantissaLen - 1) (hten : 10 * ((2 ^ mantissaLen - 1) / 10) < 2 ^ mantissaLen - 1)
    (h128 : number < u128Bound) {value : Nat}
    (hclosest : closestPackable mantissaLen message number = .ok value)
    (hle : number ≤ maxPackable mantissaLen) :
    IsGreatest {v | IsPackable mantissaLen v ∧ v ≤ number} value ↔
      ¬ FallsBack (2 ^ mantissaLen - 1) number := by
  obtain ⟨e, hleast, hpack, -, hclosest'⟩ := closestPackable_eq message hlen h128 hle
  obtain rfl := Except.ok.inj (hclosest'.symm.trans hclosest)
  have hback := fallsBack_iff hmax hle hleast
  have hpos : 0 < 2 ^ mantissaLen := Nat.pow_pos (by decide)
  constructor
  · rintro ⟨-, hupper⟩ hfalls
    -- The largest mantissa at the exponent before is packable, and above the value.
    obtain ⟨i, rfl, hlt⟩ := hback.mp hfalls
    have hgt := hleast.2 i (Nat.lt_succ_self i)
    have hi : i < 32 := Nat.lt_trans (Nat.lt_succ_self i) (hleast.lt_32 hle)
    have hpackable : IsPackable mantissaLen ((2 ^ mantissaLen - 1) * 10 ^ i) :=
      (packable_iff hlen (Nat.lt_trans hgt h128)).mpr
        ⟨2 ^ mantissaLen - 1, by omega, i, hi, rfl⟩
    have hbound := hupper ⟨hpackable, Nat.le_of_lt hgt⟩
    rw [div_of_fallsBack hgt hlt, mul_pow_succ, Nat.mul_comm _ 10] at hbound
    exact absurd (Nat.le_of_mul_le_mul_right hbound (pow_pos_ten i)) (Nat.not_le.mpr hten)
  · intro hnot
    obtain ⟨value, hvalue, hle', hpackable⟩ := repacked_le hlen h128 hpack
    have hunpack := unpack_pack hlen h128 hle hleast
    obtain rfl := Option.some.inj (hunpack.symm.trans hvalue)
    refine ⟨⟨hpackable, hle'⟩, ?_⟩
    rintro v ⟨hv, hvle⟩
    obtain ⟨m, hm, i, -, rfl⟩ := (packable_iff hlen (Nat.lt_of_le_of_lt hvle h128)).mp hv
    refine hleast.greatest (fun j hj => Nat.le_of_not_lt fun hlt => ?_)
      (Nat.le_sub_one_of_lt hm) hvle
    exact hnot (hback.mpr ⟨j, hj, hlt⟩)

end Packable

end FloatConversions

/-! ## Amounts and fees -/

/-- `closest_packable_token_amount`. -/
def closestPackableTokenAmount : Nat → Outcome Nat :=
  FloatConversions.closestPackable 35 "token amount repacking"

/-- `closest_packable_fee_amount`. -/
def closestPackableFeeAmount : Nat → Outcome Nat :=
  FloatConversions.closestPackable 11 "fee repacking"

open FloatConversions

/-- Packing a number is exact: it is packable exactly if it is a mantissa times a power,
then it comes back, and what comes back of any number is not above it and is packed to the
same bytes. -/
structure PacksExactly (mantissaLen : Nat) (pack : Nat → Outcome Bytes)
    (unpack : Bytes → Option Nat) (isPackable : Nat → Prop) (x : Nat) : Prop where
  packable : isPackable x ↔ IsDecimal mantissaLen x
  exact : IsDecimal mantissaLen x → ∃ packed, pack x = .ok packed ∧ unpack packed = some x
  rounded : ∀ packed, pack x = .ok packed →
    ∃ value, unpack packed = some value ∧ value ≤ x ∧ pack value = .ok packed

/-- The closest packable number of a number that is packed is the greatest packable number
not above it. -/
def ClosestIsGreatest (pack : Nat → Outcome Bytes) (closest : Nat → Outcome Nat)
    (isPackable : Nat → Prop) (x : Nat) : Prop :=
  ∀ packed, pack x = .ok packed →
    ∃ value, closest x = .ok value ∧ IsGreatest {v | isPackable v ∧ v ≤ x} value

/-- The closest packable numbers of two numbers that are packed are in order. -/
def ClosestInOrder (pack : Nat → Outcome Bytes) (closest : Nat → Outcome Nat) (x y : Nat) : Prop :=
  ∀ packedX packedY, pack x = .ok packedX → pack y = .ok packedY →
    ∃ valueX valueY, closest x = .ok valueX ∧ closest y = .ok valueY ∧ valueX ≤ valueY

section Widths

variable {mantissaLen n : Nat} {message : String}

theorem packsExactly_iff (hlen : 5 + mantissaLen = 8 * n) (hmax : 10 ≤ 2 ^ mantissaLen - 1)
    {x : Nat} (h128 : x < u128Bound) :
    PacksExactly mantissaLen (pack · 5 mantissaLen) (unpack · 5 mantissaLen)
      (IsPackable mantissaLen) x ↔ ¬ FallsBack (2 ^ mantissaLen - 1) x := by
  constructor
  · intro h hfalls
    obtain ⟨e, -, hpack, -⟩ := closestPackable_eq "" hlen h128
      (hfalls.le_maxPackable hmax)
    obtain ⟨value, hunpack, -, hrepack⟩ := h.rounded _ hpack
    exact (repack_iff hlen hmax h128 hpack hunpack).mp hrepack hfalls
  · intro hnot
    have hiff := packable_iff hlen h128
    refine ⟨hiff, hiff.mpr, fun packed hpack => ?_⟩
    obtain ⟨value, hunpack, hle, -⟩ := repacked_le hlen h128 hpack
    exact ⟨value, hunpack, hle, (repack_iff hlen hmax h128 hpack hunpack).mpr hnot⟩

theorem closestIsGreatest_iff (hlen : 5 + mantissaLen = 8 * n) (hmax : 10 ≤ 2 ^ mantissaLen - 1)
    (hten : 10 * ((2 ^ mantissaLen - 1) / 10) < 2 ^ mantissaLen - 1) {x : Nat}
    (h128 : x < u128Bound) :
    ClosestIsGreatest (pack · 5 mantissaLen) (closestPackable mantissaLen message)
      (IsPackable mantissaLen) x ↔ ¬ FallsBack (2 ^ mantissaLen - 1) x := by
  constructor
  · intro h hfalls
    have hle := hfalls.le_maxPackable hmax
    obtain ⟨e, -, hpack, -⟩ := closestPackable_eq message hlen h128 hle
    obtain ⟨value, hclosest, hgreatest⟩ := h _ hpack
    exact (closest_isGreatest_iff hlen hmax hten h128 hclosest hle).mp hgreatest hfalls
  · intro hnot packed hpack
    have hle := le_of_pack hpack
    obtain ⟨e, -, -, -, hclosest⟩ := closestPackable_eq message hlen h128 hle
    exact ⟨_, hclosest, (closest_isGreatest_iff hlen hmax hten h128 hclosest hle).mpr hnot⟩

theorem closestInOrder_iff (hlen : 5 + mantissaLen = 8 * n) (hmax : 10 ≤ 2 ^ mantissaLen - 1)
    (hten : 10 * ((2 ^ mantissaLen - 1) / 10) < 2 ^ mantissaLen - 1) {x y : Nat} (hxy : x ≤ y)
    (h128 : y < u128Bound) :
    ClosestInOrder (pack · 5 mantissaLen) (closestPackable mantissaLen message) x y ↔
      ¬ Overtakes (2 ^ mantissaLen - 1) x y := by
  have h128x := Nat.lt_of_le_of_lt hxy h128
  constructor
  · intro h hover
    have hley : y ≤ maxPackable mantissaLen := by
      obtain ⟨e, he, -, -, hgt, hlt⟩ := hover
      exact FallsBack.le_maxPackable hmax ⟨e, he, hgt, hlt⟩
    obtain ⟨e, hleast, hpack, -, hclosest⟩ := closestPackable_eq message hlen h128x
      (Nat.le_trans hxy hley)
    obtain ⟨i, hleast', hpack', -, hclosest'⟩ := closestPackable_eq message hlen h128
      hley
    obtain ⟨v, w, hv, hw, hle⟩ := h _ _ hpack hpack'
    obtain rfl := Except.ok.inj (hclosest.symm.trans hv)
    obtain rfl := Except.ok.inj (hclosest'.symm.trans hw)
    exact absurd ((rounded_lt_iff hmax hten hxy hley hleast hleast').mpr hover)
      (Nat.not_lt.mpr hle)
  · intro hnot packedX packedY hpackX hpackY
    have hley := le_of_pack hpackY
    obtain ⟨e, hleast, -, -, hclosest⟩ := closestPackable_eq message hlen h128x
      (le_of_pack hpackX)
    obtain ⟨i, hleast', -, -, hclosest'⟩ := closestPackable_eq message hlen h128 hley
    refine ⟨_, _, hclosest, hclosest', Nat.le_of_not_lt fun hlt => ?_⟩
    exact hnot ((rounded_lt_iff hmax hten hxy hley hleast hleast').mp hlt)

end Widths

/-- Packing is exact for every number that does not fall back. -/
theorem packing_exact_iff {x : Nat} (h : x < u128Bound) :
    (PacksExactly 35 packTokenAmount unpackTokenAmount IsTokenAmountPackable x ↔
      ¬ FallsBack (2 ^ 35 - 1) x) ∧
    (PacksExactly 11 packFeeAmount unpackFeeAmount IsFeeAmountPackable x ↔
      ¬ FallsBack (2 ^ 11 - 1) x) :=
  ⟨packsExactly_iff (n := 5) rfl (by decide) h, packsExactly_iff (n := 2) rfl (by decide) h⟩

theorem packing_exact_iff_max :
    PacksExactly 35 packTokenAmount unpackTokenAmount IsTokenAmountPackable (2 ^ 35 - 1) ↔
      ¬ FallsBack (2 ^ 35 - 1) (2 ^ 35 - 1) :=
  (packing_exact_iff (x := 2 ^ 35 - 1) (by decide)).1

/-- An amount between the largest mantissa and the next multiple of a hundred: packed, it is
worth less than the amount that its bytes stand for. -/
theorem fallsBack_sample : FallsBack (2 ^ 35 - 1) 343597383675 :=
  ⟨1, by decide, by decide, by decide⟩

theorem repacks_otherwise :
    ¬ PacksExactly 35 packTokenAmount unpackTokenAmount IsTokenAmountPackable 343597383675 :=
  fun h => (packsExactly_iff (n := 5) rfl (by decide) (by decide)).mp h fallsBack_sample

/-- The closest packable amount and fee are the greatest below and monotone for the numbers
that do not fall back. -/
theorem closest_packable_iff {x y : Nat} (hxy : x ≤ y) (h : y < u128Bound) :
    (ClosestIsGreatest packTokenAmount closestPackableTokenAmount IsTokenAmountPackable x ↔
      ¬ FallsBack (2 ^ 35 - 1) x) ∧
    (ClosestIsGreatest packFeeAmount closestPackableFeeAmount IsFeeAmountPackable x ↔
      ¬ FallsBack (2 ^ 11 - 1) x) ∧
    (ClosestInOrder packTokenAmount closestPackableTokenAmount x y ↔
      ¬ Overtakes (2 ^ 35 - 1) x y) ∧
    (ClosestInOrder packFeeAmount closestPackableFeeAmount x y ↔
      ¬ Overtakes (2 ^ 11 - 1) x y) :=
  have hx := Nat.lt_of_le_of_lt hxy h
  ⟨closestIsGreatest_iff (n := 5) rfl (by decide) (by decide) hx,
    closestIsGreatest_iff (n := 2) rfl (by decide) (by decide) hx,
    closestInOrder_iff (n := 5) rfl (by decide) (by decide) hxy h,
    closestInOrder_iff (n := 2) rfl (by decide) (by decide) hxy h⟩

theorem closest_packable_iff_small :
    ClosestInOrder packFeeAmount closestPackableFeeAmount 7 2047 ↔
      ¬ Overtakes (2 ^ 11 - 1) 7 2047 :=
  (closest_packable_iff (x := 7) (y := 2047) (by decide) (by decide)).2.2.2

theorem closest_not_greatest :
    ¬ ClosestIsGreatest packTokenAmount closestPackableTokenAmount IsTokenAmountPackable
        343597383675 ∧
      ¬ ClosestInOrder packTokenAmount closestPackableTokenAmount 343597383670 343597383675 := by
  constructor
  · intro h
    exact (closestIsGreatest_iff (n := 5) rfl (by decide) (by decide) (by decide)).mp h
      fallsBack_sample
  · intro h
    exact (closestInOrder_iff (n := 5) rfl (by decide) (by decide) (by decide) (by decide)).mp h
      ⟨1, by decide, by decide, by decide, by decide, by decide⟩

end ZkSync
