import ZkSync.Lib.Bytes
import ZkSync.Lib.Outcome

/-!
# Packed amounts

`FloatConversions` of `zksync_crypto::primitives`: amounts and fees are written as
decimal floating-point numbers, a mantissa and an exponent of the base 10 in 5 or
2 bytes. Packing rounds down; an amount is *packable* if unpacking gives it back,
and only such amounts are accepted in transactions.

A codec needs two things of a packed amount: its length (`length_packTokenAmount`,
`length_packFeeAmount`) and, for packable amounts, the round trip, which is what
packable means.
-/

namespace ZkSync

/-- The first number that is no `u128`. -/
def u128Bound : Nat := 2 ^ 128

/-- `BigUint::to_u128`. -/
def toU128 (n : Nat) : Option Nat := if n < u128Bound then some n else none

namespace FloatConversions

/-! ## Packing -/

def saturatingMul (a b : Nat) : Nat := min (a * b) (u128Bound - 1)

/-- The exponent base. -/
def base : Nat := 10

/-- The loop that counts how often the base divides the guess. -/
def exponentOf (exponentTemp : Nat) : Nat :=
  if exponentTemp < base then 0 else exponentOf (exponentTemp / base) + 1
  termination_by exponentTemp
  decreasing_by
    unfold base at *
    omega

/-- The exponent and the mantissa that `to_float` chooses. -/
def exponentAndMantissa (integer maxMantissa : Nat) : Nat × Nat :=
  if integer > maxMantissa then
    let exponent := exponentOf (integer / maxMantissa)
    let exponentTemp := base ^ exponent
    if exponentTemp * maxMantissa < integer then
      (exponent + 1, integer / (exponentTemp * base))
    else (exponent, integer / exponentTemp)
  else (0, integer)

def bitsLe (n len : Nat) : List Bool := (List.range len).map fun i => n.testBit i

/-- `to_float`: the bits of the exponent, then those of the mantissa, lowest first. -/
def toFloat (integer exponentLength mantissaLength : Nat) : Outcome (List Bool) := do
  let maxPower := 2 ^ exponentLength - 1
  let maxExponent := (List.range maxPower).foldl (fun acc _ => saturatingMul acc base) 1
  let maxMantissa := 2 ^ mantissaLength - 1
  if integer > saturatingMul maxMantissa maxExponent then Outcome.bail "Integer is too big"
  let (exponent, mantissa) := exponentAndMantissa integer maxMantissa
  return bitsLe exponent exponentLength ++ bitsLe mantissa mantissaLength

/-- A byte from its bits, highest first. -/
def byteOfBits (bits : List Bool) : UInt8 :=
  bits.foldl (fun byte bit => byte <<< 1 ||| bit.toUInt8) 0

/-- `into_bytes_ordered`, over full chunks of eight bits. -/
def intoBytesOrdered : List Bool → Bytes
  | b₇ :: b₆ :: b₅ :: b₄ :: b₃ :: b₂ :: b₁ :: b₀ :: bits =>
    byteOfBits [b₇, b₆, b₅, b₄, b₃, b₂, b₁, b₀] :: intoBytesOrdered bits
  | _ => []

def pack (number exponentLen mantissaLen : Nat) : Outcome Bytes := do
  let uint ← Outcome.expect (toU128 number) "Only u128 allowed"
  match toFloat uint exponentLen mantissaLen with
  | .error _ => throw (.panic "packing error")
  | .ok vec =>
    Outcome.assert (vec.length % 8 = 0) "assertion failed: bits.len() % 8"
    return intoBytesOrdered vec.reverse

/-! ## Unpacking -/

/-- `from_be_bytes`: the bits of each byte, highest first. -/
def fromBeBytes (bytes : Bytes) : List Bool :=
  bytes.flatMap fun byte => (List.range 8).map fun i => byte.toNat.testBit (7 - i)

/-- The bits of a number, highest first, added up with `checked_add`. -/
def checkedSum (bound : Nat) (bits : List Bool) : Option Nat :=
  bits.reverse.zipIdx.foldlM (fun acc (bit, i) =>
    if bit then if acc + 2 ^ i < bound then some (acc + 2 ^ i) else none else some acc) 0

def unpack (data : Bytes) (exponentLen mantissaLen : Nat) : Option Nat := do
  if exponentLen + mantissaLen ≠ data.length * 8 then none
  let bits := fromBeBytes data
  let mantissa ← checkedSum u128Bound (bits.take mantissaLen)
  let exponentPow ← checkedSum (2 ^ 32) ((bits.drop mantissaLen).take exponentLen)
  let exponent ← toU128 (10 ^ exponentPow)
  toU128 (mantissa * exponent)

/-! ## The length of a packed number -/

theorem length_bitsLe (n len : Nat) : (bitsLe n len).length = len := by
  rw [bitsLe, List.length_map, List.length_range]

theorem length_toFloat {integer exponentLength mantissaLength : Nat} {bits : List Bool}
    (h : toFloat integer exponentLength mantissaLength = .ok bits) :
    bits.length = exponentLength + mantissaLength := by
  unfold toFloat at h
  dsimp only at h
  split at h
  next => cases h
  next =>
    cases h
    rw [List.length_append, length_bitsLe, length_bitsLe]

theorem length_intoBytesOrdered {bits : List Bool} {n : Nat} (h : bits.length = 8 * n) :
    (intoBytesOrdered bits).length = n := by
  fun_induction intoBytesOrdered bits generalizing n with
  | case1 b₇ b₆ b₅ b₄ b₃ b₂ b₁ b₀ bits ih =>
    simp only [List.length_cons] at h
    rw [List.length_cons, ih (n := n - 1) (by omega)]
    omega
  | case2 bits hshort =>
    -- Fewer than eight bits: none, as their number is a multiple of eight.
    match bits with
    | [] => simp at h ⊢; omega
    | _ :: [] | _ :: _ :: [] | _ :: _ :: _ :: [] | _ :: _ :: _ :: _ :: []
    | _ :: _ :: _ :: _ :: _ :: [] | _ :: _ :: _ :: _ :: _ :: _ :: []
    | _ :: _ :: _ :: _ :: _ :: _ :: _ :: [] => simp only [List.length_cons, List.length_nil] at h; omega
    | b₇ :: b₆ :: b₅ :: b₄ :: b₃ :: b₂ :: b₁ :: b₀ :: bits =>
      exact absurd rfl (hshort b₇ b₆ b₅ b₄ b₃ b₂ b₁ b₀ bits)

theorem length_pack {number exponentLen mantissaLen n : Nat} {bytes : Bytes}
    (h : pack number exponentLen mantissaLen = .ok bytes)
    (hn : exponentLen + mantissaLen = 8 * n) : bytes.length = n := by
  unfold pack at h
  obtain ⟨uint, -, h⟩ := Outcome.bind_eq_ok.mp h
  split at h
  next => cases h
  next vec hvec =>
    obtain ⟨-, -, h⟩ := Outcome.bind_eq_ok.mp h
    cases h
    apply length_intoBytesOrdered
    rw [List.length_reverse, length_toFloat hvec, hn]

end FloatConversions

/-! ## Amounts and fees -/

def packTokenAmount (amount : Nat) : Outcome Bytes := FloatConversions.pack amount 5 35

def packFeeAmount (amount : Nat) : Outcome Bytes := FloatConversions.pack amount 5 11

def unpackTokenAmount (data : Bytes) : Option Nat := FloatConversions.unpack data 5 35

def unpackFeeAmount (data : Bytes) : Option Nat := FloatConversions.unpack data 5 11

/-- `is_token_amount_packable`: the amount is packed without a panic, and unpacked again. -/
def IsTokenAmountPackable (amount : Nat) : Prop :=
  ∃ packed, packTokenAmount amount = .ok packed ∧ unpackTokenAmount packed = some amount

/-- `is_fee_amount_packable`. -/
def IsFeeAmountPackable (amount : Nat) : Prop :=
  ∃ packed, packFeeAmount amount = .ok packed ∧ unpackFeeAmount packed = some amount

set_option maxRecDepth 2000 in
theorem packable_five : IsFeeAmountPackable 5 := ⟨[0, 0xa0], rfl, by decide⟩

set_option maxRecDepth 2000 in
theorem packable_zero : IsFeeAmountPackable 0 := ⟨[0, 0], rfl, by decide⟩

theorem length_packTokenAmount {amount : Nat} {packed : Bytes}
    (h : packTokenAmount amount = .ok packed) : packed.length = 5 :=
  FloatConversions.length_pack h rfl

theorem length_packFeeAmount {amount : Nat} {packed : Bytes}
    (h : packFeeAmount amount = .ok packed) : packed.length = 2 :=
  FloatConversions.length_pack h rfl

end ZkSync
