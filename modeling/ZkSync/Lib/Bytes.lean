import Mathlib.Algebra.Order.Ring.Nat
import Mathlib.Data.List.Induction
import Mathlib.Tactic.Ring

/-!
# Byte strings and big-endian numbers

A codec writes numbers of fixed width one after the other and reads them back at
fixed offsets. Here a byte string is a list of bytes, and:

* `toBytesBE len n` writes the `len` low bytes of `n`, most significant first,
  and `ofBytesBE` reads a byte string as a number. Each undoes the other, up to
  the truncation (`ofBytesBE_toBytesBE`, `toBytesBE_ofBytesBE`).
* `slice bs start len` are the `len` bytes from `start` on. `slice_append_skip`
  steps over a field and `slice_append_here` reads one, so a reader at
  hand-computed offsets is checked against a concatenation of fields by
  rewriting, with the lengths as side conditions.
* `At bs offset field` says the same of a field in the middle of a string; `At.append`
  takes a concatenation of fields apart.
* `utf8` and `hexEncode` are the bytes of a text and the digits of bytes.

Nothing here names the rollup.
-/

/-- Bytes, the first one first. -/
abbrev Bytes := List UInt8

namespace Bytes

/-! ## Big-endian numbers -/

/-- The number with the given digits to the base 256, most significant first. -/
def ofBytesBE (bs : Bytes) : Nat := bs.foldl (fun n b => n * 256 + b.toNat) 0

/-- The `len` low bytes of a number, most significant first. -/
def toBytesBE : Nat → Nat → Bytes
  | 0, _ => []
  | len + 1, n => toBytesBE len (n / 256) ++ [UInt8.ofNat n]

@[simp]
theorem length_toBytesBE (len n : Nat) : (toBytesBE len n).length = len := by
  induction len generalizing n with
  | zero => rfl
  | succ len ih => rw [toBytesBE, List.length_append, ih, List.length_singleton]

theorem ofBytesBE_foldl (bs : Bytes) (n : Nat) :
    bs.foldl (fun n b => n * 256 + b.toNat) n = n * 256 ^ bs.length + ofBytesBE bs := by
  induction bs generalizing n with
  | nil => rw [List.length_nil, pow_zero, mul_one]; rfl
  | cons b bs ih =>
    unfold ofBytesBE
    rw [List.foldl_cons, List.foldl_cons, ih, ih (0 * 256 + b.toNat), List.length_cons, pow_succ]
    ring

/-- The bytes in front weigh more. -/
theorem ofBytesBE_append (bs bs' : Bytes) :
    ofBytesBE (bs ++ bs') = ofBytesBE bs * 256 ^ bs'.length + ofBytesBE bs' := by
  rw [ofBytesBE, List.foldl_append, ofBytesBE_foldl]
  rfl

theorem ofBytesBE_singleton (b : UInt8) : ofBytesBE [b] = b.toNat := by
  show 0 * 256 + b.toNat = b.toNat
  omega

/-- Some bytes write a number below the power of their count. -/
theorem ofBytesBE_lt (bs : Bytes) : ofBytesBE bs < 256 ^ bs.length := by
  induction bs using List.reverseRecOn with
  | nil => exact Nat.one_pos
  | append_singleton bs b ih =>
    have hb : b.toNat < 256 := b.toNat_lt
    rw [ofBytesBE_append, ofBytesBE_singleton, List.length_append, List.length_singleton,
      pow_one, pow_succ]
    omega

/-- Reading back what was written gives the number, truncated to the width. -/
theorem ofBytesBE_toBytesBE (len n : Nat) : ofBytesBE (toBytesBE len n) = n % 256 ^ len := by
  induction len generalizing n with
  | zero => rw [pow_zero, Nat.mod_one]; rfl
  | succ len ih =>
    have hlow : (UInt8.ofNat n).toNat = n % 256 := UInt8.toNat_ofNat'
    rw [toBytesBE, ofBytesBE_append, ih, ofBytesBE_singleton, hlow, List.length_singleton,
      pow_one, pow_succ, mul_comm (256 ^ len) 256, Nat.mod_mul]
    ring

/-- A number that fits its bytes is read back. -/
theorem ofBytesBE_toBytesBE_of_lt {len n : Nat} (h : n < 256 ^ len) :
    ofBytesBE (toBytesBE len n) = n := by
  rw [ofBytesBE_toBytesBE, Nat.mod_eq_of_lt h]

/-- Writing what was read gives the bytes back. -/
theorem toBytesBE_ofBytesBE (bs : Bytes) : toBytesBE bs.length (ofBytesBE bs) = bs := by
  induction bs using List.reverseRecOn with
  | nil => rfl
  | append_singleton bs b ih =>
    have hb : b.toNat < 256 := b.toNat_lt
    have hhigh : (ofBytesBE bs * 256 + b.toNat) / 256 = ofBytesBE bs := by omega
    have hlow : UInt8.ofNat (ofBytesBE bs * 256 + b.toNat) = b := by
      apply UInt8.toNat_inj.mp
      rw [UInt8.toNat_ofNat']
      omega
    rw [ofBytesBE_append, ofBytesBE_singleton, List.length_append, List.length_singleton,
      pow_one, toBytesBE, hhigh, hlow, ih]

/-- Numbers that fit have different bytes. -/
theorem toBytesBE_inj {len n n' : Nat} (h : n < 256 ^ len) (h' : n' < 256 ^ len) :
    toBytesBE len n = toBytesBE len n' ↔ n = n' := by
  constructor
  · intro heq
    rw [← ofBytesBE_toBytesBE_of_lt h, heq, ofBytesBE_toBytesBE_of_lt h']
  · rintro rfl
    rfl

/-- The first bytes of a number are those of its quotient. -/
theorem toBytesBE_add (len len' n : Nat) :
    toBytesBE (len + len') n = toBytesBE len (n / 256 ^ len') ++ toBytesBE len' n := by
  induction len' generalizing n with
  | zero => rw [pow_zero, Nat.div_one, toBytesBE, List.append_nil]; rfl
  | succ len' ih =>
    have hdiv : n / 256 / 256 ^ len' = n / 256 ^ (len' + 1) := by
      rw [Nat.div_div_eq_div_mul, pow_succ, mul_comm 256]
    rw [← Nat.add_assoc, toBytesBE, ih, hdiv, toBytesBE, List.append_assoc]

/-- Only the low bytes are written. -/
theorem toBytesBE_mod (len n : Nat) : toBytesBE len (n % 256 ^ len) = toBytesBE len n := by
  have h := toBytesBE_ofBytesBE (toBytesBE len n)
  rwa [length_toBytesBE, ofBytesBE_toBytesBE] at h

theorem toBytesBE_zero (len : Nat) : toBytesBE len 0 = List.replicate len 0 := by
  induction len with
  | zero => rfl
  | succ len ih => rw [toBytesBE, Nat.zero_div, ih, List.replicate_succ']; rfl

/-! ## Slices -/

/-- The `len` bytes from `start` on, fewer at the end of the string. -/
def slice (bs : Bytes) (start len : Nat) : Bytes := (bs.drop start).take len

/-- A slice within the bytes has its length. -/
theorem length_slice {bs : Bytes} {start len : Nat} (h : start + len ≤ bs.length) :
    (slice bs start len).length = len := by
  rw [slice, List.length_take, List.length_drop]
  omega

/-- A slice behind the first byte does not see it. -/
@[simp]
theorem slice_cons {b : UInt8} {bs : Bytes} {start : Nat} (h : 0 < start) (len : Nat) :
    slice (b :: bs) start len = slice bs (start - 1) len := by
  cases start with
  | zero => cases h
  | succ start => rfl

/-- A slice behind a field does not see it. -/
@[simp]
theorem slice_append_skip {bs rest : Bytes} {start : Nat} (h : bs.length ≤ start) (len : Nat) :
    slice (bs ++ rest) start len = slice rest (start - bs.length) len := by
  rw [slice, List.drop_append, List.drop_of_length_le h, List.nil_append, slice]

/-- A slice as long as the first field reads it. -/
@[simp]
theorem slice_append_here {bs rest : Bytes} {len : Nat} (h : bs.length = len) :
    slice (bs ++ rest) 0 len = bs := by
  rw [slice, List.drop_zero, ← h, List.take_left]

@[simp]
theorem slice_all {bs : Bytes} {len : Nat} (h : bs.length = len) : slice bs 0 len = bs := by
  rw [slice, List.drop_zero, List.take_of_length_le h.le]

/-- A slice within the first part does not see the rest. -/
theorem slice_append_within {bs rest : Bytes} {start len : Nat} (h : start + len ≤ bs.length) :
    slice (bs ++ rest) start len = slice bs start len := by
  rw [slice, List.drop_append_of_le_length (by omega),
    List.take_append_of_le_length (by rw [List.length_drop]; omega), slice]

/-- Two slices in a row are one. -/
theorem slice_add (bs : Bytes) (start len len' : Nat) :
    slice bs start (len + len') = slice bs start len ++ slice bs (start + len) len' := by
  rw [slice, List.take_add, List.drop_drop, slice, slice]

/-! ## Fields -/

/-- The bytes `field` stand at `offset`. -/
def At (bs : Bytes) (offset : Nat) (field : Bytes) : Prop :=
  ∃ front rest, bs = front ++ (field ++ rest) ∧ front.length = offset

namespace At

variable {bs field field' : Bytes} {offset : Nat}

/-- A field lies within the bytes. -/
theorem le (h : At bs offset field) : offset + field.length ≤ bs.length := by
  obtain ⟨front, rest, rfl, rfl⟩ := h
  rw [List.length_append, List.length_append]
  omega

/-- It is the slice at its place. -/
theorem slice_eq (h : At bs offset field) {len : Nat} (hlen : field.length = len) :
    slice bs offset len = field := by
  obtain ⟨front, rest, rfl, rfl⟩ := h
  rw [slice_append_skip le_rfl, Nat.sub_self, slice_append_here hlen]

/-- A field of two parts: the parts stand one behind the other. -/
theorem append (h : At bs offset (field ++ field')) {len : Nat} (hlen : field.length = len) :
    At bs offset field ∧ At bs (offset + len) field' := by
  obtain ⟨front, rest, rfl, rfl⟩ := h
  refine ⟨⟨front, field' ++ rest, ?_, rfl⟩, ⟨front ++ field, rest, ?_, ?_⟩⟩
  · rw [List.append_assoc]
  · simp only [List.append_assoc]
  · rw [List.length_append, hlen]

theorem here (front field rest : Bytes) : At (front ++ (field ++ rest)) front.length field :=
  ⟨front, rest, rfl, rfl⟩

theorem all (bs : Bytes) : At bs 0 bs := ⟨[], [], (List.append_nil bs).symm, rfl⟩

end At

/-! ## Text -/

/-- The UTF-8 encoding of a text. -/
def utf8 (text : List Char) : Bytes := text.flatMap String.utf8EncodeChar

theorem utf8_append (text text' : List Char) : utf8 (text ++ text') = utf8 text ++ utf8 text' :=
  List.flatMap_append

/-- The digit of a number below sixteen. -/
def hexDigit (n : Nat) : Char := "0123456789abcdef".toList.getD n '0'

/-- Two lower-case hexadecimal digits a byte, the high half first. -/
def hexEncode (bs : Bytes) : List Char :=
  bs.flatMap fun b => [hexDigit (b.toNat / 16), hexDigit (b.toNat % 16)]

theorem hexEncode_cons (b : UInt8) (bs : Bytes) :
    hexEncode (b :: bs) = hexDigit (b.toNat / 16) :: hexDigit (b.toNat % 16) :: hexEncode bs :=
  rfl

@[simp]
theorem length_hexEncode (bs : Bytes) : (hexEncode bs).length = 2 * bs.length := by
  induction bs with
  | nil => rfl
  | cons b bs ih =>
    rw [hexEncode_cons, List.length_cons, List.length_cons, ih, List.length_cons]
    omega

/-- A hexadecimal digit is one byte in UTF-8. -/
theorem length_utf8_hexEncode (bs : Bytes) : (utf8 (hexEncode bs)).length = 2 * bs.length := by
  have hdigit : ∀ n < 16, (String.utf8EncodeChar (hexDigit n)).length = 1 := by decide
  induction bs with
  | nil => rfl
  | cons b bs ih =>
    have hb : b.toNat < 256 := b.toNat_lt
    have hhigh := hdigit (b.toNat / 16) (by omega)
    have hlow := hdigit (b.toNat % 16) (by omega)
    unfold utf8 at ih ⊢
    rw [hexEncode_cons, List.flatMap_cons, List.flatMap_cons, List.length_append,
      List.length_append, hhigh, hlow, ih, List.length_cons]
    omega

/-- The digits are lower case. -/
theorem toLower_hexEncode (bs : Bytes) : (hexEncode bs).map Char.toLower = hexEncode bs := by
  have hdigit : ∀ n < 16, (hexDigit n).toLower = hexDigit n := by decide
  induction bs with
  | nil => rfl
  | cons b bs ih =>
    have hb : b.toNat < 256 := b.toNat_lt
    rw [hexEncode_cons, List.map_cons, List.map_cons, hdigit _ (by omega), hdigit _ (by omega), ih]

end Bytes
