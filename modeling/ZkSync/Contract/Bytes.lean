import ZkSync.Lib.Bytes
import ZkSync.Lib.Outcome
import ZkSync.Types.Account

/-!
# `Bytes.sol`

The contract reads numbers out of byte arrays with one `mload` of the 32-byte
word that ends (or, for `bytes20`, begins) where the number does, and lets the
type of the result truncate the word. In memory an array is its length, as one
word, followed by its bytes; `mload` and `mstore` are modelled on that layout, and
the lemmas below say which bytes of the array each reader returns.

A call that reverts is an `Except.error` with the reason. Offsets are natural
numbers: the `NOTE`s of the source about overflowing offsets concern arrays of
nearly `2 ^ 256` bytes.
-/

namespace ZkSync.Contract

open Bytes (ofBytesBE toBytesBE slice)

/-- A Solidity call: its result, or the reason it reverted with. -/
abbrev Sol (α : Type) := Except String α

/-- A requirement that fails reverts the call with its reason. -/
def require (p : Prop) [Decidable p] (reason : String) : Sol Unit :=
  if p then .ok () else .error reason

/-- A requirement passes exactly if its condition holds. -/
@[simp]
theorem require_eq_ok {p : Prop} [Decidable p] {reason : String} {u : Unit} :
    require p reason = .ok u ↔ p := by
  unfold require
  split
  next h => exact ⟨fun _ => h, fun _ => rfl⟩
  next h => exact ⟨fun h' => (by cases h'), fun h' => absurd h' h⟩

theorem require_of {p : Prop} [Decidable p] (h : p) (reason : String) :
    require p reason = .ok () := if_pos h

/-! ## Memory -/

/-- An array in memory. What lies behind it is zero here; no result depends on it. -/
def memory (self : Bytes) : Bytes := toBytesBE 32 self.length ++ (self ++ List.replicate 32 0)

/-- `mload(add(self, offset))`, for the pointer of an array. -/
def mload (self : Bytes) (offset : Nat) : Nat := ofBytesBE (slice (memory self) offset 32)

/-- The bytes of the word that begins at `start` of the array. -/
theorem slice_memory {self : Bytes} {start len : Nat} (h : start + len ≤ self.length) :
    slice (memory self) (32 + start) len = slice self start len := by
  rw [memory, Bytes.slice_append_skip (by rw [Bytes.length_toBytesBE]; omega),
    Bytes.length_toBytesBE, Nat.add_sub_cancel_left, Bytes.slice_append_within h]

/-- The low bytes of the word that ends behind `len` bytes of the array. -/
theorem mload_mod {self : Bytes} {start len : Nat} (h : start + len ≤ self.length)
    (hlen : len ≤ 32) : mload self (start + len) % 256 ^ len = ofBytesBE (slice self start len) := by
  have hsplit : slice (memory self) (start + len) 32 =
      slice (memory self) (start + len) (32 - len) ++ slice self start len := by
    have h32 := Bytes.slice_add (memory self) (start + len) (32 - len) len
    have hstart : start + len + (32 - len) = 32 + start := by omega
    rw [Nat.sub_add_cancel hlen, hstart, slice_memory h] at h32
    exact h32
  have hlow := Bytes.ofBytesBE_lt (slice self start len)
  rw [Bytes.length_slice h] at hlow
  rw [mload, hsplit, Bytes.ofBytesBE_append, Bytes.length_slice h, 
    Nat.mul_comm, Nat.mul_add_mod, Nat.mod_eq_of_lt hlow]

/-- The high bytes of the word that begins at `start` of the array. -/
theorem mload_div {self : Bytes} {start len : Nat} (h : start + len ≤ self.length)
    (hlen : len ≤ 32) :
    mload self (32 + start) / 256 ^ (32 - len) = ofBytesBE (slice self start len) := by
  have hsplit : slice (memory self) (32 + start) 32 =
      slice self start len ++ slice (memory self) (32 + start + len) (32 - len) := by
    have h32 := Bytes.slice_add (memory self) (32 + start) len (32 - len)
    rw [Nat.add_sub_cancel' hlen, slice_memory h] at h32
    exact h32
  have hrest : 32 + start + len + (32 - len) ≤ (memory self).length := by
    rw [memory, List.length_append, Bytes.length_toBytesBE, List.length_append,
      List.length_replicate]
    omega
  have hlow := Bytes.ofBytesBE_lt (slice (memory self) (32 + start + len) (32 - len))
  rw [Bytes.length_slice hrest] at hlow
  rw [mload, hsplit, Bytes.ofBytesBE_append, Bytes.length_slice hrest, Nat.mul_comm,
    Nat.mul_add_div (Nat.pow_pos (by decide)), Nat.div_eq_of_lt hlow, Nat.add_zero]

/-! ## Readers -/

/-- The readers of the types kept in the low bytes of a word: the word that ends
where the number does, truncated by the type. -/
def bytesToUInt {α : Type} (ofNat : Nat → α) (size : Nat) (reason : String) (self : Bytes)
    (start : Nat) : Sol α := do
  let offset := start + size
  require (self.length ≥ offset) reason
  return ofNat (mload self offset)

def bytesToAddress : Bytes → Nat → Sol Address := bytesToUInt (BitVec.ofNat 160) 20 "bta11"

def bytesToUInt16 : Bytes → Nat → Sol UInt16 := bytesToUInt UInt16.ofNat 0x2 "btu02"

/-- `bytesToUInt32`: four bytes from an offset on. -/
def bytesToUInt32 : Bytes → Nat → Sol UInt32 := bytesToUInt UInt32.ofNat 0x4 "btu04"

def bytesToUInt128 : Bytes → Nat → Sol (BitVec 128) := bytesToUInt (BitVec.ofNat 128) 0x10 "btu16"

def bytesToBytes32 : Bytes → Nat → Sol (BitVec 256) := bytesToUInt (BitVec.ofNat 256) 0x20 "btb32"

/-- Loaded as a word, and cut to its high bytes. -/
def bytesToBytes20 (self : Bytes) (start : Nat) : Sol (BitVec 160) := do
  require (self.length ≥ start + 20) "btb20"
  -- A `bytes20` is kept in the high bytes of a word.
  return BitVec.ofNat 160 (mload self (0x20 + start) / 256 ^ 12)

/-- `Bytes.slice`; its loop copies whole words, the last one into the padding. -/
def bytesSlice (self : Bytes) (start length : Nat) : Sol Bytes := do
  require (self.length ≥ start + length) "bse11"
  return slice self start length

/-- `Bytes.trim`: the first bytes as a number. -/
def bytesTrim (data : Bytes) (newLength : Nat) : Sol Nat := do
  require (newLength ≤ 0x20) "trm10"
  require (data.length ≥ newLength) "trm11"
  let a := mload data 0x20
  return a >>> ((0x20 - newLength) * 8)

/-- Any byte but zero stands for true. -/
def readBool (data : Bytes) (offset : Nat) : Sol (Nat × Bool) := do
  let newOffset := offset + 1
  match data[offset]? with
  | some byte => return (newOffset, byte != 0)
  -- An index out of bounds is an invalid opcode.
  | none => throw "invalid opcode"

def readUInt16 (data : Bytes) (offset : Nat) : Sol (Nat × UInt16) := do
  let r ← bytesToUInt16 data offset
  return (offset + 2, r)

def readUInt32 (data : Bytes) (offset : Nat) : Sol (Nat × UInt32) := do
  let r ← bytesToUInt32 data offset
  return (offset + 4, r)

/-- Every reader returns the offset behind the field. -/
def readUInt128 (data : Bytes) (offset : Nat) : Sol (Nat × BitVec 128) := do
  let r ← bytesToUInt128 data offset
  return (offset + 16, r)

/-- Twenty bytes. -/
def readAddress (data : Bytes) (offset : Nat) : Sol (Nat × Address) := do
  let r ← bytesToAddress data offset
  return (offset + 20, r)

def readBytes20 (data : Bytes) (offset : Nat) : Sol (Nat × BitVec 160) := do
  let r ← bytesToBytes20 data offset
  return (offset + 20, r)

/-- Thirty-two bytes. -/
def readBytes32 (data : Bytes) (offset : Nat) : Sol (Nat × BitVec 256) := do
  let r ← bytesToBytes32 data offset
  return (offset + 32, r)

/-! ### What the readers return -/

section Readers

variable {self : Bytes} {start : Nat}

/-- Within the data the masked word is the number that the bytes write. -/
theorem bytesToUInt_eq {α : Type} {ofNat : Nat → α} {size : Nat} (reason : String)
    (htrunc : ∀ n, ofNat (n % 256 ^ size) = ofNat n) (hsize : size ≤ 32)
    (h : start + size ≤ self.length) :
    bytesToUInt ofNat size reason self start = .ok (ofNat (ofBytesBE (slice self start size))) := by
  show (require (start + size ≤ self.length) reason >>= fun _ =>
    pure (ofNat (mload self (start + size)))) = _
  rw [require_of h, ← mload_mod h hsize, htrunc]
  rfl

theorem ofNat_mod_256 {len w : Nat} (hw : w = 8 * len) (n : Nat) :
    BitVec.ofNat w (n % 256 ^ len) = BitVec.ofNat w n := by
  apply BitVec.eq_of_toNat_eq
  rw [BitVec.toNat_ofNat, BitVec.toNat_ofNat, hw, Nat.pow_mul]
  exact Nat.mod_mod n _

theorem bytesToAddress_eq (h : start + 20 ≤ self.length) :
    bytesToAddress self start = .ok (BitVec.ofNat 160 (ofBytesBE (slice self start 20))) :=
  bytesToUInt_eq "bta11" (ofNat_mod_256 rfl) (by decide) h

theorem bytesToUInt16_eq (h : start + 2 ≤ self.length) :
    bytesToUInt16 self start = .ok (UInt16.ofNat (ofBytesBE (slice self start 2))) :=
  bytesToUInt_eq "btu02" (fun n => UInt16.toBitVec_inj.mp (ofNat_mod_256 rfl n)) (by decide) h

theorem bytesToUInt32_eq (h : start + 4 ≤ self.length) :
    bytesToUInt32 self start = .ok (UInt32.ofNat (ofBytesBE (slice self start 4))) :=
  bytesToUInt_eq "btu04" (fun n => UInt32.toBitVec_inj.mp (ofNat_mod_256 rfl n)) (by decide) h

theorem bytesToUInt128_eq (h : start + 16 ≤ self.length) :
    bytesToUInt128 self start = .ok (BitVec.ofNat 128 (ofBytesBE (slice self start 16))) :=
  bytesToUInt_eq "btu16" (ofNat_mod_256 rfl) (by decide) h

theorem bytesToBytes32_eq (h : start + 32 ≤ self.length) :
    bytesToBytes32 self start = .ok (BitVec.ofNat 256 (ofBytesBE (slice self start 32))) :=
  bytesToUInt_eq "btb32" (ofNat_mod_256 rfl) (by decide) h

/-- Shifting the word gives the same twenty bytes. -/
theorem bytesToBytes20_eq (h : start + 20 ≤ self.length) :
    bytesToBytes20 self start = .ok (BitVec.ofNat 160 (ofBytesBE (slice self start 20))) := by
  unfold bytesToBytes20
  rw [require_of h, ← mload_div h (by decide)]
  rfl

/-- A slice within the data is copied word by word, and comes out whole. -/
theorem bytesSlice_eq {len : Nat} (h : start + len ≤ self.length) :
    bytesSlice self start len = .ok (slice self start len) := by
  unfold bytesSlice
  rw [require_of h]
  rfl

/-- A prefix is read as a number. -/
theorem bytesTrim_eq {len : Nat} (h : len ≤ self.length) (hlen : len ≤ 32) :
    bytesTrim self len = .ok (ofBytesBE (slice self 0 len)) := by
  have hword := mload_div ((Nat.zero_add len).symm ▸ h : 0 + len ≤ self.length) hlen
  have hpow : 2 ^ ((32 - len) * 8) = 256 ^ (32 - len) := by
    rw [Nat.mul_comm, Nat.pow_mul]
  unfold bytesTrim
  rw [require_of hlen, require_of h]
  show Except.ok (mload self 32 >>> ((32 - len) * 8)) = _
  rw [Nat.shiftRight_eq_div_pow, hpow, ← hword]

end Readers

/-! ## Writers -/

/-- A word has 32 bytes. -/
theorem toBytesBE_mod_word (word : Nat) : toBytesBE 32 (word % 2 ^ 256) = toBytesBE 32 word := by
  have hpow : (2 : Nat) ^ (8 * 32) = (2 ^ 8) ^ 32 := Nat.pow_mul 2 8 32
  have h256 : (2 : Nat) ^ 8 = 256 := rfl
  rw [h256] at hpow
  rw [← Bytes.toBytesBE_mod 32 word, ← hpow]

/-- `toBytesFromUIntTruncated`: the low bytes of a number, shifted to the front of
a word and stored. -/
def toBytesFromUIntTruncated (self : Nat) (byteLength : Nat) : Sol Bytes := do
  require (byteLength ≤ 32) "bt211"
  let data := self <<< ((32 - byteLength) * 8) % 2 ^ 256
  return (toBytesBE 32 data).take byteLength

def toBytesFromUInt32 (self : UInt32) : Sol Bytes := toBytesFromUIntTruncated self.toNat 4

/-- The low bytes of the number, the high ones first. -/
theorem toBytesFromUIntTruncated_eq (self : Nat) {byteLength : Nat} (h : byteLength ≤ 32) :
    toBytesFromUIntTruncated self byteLength = .ok (toBytesBE byteLength self) := by
  have hpow : 2 ^ ((32 - byteLength) * 8) = 256 ^ (32 - byteLength) := by
    rw [Nat.mul_comm, Nat.pow_mul]
  have hwidth : byteLength + (32 - byteLength) = 32 := Nat.add_sub_cancel' h
  have hbytes : toBytesBE 32 (self <<< ((32 - byteLength) * 8) % 2 ^ 256) =
      toBytesBE byteLength self ++ toBytesBE (32 - byteLength) (self * 256 ^ (32 - byteLength)) := by
    rw [toBytesBE_mod_word, Nat.shiftLeft_eq, hpow]
    have hsplit := Bytes.toBytesBE_add byteLength (32 - byteLength) (self * 256 ^ (32 - byteLength))
    rwa [hwidth, Nat.mul_div_cancel _ (Nat.pow_pos (by decide))] at hsplit
  unfold toBytesFromUIntTruncated
  rw [require_of h]
  show Except.ok (List.take byteLength (toBytesBE 32 _)) = _
  rw [hbytes, List.take_left' (Bytes.length_toBytesBE _ _)]

/-! ## Hexadecimal -/

/-- `mstore` of a word at a position of the output. -/
def mstore (out : Bytes) (position word : Nat) : Bytes :=
  out.take position ++ (toBytesBE 32 word ++ out.drop (position + 32))

/-- A shift to the left loses what leaves the word. -/
def shl (shift word : Nat) : Nat := word <<< shift % 2 ^ 256

def shr (shift word : Nat) : Nat := word >>> shift

/-- "fedcba9876543210", ASCII-encoded. -/
def hexDigits : Nat := 0x66656463626139383736353433323130

/-- The loop of `bytesToHexASCIIBytes`, over the rest of the input. -/
def hexLoop : Bytes → Nat → Bytes → Bytes
  | [], _, out => out
  | currInputByte :: input, outCurr, out =>
    let high := shr (shr 0x04 currInputByte.toNat * 0x08) hexDigits
    let low := shr ((0x0f &&& currInputByte.toNat) * 0x08) hexDigits
    hexLoop input (outCurr + 0x02)
      (mstore (mstore out outCurr (shl 0xf8 high)) (outCurr + 0x01) (shl 0xf8 low))

/-- The words stored for the last byte reach behind the output, with zeros. -/
def bytesToHexASCIIBytes (input : Bytes) : Bytes :=
  (hexLoop input 0 (List.replicate (input.length * 2 + 32) 0)).take (input.length * 2)

/-- A word shifted to its top byte stores this byte, and zeros behind it. -/
theorem mstore_shl (done : Bytes) (n word : Nat) :
    mstore (done ++ List.replicate (n + 32) 0) done.length (shl 0xf8 word) =
      (done ++ [UInt8.ofNat word]) ++ List.replicate (n + 31) 0 := by
  have hword : toBytesBE 32 (shl 0xf8 word) = UInt8.ofNat word :: List.replicate 31 0 := by
    have hpow : (2 : Nat) ^ (8 * 31) = (2 ^ 8) ^ 31 := Nat.pow_mul 2 8 31
    have h256 : (2 : Nat) ^ 8 = 256 := rfl
    rw [h256] at hpow
    have hshift : word <<< 0xf8 = word * 256 ^ 31 := by rw [Nat.shiftLeft_eq, ← hpow]
    have hsplit := Bytes.toBytesBE_add 1 31 (word * 256 ^ 31)
    rw [Nat.mul_div_cancel _ (Nat.pow_pos (by decide)), ← Bytes.toBytesBE_mod 31,
      Nat.mul_mod_left, Bytes.toBytesBE_zero] at hsplit
    rw [shl, toBytesBE_mod_word, hshift]
    exact hsplit
  have hrest : (done ++ List.replicate (n + 32) (0 : UInt8)).drop (done.length + 32) =
      List.replicate n 0 := by
    rw [List.drop_append, List.drop_of_length_le (Nat.le_add_right _ _), List.nil_append,
      Nat.add_sub_cancel_left, List.drop_replicate, Nat.add_sub_cancel]
  rw [mstore, List.take_left, hword, hrest, List.cons_append, List.replicate_append_replicate,
    Nat.add_comm 31 n, List.append_assoc]
  rfl

/-- The shifted table ends in the digit of the half byte. -/
theorem hexDigits_shift {half : Nat} (h : half < 16) :
    [UInt8.ofNat (shr (half * 0x08) hexDigits)] = String.utf8EncodeChar (Bytes.hexDigit half) := by
  revert half
  decide

/-- The loop writes two digits for each byte, behind those that are written. -/
theorem hexLoop_eq (input done : Bytes) :
    hexLoop input done.length (done ++ List.replicate (input.length * 2 + 32) 0) =
      done ++ Bytes.utf8 (Bytes.hexEncode input) ++ List.replicate 32 0 := by
  induction input generalizing done with
  | nil =>
    rw [hexLoop, List.length_nil, Nat.zero_mul, Nat.zero_add]
    exact congrArg (· ++ _) (List.append_nil done).symm
  | cons b input ih =>
    have hb : b.toNat < 256 := b.toNat_lt
    have hhigh : shr 0x04 b.toNat = b.toNat / 16 := Nat.shiftRight_eq_div_pow b.toNat 4
    have hlow : 0x0f &&& b.toNat = b.toNat % 16 := by
      rw [Nat.and_comm]
      exact Nat.and_two_pow_sub_one_eq_mod b.toNat 4
    have hlen : (b :: input).length * 2 + 32 = (input.length * 2 + 2) + 32 := by
      rw [List.length_cons]
      omega
    have hutf8 : Bytes.utf8 (Bytes.hexEncode (b :: input)) =
        String.utf8EncodeChar (Bytes.hexDigit (b.toNat / 16)) ++
          (String.utf8EncodeChar (Bytes.hexDigit (b.toNat % 16)) ++
            Bytes.utf8 (Bytes.hexEncode input)) := rfl
    have hstep := ih (done ++ [UInt8.ofNat (shr (b.toNat / 16 * 0x08) hexDigits)] ++
      [UInt8.ofNat (shr (b.toNat % 16 * 0x08) hexDigits)])
    have hfirst := mstore_shl done (input.length * 2 + 2)
      (shr (b.toNat / 16 * 0x08) hexDigits)
    have hsecond := mstore_shl (done ++ [UInt8.ofNat (shr (b.toNat / 16 * 0x08) hexDigits)])
      (input.length * 2 + 1) (shr (b.toNat % 16 * 0x08) hexDigits)
    rw [List.length_append, List.length_singleton] at hsecond
    rw [List.length_append, List.length_append, List.length_singleton, List.length_singleton,
      hexDigits_shift (by omega), hexDigits_shift (by omega)] at hstep
    rw [hexLoop, hlen, hhigh, hlow, hfirst, hsecond, hexDigits_shift (by omega),
      hexDigits_shift (by omega), hstep, hutf8]
    simp only [List.append_assoc]

/-- The contract writes the digits that the server writes. -/
theorem bytesToHexASCIIBytes_eq (input : Bytes) :
    bytesToHexASCIIBytes input = Bytes.utf8 (Bytes.hexEncode input) := by
  have hloop := hexLoop_eq input []
  rw [List.nil_append, List.nil_append, List.length_nil] at hloop
  have hlen : (Bytes.utf8 (Bytes.hexEncode input)).length = input.length * 2 := by
    rw [Bytes.length_utf8_hexEncode, Nat.mul_comm]
  rw [bytesToHexASCIIBytes, hloop, List.take_left' hlen]

end ZkSync.Contract
