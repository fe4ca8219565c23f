import StaticLink.Bytes
import StaticLink.Defect

/-!
# LEB128

Integers as bytes of seven bits each, lowest group first. Every byte but the last has its high bit
set. A signed number is in two's complement, extended from the sixth bit of its last byte.

* `unsignedValue`, `signedValue`: the number that a run of bytes stands for, of any size.
* `spell`: a number in exactly so many bytes, and `encodeUnsigned`, `encodeSigned`, which take as
  few bytes as they can, or as many as they are asked to fill.
* `decodeUnsigned`, `decodeSigned`: the number of a given width at the start of some bytes, with
  the count of bytes it takes.
-/

namespace StaticLink.Leb128

/-! ## Bytes and what they stand for -/

/-- Whether another byte of the same number follows. -/
def continues (b : UInt8) : Bool := 128 ≤ b.toNat

/-- The seven bits that a byte contributes. -/
def digit (b : UInt8) : Nat := b.toNat % 128

/-- The seven bits of a byte in two's complement. -/
def signedDigit (b : UInt8) : Int := if digit b < 64 then digit b else digit b - 128

/-- The number whose groups of seven bits, lowest first, are those of `bytes`. -/
def unsignedValue : (bytes : Bytes) → Nat
  | [] => 0
  | b :: rest => digit b + 128 * unsignedValue rest

/-- As `unsignedValue`, with the last group in two's complement. -/
def signedValue : (bytes : Bytes) → Int
  | [] => 0
  | [b] => signedDigit b
  | b :: rest => digit b + 128 * signedValue rest

/-! ## Encoding -/

/-- The low seven bits of `value`. -/
def lowDigit (value : Int) : Nat := (value % 128).toNat

/-- The low `7 * width` bits of `value` in exactly `width` bytes. -/
def spell : (width : Nat) → (value : Int) → Bytes
  | 0, _ => []
  | 1, value => [UInt8.ofNat (lowDigit value)]
  | width + 2, value => UInt8.ofNat (lowDigit value + 128) :: spell (width + 1) (value / 128)

/-- The fewest bytes that hold `value`: seven bits in each. -/
def unsignedWidth (value : Nat) : Nat := value.log2 / 7 + 1

/-- The fewest bytes that hold `value` and its sign: seven bits in each, one of them the sign. -/
def signedWidth : (value : Int) → Nat
  | .ofNat magnitude => (magnitude.log2 + 8) / 7
  | .negSucc magnitude => (magnitude.log2 + 8) / 7

/-- `value` in as few bytes as possible, but no fewer than `padTo`. -/
def encodeUnsigned (value : Nat) (padTo : Nat) : Bytes :=
  spell (max padTo (unsignedWidth value)) value

/-- `value` with its sign in as few bytes as possible, but no fewer than `padTo`. -/
def encodeSigned (value : Int) (padTo : Nat) : Bytes :=
  spell (max padTo (signedWidth value)) value

/-- Bytes of a padded number of 32 bits, so that it can be overwritten in place. -/
def paddedWidth32 : Nat := 5

/-- Bytes of a padded number of 64 bits. -/
def paddedWidth64 : Nat := 10

/-- The shortest spelling of a word. -/
def ofUInt32 (value : UInt32) : Bytes := encodeUnsigned value.toNat 0

/-- The shortest spelling of a signed word. -/
def ofInt32 (value : Int32) : Bytes := encodeSigned value.toInt 0

/-- The spelling of a word in `paddedWidth32` bytes. -/
def paddedUInt32 (value : UInt32) : Bytes := encodeUnsigned value.toNat paddedWidth32

@[simp] theorem length_spell (width : Nat) (value : Int) : (spell width value).length = width := by
  fun_induction spell width value with
  | case1 => rfl
  | case2 => rfl
  | case3 width value ih => simp [ih]

theorem unsignedWidth_le {value width : Nat} (positive : 0 < width)
    (small : value < powerOfTwo (7 * width)) : unsignedWidth value ≤ width := by
  rw [powerOfTwo, Nat.one_shiftLeft] at small
  unfold unsignedWidth
  by_cases zero : value = 0
  · simp only [zero, Nat.log2_zero]
    omega
  · have := (Nat.log2_lt zero).2 small
    omega

theorem signedWidth_le {value : Int} {width : Nat} (positive : 0 < width)
    (low : -(powerOfTwo (7 * width - 1) : Int) ≤ value)
    (high : value < powerOfTwo (7 * width - 1)) : signedWidth value ≤ width := by
  have bound (magnitude : Nat) (small : magnitude < powerOfTwo (7 * width - 1)) :
      (magnitude.log2 + 8) / 7 ≤ width := by
    rw [powerOfTwo, Nat.one_shiftLeft] at small
    by_cases zero : magnitude = 0
    · simp only [zero, Nat.log2_zero]
      omega
    · have := (Nat.log2_lt zero).2 small
      omega
  cases value with
  | ofNat magnitude => exact bound magnitude (by simpa using high)
  | negSucc magnitude => exact bound magnitude (by omega)

/-- A number that fits takes as many bytes as it is padded to. -/
theorem length_encodeUnsigned {value padTo : Nat} (positive : 0 < padTo)
    (small : value < powerOfTwo (7 * padTo)) : (encodeUnsigned value padTo).length = padTo := by
  rw [encodeUnsigned, length_spell]
  exact Nat.max_eq_left (unsignedWidth_le positive small)

/-- A number that fits with its sign takes as many bytes as it is padded to. -/
theorem length_encodeSigned {value : Int} {padTo : Nat} (positive : 0 < padTo)
    (low : -(powerOfTwo (7 * padTo - 1) : Int) ≤ value)
    (high : value < powerOfTwo (7 * padTo - 1)) : (encodeSigned value padTo).length = padTo := by
  rw [encodeSigned, length_spell]
  exact Nat.max_eq_left (signedWidth_le positive low high)

@[simp] theorem length_paddedUInt32 (value : UInt32) :
    (paddedUInt32 value).length = paddedWidth32 := by
  refine length_encodeUnsigned (by decide) ?_
  have limit : powerOfTwo (7 * paddedWidth32) = 34359738368 := rfl
  have := value.toNat_lt
  rw [limit]
  omega

/-! ## Decoding -/

/-- The unsigned number of `bits` bits at the start of `bytes`, and how many bytes it takes.

The byte that reaches the width must be the last one and must not hold bits beyond it. -/
def decodeUnsigned : (bits : Nat) → (bytes : Bytes) → Except Defect (Nat × Nat)
  | _, [] => .error .unexpectedEnd
  | bits, b :: rest =>
    if bits ≤ 7 then
      if b.toNat < powerOfTwo bits then .ok (digit b, 1)
      else if continues b then .error .integerTooLong
      else .error .integerTooLarge
    else if continues b then
      (decodeUnsigned (bits - 7) rest).map fun (value, size) => (digit b + 128 * value, size + 1)
    else .ok (digit b, 1)

/-- The signed number of `bits` bits at the start of `bytes`, and how many bytes it takes.

The byte that reaches the width must be the last one, and its bits beyond the width must repeat
the sign. -/
def decodeSigned : (bits : Nat) → (bytes : Bytes) → Except Defect (Int × Nat)
  | _, [] => .error .unexpectedEnd
  | bits, b :: rest =>
    if bits ≤ 7 then
      if continues b then .error .integerTooLong
      else if -powerOfTwo (bits - 1) ≤ signedDigit b ∧ signedDigit b < powerOfTwo (bits - 1) then
        .ok (signedDigit b, 1)
      else .error .integerTooLarge
    else if continues b then
      (decodeSigned (bits - 7) rest).map fun (value, size) => (digit b + 128 * value, size + 1)
    else .ok (signedDigit b, 1)

/-- The word at the start of `bytes`. -/
def decodeUInt32 (bytes : Bytes) : Except Defect (UInt32 × Nat) :=
  (decodeUnsigned 32 bytes).map fun (value, size) => (UInt32.ofNat value, size)

/-- The long word at the start of `bytes`. -/
def decodeUInt64 (bytes : Bytes) : Except Defect (UInt64 × Nat) :=
  (decodeUnsigned 64 bytes).map fun (value, size) => (UInt64.ofNat value, size)

/-- The signed word at the start of `bytes`. -/
def decodeInt32 (bytes : Bytes) : Except Defect (Int32 × Nat) :=
  (decodeSigned 32 bytes).map fun (value, size) => (Int32.ofInt value, size)

/-- The signed long word at the start of `bytes`. -/
def decodeInt64 (bytes : Bytes) : Except Defect (Int64 × Nat) :=
  (decodeSigned 64 bytes).map fun (value, size) => (Int64.ofInt value, size)

end StaticLink.Leb128
