import StaticLink.Proofs.Leb128
import StaticLink.Relocation

/-!
# What an operand holds

An operand of 32 or 64 bits holds the low bits of what is written to it, and a signed one extends
the highest of them.

* `Relocation.Encoding.reduce`: the value that is left.
* `Relocation.Encoding.decode_encode`: it is what is read back.
* `Relocation.Encoding.reduce_of_unsigned`: an unsigned value that fits is left as it is.
-/

namespace StaticLink.Relocation.Encoding

variable {encoding : Encoding} {value : Int}

theorem width_pos (encoding : Encoding) : 0 < encoding.width := by
  cases encoding <;> decide

/-- The values of the operand are counted modulo this number. -/
def modulus : Encoding → Nat
  | uleb32 | sleb32 | i32 => wordLimit
  | uleb64 | sleb64 | i64 => longLimit

/-- Whether the operand is read with a sign. -/
def isSigned : Encoding → Bool
  | sleb32 | sleb64 => true
  | _ => false

/-- What is left of `value` in the operand. -/
def reduce (encoding : Encoding) (value : Int) : Int :=
  if encoding.isSigned then value.bmod encoding.modulus else value % encoding.modulus

theorem reduce_of_unsigned (unsigned : encoding.isSigned = false) (low : 0 ≤ value)
    (high : value < encoding.modulus) : encoding.reduce value = value := by
  rw [reduce, unsigned, if_neg (by decide)]
  exact Int.emod_eq_of_lt low high

/-- Reducing a value does not change what it is congruent to. -/
theorem reduce_emod (encoding : Encoding) (value : Int) :
    encoding.reduce value % encoding.modulus = value % encoding.modulus := by
  unfold reduce
  split
  · exact Int.bmod_emod
  · exact Int.emod_emod_of_dvd value (Int.dvd_refl _)

/-! ## Reading back what is written -/

/-- An unsigned number is read back from its padded spelling, if the bytes are as many as its width
takes. -/
theorem decodeUnsigned_encodeUnsigned (bits padding : Nat) {number : Nat}
    (wide : 7 * padding < bits) (narrow : bits ≤ 7 * (padding + 1))
    (fits : number < powerOfTwo bits) :
    Leb128.decodeUnsigned bits (Leb128.encodeUnsigned number (padding + 1)) =
      .ok (number, padding + 1) := by
  have limit : powerOfTwo bits ≤ powerOfTwo (7 * (padding + 1)) := Leb128.powerOfTwo_le narrow
  -- The padding is as wide as the number can be, so that it decides the width.
  have padded : max (padding + 1) (Leb128.unsignedWidth number) = padding + 1 :=
    Nat.max_eq_left (Leb128.unsignedWidth_le (by omega) (by omega))
  have fits' : (number : Int) < powerOfTwo bits := by omega
  have spelled := Leb128.decodeUnsigned_spell wide narrow (Int.natCast_nonneg number) fits' []
  rw [List.append_nil, Int.toNat_natCast] at spelled
  rw [Leb128.encodeUnsigned, padded, spelled]

/-- A signed number is read back from its padded spelling, if the bytes are as many as its width
takes. -/
theorem decodeSigned_encodeSigned (bits padding : Nat) (wide : 7 * padding < bits)
    (narrow : bits ≤ 7 * (padding + 1)) (low : -(powerOfTwo (bits - 1) : Int) ≤ value)
    (high : value < powerOfTwo (bits - 1)) :
    Leb128.decodeSigned bits (Leb128.encodeSigned value (padding + 1)) =
      .ok (value, padding + 1) := by
  have limit : powerOfTwo (bits - 1) ≤ powerOfTwo (7 * (padding + 1) - 1) :=
    Leb128.powerOfTwo_le (by omega)
  have padded : max (padding + 1) (Leb128.signedWidth value) = padding + 1 :=
    Nat.max_eq_left (Leb128.signedWidth_le (by omega) (by omega) (by omega))
  have spelled := Leb128.decodeSigned_spell wide narrow low high []
  rw [List.append_nil] at spelled
  rw [Leb128.encodeSigned, padded, spelled]

/-- A word is read back from its bytes. -/
theorem decodeWord_littleEndian {width number : Nat} (fits : number < powerOfTwo (8 * width)) :
    decodeWord width (littleEndian width number) = .ok number := by
  have split := Bytes.splitExactly?_append (littleEndian width number) []
  rw [List.append_nil, length_littleEndian] at split
  rw [decodeWord, split]
  show Except.ok (ofLittleEndian (littleEndian width number) : Int) = .ok (number : Int)
  rw [ofLittleEndian_littleEndian, Nat.mod_eq_of_lt fits]

/-- What is written to an operand is read back reduced. -/
theorem decode_encode (encoding : Encoding) (value : Int) :
    encoding.decode (encoding.encode value) = .ok (encoding.reduce value) := by
  have word : (value % wordLimit).toNat < wordLimit := by
    unfold wordLimit
    omega
  have long : (value % longLimit).toNat < longLimit := by
    unfold longLimit
    omega
  have wordWhole : ((value % wordLimit).toNat : Int) = value % wordLimit :=
    Int.toNat_of_nonneg (Int.emod_nonneg value (by decide))
  have longWhole : ((value % longLimit).toNat : Int) = value % longLimit :=
    Int.toNat_of_nonneg (Int.emod_nonneg value (by decide))
  -- A signed residue is between half of the modulus below zero and half of it above.
  have wordSigned := Int.le_bmod (x := value) (show 0 < wordLimit by decide)
  have wordSigned' := Int.bmod_lt (x := value) (show 0 < wordLimit by decide)
  have longSigned := Int.le_bmod (x := value) (show 0 < longLimit by decide)
  have longSigned' := Int.bmod_lt (x := value) (show 0 < longLimit by decide)
  -- Each encoding is read by one of the three readers above, from the residue that it keeps.
  cases encoding with
  | uleb32 =>
    have read := decodeUnsigned_encodeUnsigned 32 4 (by decide) (by decide) word
    rw [decode, encode, Leb128.paddedWidth32, read]
    exact congrArg Except.ok wordWhole
  | sleb32 =>
    have read := decodeSigned_encodeSigned 32 4 (by decide) (by decide) wordSigned wordSigned'
    rw [decode, encode, Leb128.paddedWidth32, read]
    rfl
  | uleb64 =>
    have read := decodeUnsigned_encodeUnsigned 64 9 (by decide) (by decide) long
    rw [decode, encode, Leb128.paddedWidth64, read]
    exact congrArg Except.ok longWhole
  | sleb64 =>
    have read := decodeSigned_encodeSigned 64 9 (by decide) (by decide) longSigned longSigned'
    rw [decode, encode, Leb128.paddedWidth64, read]
    rfl
  | i32 =>
    rw [decode, encode, decodeWord_littleEndian word]
    exact congrArg Except.ok wordWhole
  | i64 =>
    rw [decode, encode, decodeWord_littleEndian long]
    exact congrArg Except.ok longWhole

end StaticLink.Relocation.Encoding
