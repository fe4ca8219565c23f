import StaticLink.Proofs.Leb128

/-!
# Numbers in any spelling

A number may be spelled in more bytes than it needs, as long as no byte lies beyond its width. The
decoders accept exactly these spellings.

* `Leb128.FitsUnsigned`, `Leb128.FitsSigned`: so many bytes are a spelling of the number.
* `Leb128.decodeUnsigned_eq_ok_iff`, `Leb128.decodeSigned_eq_ok_iff`: what is decoded is spelled.
* `Grammar.Word`, `Grammar.SignedWord`, `Grammar.SignedLong`: a number together with one of its
  spellings.
-/

namespace StaticLink

namespace Leb128

variable {bits width size : Nat} {run : Bytes}

/-- A number of so many bits can be spelled in `width` bytes: they are enough for it, and the last
one does not lie beyond the bits. -/
structure FitsUnsigned (bits width value : Nat) : Prop where
  some : 0 < width
  short : 7 * (width - 1) < bits
  small : value < powerOfTwo bits
  enough : value < powerOfTwo (7 * width)

/-- As `FitsUnsigned`, for a number with a sign, which takes one bit. -/
structure FitsSigned (bits width : Nat) (value : Int) : Prop where
  some : 0 < width
  short : 7 * (width - 1) < bits
  low : -(powerOfTwo (bits - 1) : Int) ≤ value
  high : value < powerOfTwo (bits - 1)
  enough_low : -(powerOfTwo (7 * width - 1) : Int) ≤ value
  enough_high : value < powerOfTwo (7 * width - 1)

/-! ## The bytes of a number -/

theorem digit_lt (b : UInt8) : digit b < 128 := Nat.mod_lt _ (by decide)

/-- The last byte of a number is its digit. -/
theorem ofNat_digit {b : UInt8} (last : ¬ continues b = true) : UInt8.ofNat (digit b) = b := by
  have small : b.toNat < 128 := by simpa [continues] using last
  rw [digit, Nat.mod_eq_of_lt small, UInt8.ofNat_toNat]

/-- Any other byte is its digit with the high bit set. -/
theorem ofNat_digit_add {b : UInt8} (more : continues b = true) :
    UInt8.ofNat (digit b + 128) = b := by
  have large : 128 ≤ b.toNat := by simpa [continues] using more
  have small := b.toNat_lt
  have whole : digit b + 128 = b.toNat := by
    unfold digit
    omega
  rw [whole, UInt8.ofNat_toNat]

theorem lowDigit_natCast_of_lt {value : Nat} (small : value < 128) : lowDigit value = value := by
  unfold lowDigit
  omega

theorem lowDigit_signedDigit (b : UInt8) : lowDigit (signedDigit b) = digit b := by
  have small := digit_lt b
  unfold lowDigit signedDigit
  split <;> omega

theorem signedDigit_bounds (b : UInt8) : -64 ≤ signedDigit b ∧ signedDigit b < 64 := by
  have small := digit_lt b
  unfold signedDigit
  split <;> omega

/-- A number whose lowest byte is `b` and which goes on is spelled by `b` and what is above it. -/
theorem spell_digit_add {b : UInt8} (more : continues b = true) (width : Nat) (higher : Int) :
    spell (width + 2) (digit b + 128 * higher) = b :: spell (width + 1) higher := by
  have small := digit_lt b
  have low : lowDigit (digit b + 128 * higher) = digit b := by
    unfold lowDigit
    omega
  have rest : (digit b + 128 * higher : Int) / 128 = higher := by omega
  rw [spell, low, rest, ofNat_digit_add more]

/-! ## Decoders accept every spelling and nothing else -/

theorem fits_of_decodeUnsigned {value : Nat} (positive : 0 < bits)
    (h : decodeUnsigned bits run = .ok (value, size)) :
    FitsUnsigned bits size value ∧ ∃ rest, run = spell size value ++ rest := by
  -- Where a byte continues, the bytes after it are a number of seven bits less.
  induction run generalizing bits value size with
  | nil => cases h
  | cons b run ih =>
    have digit_small := digit_lt b
    rcases decodeUnsigned_cons_eq_ok_iff.1 h with
      ⟨ends, within, rfl, rfl⟩ | ⟨wide, more, higher, taken, later, rfl, rfl⟩
    · have small : digit b < powerOfTwo bits := by
        by_cases last : bits ≤ 7
        · exact Nat.lt_of_le_of_lt (Nat.mod_le _ _) (within last)
        · have limit : powerOfTwo 7 ≤ powerOfTwo bits := powerOfTwo_le (by omega)
          exact Nat.lt_of_lt_of_le digit_small limit
      refine ⟨⟨Nat.one_pos, positive, small, digit_small⟩, run, ?_⟩
      rw [spell, lowDigit_natCast_of_lt digit_small, ofNat_digit (ne_true_of_eq_false ends),
        List.singleton_append]
    · have limit := @powerOfTwo_of_seven_le bits (by omega)
      obtain ⟨⟨positive', short, small, enough⟩, rest, whole⟩ := ih (by omega) later
      obtain ⟨width, rfl⟩ := Nat.exists_eq_add_one.2 positive'
      have limit' : powerOfTwo (7 * (width + 1 + 1)) = 128 * powerOfTwo (7 * (width + 1)) :=
        powerOfTwo_of_seven_le (by omega)
      refine ⟨⟨by omega, by omega, by omega, by omega⟩, rest, ?_⟩
      rw [whole, ← List.cons_append, ← spell_digit_add more, Int.natCast_add, Int.natCast_mul]
      rfl

/-- An unsigned number is decoded exactly from its spellings. -/
theorem decodeUnsigned_eq_ok_iff {value : Nat} (positive : 0 < bits) :
    decodeUnsigned bits run = .ok (value, size) ↔
      FitsUnsigned bits size value ∧ ∃ rest, run = spell size value ++ rest := by
  refine ⟨fits_of_decodeUnsigned positive, ?_⟩
  rintro ⟨⟨some, short, small, enough⟩, rest, rfl⟩
  obtain ⟨width, rfl⟩ := Nat.exists_eq_add_one.2 some
  exact decodeUnsigned_spell_of_lt short (Int.natCast_nonneg value) (Int.ofNat_lt.2 small)
    (Int.ofNat_lt.2 enough) rest

theorem fits_of_decodeSigned {value : Int} (positive : 0 < bits)
    (h : decodeSigned bits run = .ok (value, size)) :
    FitsSigned bits size value ∧ ∃ rest, run = spell size value ++ rest := by
  -- As for unsigned numbers, with the sign in the highest digit.
  induction run generalizing bits value size with
  | nil => cases h
  | cons b run ih =>
    have digit_small := digit_lt b
    have bounds := signedDigit_bounds b
    have sixtyFour : powerOfTwo (7 * 1 - 1) = 64 := rfl
    rcases decodeSigned_cons_eq_ok_iff.1 h with
      ⟨ends, within, rfl, rfl⟩ | ⟨wide, more, higher, taken, later, rfl, rfl⟩
    · have small : -(powerOfTwo (bits - 1) : Int) ≤ signedDigit b ∧
          signedDigit b < powerOfTwo (bits - 1) := by
        by_cases last : bits ≤ 7
        · exact within last
        · have limit : powerOfTwo (7 * 1 - 1) ≤ powerOfTwo (bits - 1) := powerOfTwo_le (by omega)
          omega
      refine ⟨⟨Nat.one_pos, by omega, small.1, small.2, by omega, by omega⟩, run, ?_⟩
      rw [spell, lowDigit_signedDigit, ofNat_digit (ne_true_of_eq_false ends),
        List.singleton_append]
    · have limit := @powerOfTwo_of_seven_le (bits - 1) (by omega)
      rw [Nat.sub_right_comm] at limit
      obtain ⟨⟨positive', short, low, high, enough⟩, rest, whole⟩ := ih (by omega) later
      obtain ⟨width, rfl⟩ := Nat.exists_eq_add_one.2 positive'
      have limit' : powerOfTwo (7 * (width + 1 + 1) - 1) =
          128 * powerOfTwo (7 * (width + 1) - 1) := powerOfTwo_of_seven_le (by omega)
      refine ⟨⟨by omega, by omega, by omega, by omega, by omega, by omega⟩, rest, ?_⟩
      rw [whole, ← List.cons_append, ← spell_digit_add more]

/-- A signed number is decoded exactly from its spellings. -/
theorem decodeSigned_eq_ok_iff {value : Int} (positive : 0 < bits) :
    decodeSigned bits run = .ok (value, size) ↔
      FitsSigned bits size value ∧ ∃ rest, run = spell size value ++ rest := by
  refine ⟨fits_of_decodeSigned positive, ?_⟩
  rintro ⟨⟨some, short, low, high, enough_low, enough_high⟩, rest, rfl⟩
  obtain ⟨width, rfl⟩ := Nat.exists_eq_add_one.2 some
  exact decodeSigned_spell_of_lt short low high enough_low enough_high rest

end Leb128

namespace Grammar

open Leb128 (spell FitsUnsigned FitsSigned)

/-! ## A number and its spelling -/

/-- An unsigned number of so many bits, in one of its spellings. -/
structure Unsigned (bits : Nat) where
  number : Nat
  width : Nat
  fits : FitsUnsigned bits width number

/-- A signed number of so many bits, in one of its spellings. -/
structure Signed (bits : Nat) where
  number : Int
  width : Nat
  fits : FitsSigned bits width number

variable {bits : Nat}

def Unsigned.bytes (numeral : Unsigned bits) : Bytes := spell numeral.width numeral.number

def Signed.bytes (numeral : Signed bits) : Bytes := spell numeral.width numeral.number

abbrev Word := Unsigned 32

abbrev SignedWord := Signed 32

abbrev SignedLong := Signed 64

def Unsigned.value (word : Word) : UInt32 := .ofNat word.number

def SignedWord.value (word : SignedWord) : Int32 := .ofInt word.number

def SignedLong.value (long : SignedLong) : Int64 := .ofInt long.number

/-! ## Decoders and what they read -/

variable {α β ν : Type} {decode : Bytes → Except Defect (α × Nat)} {bytes : ν → Bytes}
  {value : ν → α}

/-- What is decoded at the start of some bytes is the value of a node that they start with. -/
def Decodes (decode : Bytes → Except Defect (α × Nat)) (bytes : ν → Bytes) (value : ν → α) : Prop :=
  ∀ run found size, decode run = .ok (found, size) ↔
    ∃ node rest, run = bytes node ++ rest ∧ found = value node ∧ size = (bytes node).length

theorem Decodes.map (decodes : Decodes decode bytes value) (change : α → β) :
    Decodes (fun run => (decode run).map fun (found, size) => (change found, size)) bytes
      fun node => change (value node) := by
  intro run result size
  constructor
  · intro h
    obtain ⟨found, _, decoded, ⟨⟩⟩ := Leb128.map_eq_ok_iff.1 h
    obtain ⟨node, rest, whole, rfl, rfl⟩ := (decodes _ _ _).1 decoded
    exact ⟨node, rest, whole, rfl, rfl⟩
  · rintro ⟨node, rest, rfl, rfl, rfl⟩
    have decoded := (decodes _ _ _).2 ⟨node, rest, rfl, rfl, rfl⟩
    exact Leb128.map_eq_ok_iff.2 ⟨value node, _, decoded, rfl⟩

theorem decodes_unsigned (positive : 0 < bits) :
    Decodes (Leb128.decodeUnsigned bits) (@Unsigned.bytes bits) Unsigned.number := by
  intro run found size
  rw [Leb128.decodeUnsigned_eq_ok_iff positive]
  constructor
  · rintro ⟨fits, rest, whole⟩
    exact ⟨⟨found, size, fits⟩, rest, whole, rfl, (Leb128.length_spell _ _).symm⟩
  · rintro ⟨⟨number, width, fits⟩, rest, whole, rfl, rfl⟩
    rw [Unsigned.bytes, Leb128.length_spell]
    exact ⟨fits, rest, whole⟩

theorem decodes_signed (positive : 0 < bits) :
    Decodes (Leb128.decodeSigned bits) (@Signed.bytes bits) Signed.number := by
  intro run found size
  rw [Leb128.decodeSigned_eq_ok_iff positive]
  constructor
  · rintro ⟨fits, rest, whole⟩
    exact ⟨⟨found, size, fits⟩, rest, whole, rfl, (Leb128.length_spell _ _).symm⟩
  · rintro ⟨⟨number, width, fits⟩, rest, whole, rfl, rfl⟩
    rw [Signed.bytes, Leb128.length_spell]
    exact ⟨fits, rest, whole⟩

theorem decodes_word : Decodes Leb128.decodeUInt32 Unsigned.bytes Unsigned.value :=
  (decodes_unsigned (by decide)).map UInt32.ofNat

theorem decodes_signedWord : Decodes Leb128.decodeInt32 Signed.bytes SignedWord.value :=
  (decodes_signed (by decide)).map Int32.ofInt

theorem decodes_signedLong : Decodes Leb128.decodeInt64 Signed.bytes SignedLong.value :=
  (decodes_signed (by decide)).map Int64.ofInt

end Grammar

end StaticLink
