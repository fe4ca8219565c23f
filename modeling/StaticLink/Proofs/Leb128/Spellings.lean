import StaticLink.Proofs.Leb128.Numerals

/-!
# How numbers are spelled

A number has one spelling in each number of bytes from some least number on. The encoders write the
shortest one, or the one that takes as many bytes as they are asked to fill.

* `Leb128.Spells`, `Leb128.SpellsShortest`: what it is to spell a number, and to do so with as few
  bytes as possible.
* `Leb128.spells_unsigned_iff`, `Leb128.spells_signed_iff`: all spellings of a number.
* `Leb128.Encodes`: an encoder spells numbers, in exactly so many bytes.
* `Leb128.ReadsBack`, `Leb128.encoders_spell`: what is encoded is decoded.
-/

namespace StaticLink.Leb128

variable {α : Type} {number : Int} {run : Bytes} {value : Bytes → Int} {low high : Int}
  {limit width : Nat}

/-! ## Spellings -/

/-- The bytes of one number, which stand for `number` as `value` says. -/
structure Spells (value : Bytes → Int) (number : Int) (run : Bytes) : Prop where
  numeral : IsNumeral run
  stands : value run = number

/-- No bytes that spell the number are fewer. -/
structure SpellsShortest (value : Bytes → Int) (number : Int) (run : Bytes) : Prop
    extends Spells value number run where
  least : ∀ other, Spells value number other → run.length ≤ other.length

theorem isNumeral_spell (width : Nat) (number : Int) : IsNumeral (spell (width + 1) number) := by
  induction width generalizing number with
  | zero => exact .last (continues_last number)
  | succ width ih => exact .more (continues_next number) (ih (number / 128))

theorem unsignedValue_spell (positive : 0 ≤ number)
    (small : number < powerOfTwo (7 * (width + 1))) :
    unsignedValue (spell (width + 1) number) = number := by
  have whole := lowDigit_add number
  induction width generalizing number with
  | zero =>
    have limit : powerOfTwo (7 * (0 + 1)) = 128 := rfl
    rw [spell, unsignedValue, unsignedValue, digit_last]
    omega
  | succ width ih =>
    have limit : powerOfTwo (7 * (width + 1 + 1)) = 128 * powerOfTwo (7 * (width + 1)) :=
      powerOfTwo_of_seven_le (by omega)
    have higher := @ih (number / 128) (by omega) (by omega) (lowDigit_add _)
    rw [spell, unsignedValue, digit_next, Int.natCast_add, Int.natCast_mul, higher]
    exact whole

theorem signedValue_spell (least : -(powerOfTwo (7 * width + 6) : Int) ≤ number)
    (most : number < powerOfTwo (7 * width + 6)) :
    signedValue (spell (width + 1) number) = number := by
  induction width generalizing number with
  | zero =>
    have limit : powerOfTwo (7 * 0 + 6) = 64 := rfl
    rw [spell, signedValue, signedDigit, digit_last]
    unfold lowDigit
    split <;> omega
  | succ width ih =>
    have limit : powerOfTwo (7 * (width + 1) + 6) = 128 * powerOfTwo (7 * width + 6) :=
      powerOfTwo_of_seven_le (by omega)
    have higher := @ih (number / 128) (by omega) (by omega)
    rw [spell, signedValue_cons _ (isNumeral_spell _ _), digit_next, higher]
    exact lowDigit_add number

/-- The bytes of a number are told by how many they are and by what they stand for. -/
theorem IsNumeral.eq_spell_unsignedValue (numeral : IsNumeral run) :
    run = spell run.length (unsignedValue run) := by
  induction numeral with
  | @last b ends =>
    have single : unsignedValue [b] = digit b := rfl
    rw [single, List.length_singleton, spell, lowDigit_natCast_of_lt (digit_lt b),
      ofNat_digit (Bool.eq_false_iff.1 ends)]
  | @more b rest more numeral ih =>
    have step : unsignedValue (b :: rest) = digit b + 128 * unsignedValue rest := rfl
    obtain ⟨width, same⟩ : ∃ width, rest.length = width + 1 := by
      cases numeral <;> exact ⟨_, rfl⟩
    rw [same] at ih
    rw [step, List.length_cons, same, Int.natCast_add, Int.natCast_mul]
    exact (congrArg (b :: ·) ih).trans (spell_digit_add more width _).symm

theorem IsNumeral.eq_spell_signedValue (numeral : IsNumeral run) :
    run = spell run.length (signedValue run) := by
  induction numeral with
  | @last b ends =>
    rw [signedValue, List.length_singleton, spell, lowDigit_signedDigit,
      ofNat_digit (Bool.eq_false_iff.1 ends)]
  | @more b rest more numeral ih =>
    obtain ⟨width, same⟩ : ∃ width, rest.length = width + 1 := by
      cases numeral <;> exact ⟨_, rfl⟩
    rw [same] at ih
    rw [signedValue_cons b numeral, List.length_cons, same]
    exact (congrArg (b :: ·) ih).trans (spell_digit_add more width _).symm

/-- A number is spelled in any width that has room for it, and in one way in each. -/
theorem spells_unsigned_iff {number : Nat} :
    Spells (fun run => unsignedValue run) number run ↔
      ∃ width, unsignedWidth number ≤ width ∧ run = spell width number := by
  constructor
  · rintro ⟨numeral, stands⟩
    have stands : unsignedValue run = number := Int.ofNat_inj.1 stands
    have some : 0 < run.length := by cases numeral <;> exact Nat.succ_pos _
    have small := unsignedValue_lt run
    have same := numeral.eq_spell_unsignedValue
    rw [stands] at small same
    exact ⟨run.length, unsignedWidth_le some small, same⟩
  · rintro ⟨size, enough, rfl⟩
    obtain ⟨width, rfl⟩ := Nat.exists_eq_add_one.2 (Nat.lt_of_lt_of_le (Nat.succ_pos _) enough)
    have small := Nat.lt_of_lt_of_le (lt_powerOfTwo_unsignedWidth number)
      (powerOfTwo_le (Nat.mul_le_mul_left 7 enough))
    exact ⟨isNumeral_spell width number,
      unsignedValue_spell (Int.natCast_nonneg number) (Int.ofNat_lt.2 small)⟩

theorem spells_signed_iff : Spells signedValue number run ↔
    ∃ width, signedWidth number ≤ width ∧ run = spell width number := by
  constructor
  · rintro ⟨numeral, stands⟩
    have same := numeral.eq_spell_signedValue
    rw [stands] at same
    refine ⟨run.length, ?_, same⟩
    -- There is a byte, and the highest of its seven bits is the sign.
    cases run with
    | nil => cases numeral
    | cons b rest =>
      obtain ⟨least, most⟩ := signedValue_bounds b rest
      rw [stands] at least most
      exact signedWidth_le (Nat.succ_pos _) least most
  · rintro ⟨size, enough, rfl⟩
    have some : 0 < signedWidth number := by
      unfold signedWidth
      split <;> omega
    obtain ⟨width, rfl⟩ := Nat.exists_eq_add_one.2 (Nat.lt_of_lt_of_le some enough)
    obtain ⟨least, most⟩ := lt_powerOfTwo_signedWidth number
    have room : powerOfTwo (7 * signedWidth number - 1) ≤ powerOfTwo (7 * width + 6) :=
      powerOfTwo_le (by omega)
    exact ⟨isNumeral_spell width number, signedValue_spell (by omega) (by omega)⟩

/-! ## Encoders -/

/-- Numbers are spelled, in as many bytes as asked for or as the shortest spelling takes. -/
structure Encodes (encode : α → (padTo : Nat) → Bytes) (toInt : α → Int) (value : Bytes → Int) :
    Prop where
  spells : ∀ number padTo, Spells value (toInt number) (encode number padTo)
  length : ∀ number padTo, ∃ shortest, SpellsShortest value (toInt number) shortest ∧
    (encode number padTo).length = max padTo shortest.length
  /-- What writes shortest spellings writes what is encoded without padding, and nothing else
  does. -/
  writes : ∀ write : α → Bytes, (∀ number, SpellsShortest value (toInt number) (write number)) ↔
    ∀ number, write number = encode number 0

/-- The shortest spelling has the least width. -/
theorem spellsShortest_iff
    (spelled : ∀ run, Spells value number run ↔ ∃ size, width ≤ size ∧ run = spell size number) :
    SpellsShortest value number run ↔ run = spell width number := by
  constructor
  · rintro ⟨spells, least⟩
    obtain ⟨size, enough, rfl⟩ := (spelled run).1 spells
    have few := least _ ((spelled _).2 ⟨width, Nat.le_refl width, rfl⟩)
    rw [length_spell, length_spell] at few
    rw [Nat.le_antisymm few enough]
  · rintro rfl
    refine ⟨(spelled _).2 ⟨width, Nat.le_refl width, rfl⟩, fun other spells => ?_⟩
    obtain ⟨size, enough, rfl⟩ := (spelled other).1 spells
    rw [length_spell, length_spell]
    exact enough

/-- An encoder that takes the width asked for, or else the least one. -/
theorem encodes_of_spells_iff {encode : α → Nat → Bytes} {toInt : α → Int} {width : α → Nat}
    (spelled : ∀ number run, Spells value (toInt number) run ↔
      ∃ size, width number ≤ size ∧ run = spell size (toInt number))
    (encoded : ∀ number padTo,
      encode number padTo = spell (max padTo (width number)) (toInt number)) :
    Encodes encode toInt value where
  spells number padTo := (spelled number _).2 ⟨_, Nat.le_max_right _ _, encoded number padTo⟩
  length number padTo := by
    refine ⟨spell (width number) (toInt number), (spellsShortest_iff (spelled number)).2 rfl, ?_⟩
    rw [encoded, length_spell, length_spell]
  writes write := by
    refine forall_congr' fun number => ?_
    rw [spellsShortest_iff (spelled number), encoded, Nat.zero_max]

theorem encodes_unsigned (toNat : α → Nat) :
    Encodes (fun number => encodeUnsigned (toNat number)) (fun number => toNat number)
      (fun run => unsignedValue run) :=
  encodes_of_spells_iff (fun _ _ => spells_unsigned_iff) fun _ _ => rfl

theorem encodes_signed (toInt : α → Int) :
    Encodes (fun number => encodeSigned (toInt number)) toInt signedValue :=
  encodes_of_spells_iff (fun _ _ => spells_signed_iff) fun _ _ => rfl

/-! ## Reading back -/

/-- What is encoded in `limit` bytes or fewer is decoded, whatever follows it. -/
def ReadsBack (encode : α → (padTo : Nat) → Bytes) (decode : Bytes → Except Defect (α × Nat))
    (limit : Nat) : Prop :=
  ∀ number padTo, (encode number padTo).length ≤ limit → ∀ rest,
    decode (encode number padTo ++ rest) = .ok (number, (encode number padTo).length)

theorem Encodes.readsBack {encode : α → Nat → Bytes} {decode : Bytes → Except Defect (α × Nat)}
    {toInt : α → Int} (encodes : Encodes encode toInt value)
    (decides : Decides decode toInt value limit low high)
    (injective : Function.Injective toInt)
    (bounds : ∀ number, low ≤ toInt number ∧ toInt number < high) :
    ReadsBack encode decode limit := by
  intro number padTo short rest
  obtain ⟨numeral, stands⟩ := encodes.spells number padTo
  exact decides.read injective numeral short stands (bounds number).1 (bounds number).2 rest

/-- Every long word is spelled, with or without a sign, in exactly as many bytes as are asked for,
or as its shortest spelling takes if these are more. What is written without padding is the shortest
spelling, and there is no other one of that length. Ten bytes or fewer are read back as the long
word and five or fewer as the word that was encoded, whatever follows them, and padded words and
long words always take five and ten bytes. -/
theorem encoders_spell :
    Encodes (fun long : UInt64 => encodeUnsigned long.toNat) (fun long => long.toNat)
        (fun run => unsignedValue run) ∧
      Encodes (fun long : Int64 => encodeSigned long.toInt) Int64.toInt signedValue ∧
      ReadsBack (fun long => encodeUnsigned long.toNat) decodeUInt64 10 ∧
      ReadsBack (fun long => encodeSigned long.toInt) decodeInt64 10 ∧
      ReadsBack (fun word => encodeUnsigned word.toNat) decodeUInt32 5 ∧
      ReadsBack (fun word => encodeSigned word.toInt) decodeInt32 5 ∧
      (∀ word : UInt32, (encodeUnsigned word.toNat paddedWidth32).length = 5) ∧
      (∀ word : Int32, (encodeSigned word.toInt paddedWidth32).length = 5) ∧
      (∀ long : UInt64, (encodeUnsigned long.toNat paddedWidth64).length = 10) ∧
      ∀ long : Int64, (encodeSigned long.toInt paddedWidth64).length = 10 := by
  refine ⟨encodes_unsigned _, encodes_signed _, ?_, ?_, ?_, ?_, fun word => ?_, fun word => ?_,
    fun long => ?_, fun long => ?_⟩
  · refine (encodes_unsigned _).readsBack decides_long injective_long fun long => ?_
    exact ⟨Int.natCast_nonneg _, Int.ofNat_lt.2 long.toNat_lt⟩
  · refine (encodes_signed _).readsBack decides_signedLong injective_signedLong fun long => ?_
    exact ⟨long.le_toInt, long.toInt_lt⟩
  · refine (encodes_unsigned _).readsBack decides_word injective_word fun word => ?_
    exact ⟨Int.natCast_nonneg _, Int.ofNat_lt.2 word.toNat_lt⟩
  · refine (encodes_signed _).readsBack decides_signedWord injective_signedWord fun word => ?_
    exact ⟨word.le_toInt, word.toInt_lt⟩
  -- A word leaves bits of its five bytes free, and a long word bits of its ten.
  · exact length_encodeUnsigned (by decide) (Nat.lt_trans word.toNat_lt (by decide))
  · have least : -(powerOfTwo (7 * 5 - 1) : Int) ≤ -2 ^ 31 := by decide
    have most : (2 ^ 31 : Int) ≤ powerOfTwo (7 * 5 - 1) := by decide
    exact length_encodeSigned (by decide) (Int.le_trans least word.le_toInt)
      (Int.lt_of_lt_of_le word.toInt_lt most)
  · exact length_encodeUnsigned (by decide) (Nat.lt_trans long.toNat_lt (by decide))
  · have least : -(powerOfTwo (7 * 10 - 1) : Int) ≤ -2 ^ 63 := by decide
    have most : (2 ^ 63 : Int) ≤ powerOfTwo (7 * 10 - 1) := by decide
    exact length_encodeSigned (by decide) (Int.le_trans least long.le_toInt)
      (Int.lt_of_lt_of_le long.toInt_lt most)

end StaticLink.Leb128
