import StaticLink.Leb128

/-!
# Reading back what is spelled

A number that fits in a width is read back from its spelling in as many bytes as that width takes.

* `Leb128.decodeUnsigned_cons_eq_ok_iff`, `Leb128.decodeSigned_cons_eq_ok_iff`: what the first byte
  says.
* `Leb128.decodeUnsigned_spell_of_lt`: for numbers from zero on.
* `Leb128.decodeSigned_spell_of_lt`: for numbers with a sign.
* `Leb128.decodeUInt32_ofUInt32`, `Leb128.decodeUInt32_paddedUInt32`, `Leb128.decodeInt32_ofInt32`:
  for words in the spellings that are written.
* `Leb128.Prefixed`: what is read does not depend on what follows it.
-/

namespace StaticLink.Leb128

variable {value : Int} {bits width : Nat}

/-! ## The bytes of a spelling -/

theorem lowDigit_lt (value : Int) : lowDigit value < 128 := by
  unfold lowDigit
  omega

theorem digit_last (value : Int) : digit (UInt8.ofNat (lowDigit value)) = lowDigit value := by
  have small := lowDigit_lt value
  rw [digit, UInt8.toNat_ofNat']
  omega

theorem continues_last (value : Int) : continues (UInt8.ofNat (lowDigit value)) = false := by
  have small := lowDigit_lt value
  rw [continues, UInt8.toNat_ofNat', decide_eq_false_iff_not]
  omega

theorem digit_next (value : Int) :
    digit (UInt8.ofNat (lowDigit value + 128)) = lowDigit value := by
  have small := lowDigit_lt value
  rw [digit, UInt8.toNat_ofNat']
  omega

theorem continues_next (value : Int) :
    continues (UInt8.ofNat (lowDigit value + 128)) = true := by
  have small := lowDigit_lt value
  rw [continues, UInt8.toNat_ofNat', decide_eq_true_iff]
  omega

/-- The lowest group of seven bits and the rest. -/
theorem lowDigit_add (value : Int) : lowDigit value + 128 * (value / 128) = value := by
  unfold lowDigit
  omega

/-! ## Reading a spelling -/

/-- The limit of a number, in terms of the limit of what follows its first byte. -/
theorem powerOfTwo_of_seven_le (more : 7 ≤ bits) :
    powerOfTwo bits = 128 * powerOfTwo (bits - 7) := by
  have split : bits = 7 + (bits - 7) := by omega
  have first : powerOfTwo 7 = 128 := rfl
  rw [← first, ← powerOfTwo_add, ← split]

theorem powerOfTwo_le {small large : Nat} (le : small ≤ large) :
    powerOfTwo small ≤ powerOfTwo large := by
  rw [powerOfTwo, powerOfTwo, Nat.one_shiftLeft, Nat.one_shiftLeft]
  exact Nat.pow_le_pow_right (by decide) le

theorem map_eq_ok_iff {α β : Type} {decoded : Except Defect (α × Nat)} {change : α × Nat → β}
    {result : β} : decoded.map change = .ok result ↔
      ∃ found size, decoded = .ok (found, size) ∧ change (found, size) = result := by
  rcases decoded with defect | ⟨found, size⟩
  · simp [Except.map]
  · constructor
    · intro h
      exact ⟨found, size, rfl, Except.ok.inj h⟩
    · rintro ⟨_, _, ⟨⟩, rfl⟩
      rfl

/-- What is decoded ends in its first byte, or it goes on with a number of seven bits less. -/
theorem decodeUnsigned_cons_eq_ok_iff {b : UInt8} {rest : Bytes} {value size : Nat} :
    decodeUnsigned bits (b :: rest) = .ok (value, size) ↔
      (continues b = false ∧ (bits ≤ 7 → b.toNat < powerOfTwo bits) ∧ value = digit b ∧ size = 1) ∨
      (7 < bits ∧ continues b = true ∧ ∃ higher taken,
        decodeUnsigned (bits - 7) rest = .ok (higher, taken) ∧
        value = digit b + 128 * higher ∧ size = taken + 1) := by
  rw [decodeUnsigned]
  by_cases last : bits ≤ 7
  · rw [if_pos last]
    by_cases small : b.toNat < powerOfTwo bits
    · -- A byte of no more than seven bits has no bit that says that another one follows.
      have limit : powerOfTwo bits ≤ 128 := powerOfTwo_le last
      have ends : continues b = false := by
        rw [continues, decide_eq_false_iff_not]
        omega
      simp [small, ends, eq_comm]
    · rw [if_neg small]
      split <;> simp [small, last, Nat.not_lt_of_le last]
  · rw [if_neg last]
    by_cases more : continues b = true
    · rw [if_pos more, map_eq_ok_iff]
      simp [more, Nat.lt_of_not_le last, eq_comm]
    · simp [more, last, eq_comm]

/-- As for unsigned numbers, with the sign in the byte that ends the number. -/
theorem decodeSigned_cons_eq_ok_iff {b : UInt8} {rest : Bytes} {value : Int} {size : Nat} :
    decodeSigned bits (b :: rest) = .ok (value, size) ↔
      (continues b = false ∧ (bits ≤ 7 → -(powerOfTwo (bits - 1) : Int) ≤ signedDigit b ∧
        signedDigit b < powerOfTwo (bits - 1)) ∧ value = signedDigit b ∧ size = 1) ∨
      (7 < bits ∧ continues b = true ∧ ∃ higher taken,
        decodeSigned (bits - 7) rest = .ok (higher, taken) ∧
        value = digit b + 128 * higher ∧ size = taken + 1) := by
  rw [decodeSigned]
  by_cases last : bits ≤ 7
  · rw [if_pos last]
    by_cases more : continues b = true
    · simp [more, Nat.not_lt_of_le last]
    · rw [if_neg more]
      split
      · next fits => simp [more, fits, eq_comm, Nat.not_lt_of_le last]
      · next unfit => simp [more, unfit, last]
  · rw [if_neg last]
    by_cases more : continues b = true
    · rw [if_pos more, map_eq_ok_iff]
      simp [more, Nat.lt_of_not_le last, eq_comm]
    · simp [more, last, eq_comm]

/-- An unsigned number is read back from its spelling, if it fits both in these bytes and in the
width, and the width is not exhausted before the last byte. -/
theorem decodeUnsigned_spell_of_lt (wide : 7 * width < bits) (positive : 0 ≤ value)
    (fits : value < powerOfTwo bits) (spelled : value < powerOfTwo (7 * (width + 1)))
    (rest : Bytes) :
    decodeUnsigned bits (spell (width + 1) value ++ rest) = .ok (value.toNat, width + 1) := by
  -- Every byte but the last takes seven bits off the number and off its limits.
  induction width generalizing value bits with
  | zero =>
    have limit : powerOfTwo (7 * (0 + 1)) = 128 := rfl
    have whole : lowDigit value = value.toNat := by
      unfold lowDigit
      omega
    rw [spell, List.singleton_append, decodeUnsigned]
    by_cases last : bits ≤ 7
    · have byte : (UInt8.ofNat (lowDigit value)).toNat = lowDigit value := by
        rw [UInt8.toNat_ofNat']
        omega
      have below : lowDigit value < powerOfTwo bits := by omega
      rw [if_pos last, byte, if_pos below, digit_last, whole]
    · rw [if_neg last, continues_last, if_neg (by decide), digit_last, whole]
  | succ width ih =>
    have more : 7 ≤ bits := by omega
    have limit := powerOfTwo_of_seven_le more
    have limit' : powerOfTwo (7 * (width + 1 + 1)) = 128 * powerOfTwo (7 * (width + 1)) :=
      powerOfTwo_of_seven_le (by omega)
    have later : decodeUnsigned (bits - 7) (spell (width + 1) (value / 128) ++ rest) =
        .ok ((value / 128).toNat, width + 1) := by
      apply ih
      · omega
      · omega
      · omega
      · omega
    have whole := lowDigit_add value
    rw [spell, List.cons_append, decodeUnsigned, if_neg (by omega), if_pos (continues_next value),
      later, digit_next]
    simp only [Except.map, Except.ok.injEq, Prod.mk.injEq, and_true]
    omega

/-- An unsigned number is read back from its spelling, if the bytes are as many as its width takes
and it fits. -/
theorem decodeUnsigned_spell (wide : 7 * width < bits) (narrow : bits ≤ 7 * (width + 1))
    (positive : 0 ≤ value) (fits : value < powerOfTwo bits) (rest : Bytes) :
    decodeUnsigned bits (spell (width + 1) value ++ rest) = .ok (value.toNat, width + 1) := by
  have limit : powerOfTwo bits ≤ powerOfTwo (7 * (width + 1)) := powerOfTwo_le narrow
  exact decodeUnsigned_spell_of_lt wide positive fits (by omega) rest

/-- A signed number is read back from its spelling, if it fits both in these bytes and in the
width, and the width is not exhausted before the last byte. -/
theorem decodeSigned_spell_of_lt (wide : 7 * width < bits)
    (low : -(powerOfTwo (bits - 1) : Int) ≤ value) (high : value < powerOfTwo (bits - 1))
    (low' : -(powerOfTwo (7 * (width + 1) - 1) : Int) ≤ value)
    (high' : value < powerOfTwo (7 * (width + 1) - 1)) (rest : Bytes) :
    decodeSigned bits (spell (width + 1) value ++ rest) = .ok (value, width + 1) := by
  induction width generalizing value bits with
  | zero =>
    -- The sign is in the last byte, whose highest bit but one is extended.
    have limit : powerOfTwo (7 * (0 + 1) - 1) = 64 := rfl
    have whole : signedDigit (UInt8.ofNat (lowDigit value)) = value := by
      rw [signedDigit, digit_last]
      unfold lowDigit
      split <;> omega
    have ends : ¬ continues (UInt8.ofNat (lowDigit value)) = true := by
      rw [continues_last]
      decide
    rw [spell, List.singleton_append, decodeSigned]
    by_cases last : bits ≤ 7
    · rw [if_pos last, if_neg ends, whole, if_pos ⟨low, high⟩]
    · rw [if_neg last, if_neg ends, whole]
  | succ width ih =>
    have more : 7 ≤ bits - 1 := by omega
    have limit := powerOfTwo_of_seven_le more
    rw [Nat.sub_right_comm] at limit
    have limit' : powerOfTwo (7 * (width + 1 + 1) - 1) = 128 * powerOfTwo (7 * (width + 1) - 1) :=
      powerOfTwo_of_seven_le (by omega)
    have later : decodeSigned (bits - 7) (spell (width + 1) (value / 128) ++ rest) =
        .ok (value / 128, width + 1) := by
      apply ih
      · omega
      · omega
      · omega
      · omega
      · omega
    have whole := lowDigit_add value
    rw [spell, List.cons_append, decodeSigned, if_neg (by omega), if_pos (continues_next value),
      later, digit_next]
    simp only [Except.map, Except.ok.injEq, Prod.mk.injEq, and_true]
    exact whole

/-- A signed number is read back from its spelling, if the bytes are as many as its width takes and
it fits. -/
theorem decodeSigned_spell (wide : 7 * width < bits) (narrow : bits ≤ 7 * (width + 1))
    (low : -(powerOfTwo (bits - 1) : Int) ≤ value) (high : value < powerOfTwo (bits - 1))
    (rest : Bytes) :
    decodeSigned bits (spell (width + 1) value ++ rest) = .ok (value, width + 1) := by
  have limit : powerOfTwo (bits - 1) ≤ powerOfTwo (7 * (width + 1) - 1) :=
    powerOfTwo_le (by omega)
  exact decodeSigned_spell_of_lt wide low high (by omega) (by omega) rest

/-! ## Words -/

/-- A number fits in its shortest spelling. -/
theorem lt_powerOfTwo_unsignedWidth (number : Nat) :
    number < powerOfTwo (7 * unsignedWidth number) := by
  have small : number < 2 ^ (number.log2 + 1) := Nat.lt_log2_self
  have wide : number.log2 + 1 ≤ 7 * unsignedWidth number := by
    unfold unsignedWidth
    omega
  rw [powerOfTwo, Nat.one_shiftLeft]
  exact Nat.lt_of_lt_of_le small (Nat.pow_le_pow_right (by decide) wide)

/-- A number of so many bits is read back from any spelling that does not take a byte more than
they need. -/
theorem decodeUnsigned_encodeUnsigned_append {number padTo : Nat} (fits : number < powerOfTwo bits)
    (positive : 0 < bits) (short : 7 * (padTo - 1) < bits) (rest : Bytes) :
    decodeUnsigned bits (encodeUnsigned number padTo ++ rest) =
      .ok (number, (encodeUnsigned number padTo).length) := by
  have shortest := lt_powerOfTwo_unsignedWidth number
  have spelled : powerOfTwo (7 * unsignedWidth number) ≤
      powerOfTwo (7 * max padTo (unsignedWidth number)) := powerOfTwo_le (by omega)
  have log : 7 * (unsignedWidth number - 1) < bits := by
    rw [powerOfTwo, Nat.one_shiftLeft] at fits
    unfold unsignedWidth
    by_cases zero : number = 0
    · rw [zero, Nat.log2_zero]
      omega
    · have := (Nat.log2_lt zero).2 fits
      omega
  obtain ⟨width, same⟩ : ∃ width, max padTo (unsignedWidth number) = width + 1 :=
    Nat.exists_eq_add_one.2 (by unfold unsignedWidth; omega)
  rw [encodeUnsigned, length_spell, same]
  rw [same] at spelled
  exact decodeUnsigned_spell_of_lt (by omega) (Int.natCast_nonneg number) (by omega) (by omega) rest

/-- A word is read back from its shortest spelling. -/
theorem decodeUInt32_ofUInt32 (value : UInt32) (rest : Bytes) :
    decodeUInt32 (ofUInt32 value ++ rest) = .ok (value, (ofUInt32 value).length) := by
  have fits : value.toNat < powerOfTwo 32 := value.toNat_lt
  rw [decodeUInt32, ofUInt32, decodeUnsigned_encodeUnsigned_append fits (by decide) (by decide)]
  simp only [Except.map, UInt32.ofNat_toNat]

/-- A word is read back from its padded spelling. -/
theorem decodeUInt32_paddedUInt32 (value : UInt32) (rest : Bytes) :
    decodeUInt32 (paddedUInt32 value ++ rest) = .ok (value, paddedWidth32) := by
  have fits : value.toNat < powerOfTwo 32 := value.toNat_lt
  have short : 7 * (paddedWidth32 - 1) < 32 := by decide
  have size := length_paddedUInt32 value
  rw [paddedUInt32] at size ⊢
  rw [decodeUInt32, decodeUnsigned_encodeUnsigned_append fits (by decide) short, size]
  simp only [Except.map, UInt32.ofNat_toNat]

/-- A number fits with its sign in its shortest spelling. -/
theorem lt_powerOfTwo_signedWidth (value : Int) :
    -(powerOfTwo (7 * signedWidth value - 1) : Int) ≤ value ∧
      value < powerOfTwo (7 * signedWidth value - 1) := by
  have bound (magnitude : Nat) : magnitude < powerOfTwo (7 * ((magnitude.log2 + 8) / 7) - 1) := by
    have small : magnitude < 2 ^ (magnitude.log2 + 1) := Nat.lt_log2_self
    rw [powerOfTwo, Nat.one_shiftLeft]
    exact Nat.lt_of_lt_of_le small (Nat.pow_le_pow_right (by decide) (by omega))
  cases value with
  | ofNat magnitude =>
    have small := bound magnitude
    rw [signedWidth, Int.ofNat_eq_natCast]
    omega
  | negSucc magnitude =>
    have small := bound magnitude
    rw [signedWidth]
    omega

/-- A signed word is read back from its shortest spelling. -/
theorem decodeInt32_ofInt32 (value : Int32) (rest : Bytes) :
    decodeInt32 (ofInt32 value ++ rest) = .ok (value, (ofInt32 value).length) := by
  have low : -(powerOfTwo (32 - 1) : Int) ≤ value.toInt := value.le_toInt
  have high : value.toInt < (powerOfTwo (32 - 1) : Int) := value.toInt_lt
  obtain ⟨low', high'⟩ := lt_powerOfTwo_signedWidth value.toInt
  have narrow : signedWidth value.toInt ≤ 5 := signedWidth_le (by decide)
    (Int.le_trans (by decide) low) (Int.lt_of_lt_of_le high (by decide))
  obtain ⟨width, same⟩ : ∃ width, signedWidth value.toInt = width + 1 := by
    refine Nat.exists_eq_add_one.2 ?_
    unfold signedWidth
    split <;> omega
  rw [same] at low' high'
  have wide : 7 * width < 32 := by omega
  rw [ofInt32, encodeSigned, Nat.zero_max, same, decodeInt32,
    decodeSigned_spell_of_lt wide low high low' high', length_spell]
  simp only [Except.map, Int32.ofInt_toInt]

/-! ## What a number takes -/

/-- What `decode` finds takes at least one byte, and is found whatever follows these bytes. -/
def Prefixed {α : Type} (decode : Bytes → Except Defect (α × Nat)) : Prop :=
  ∀ bytes found size, decode bytes = .ok (found, size) →
    0 < size ∧ ∃ first rest, bytes = first ++ rest ∧ first.length = size ∧
      ∀ other, decode (first ++ other) = .ok (found, size)

/-- A change of what is found leaves alone what it takes. -/
theorem Prefixed.map {α β : Type} {decode : Bytes → Except Defect (α × Nat)} {change : α → β}
    (prefixed : Prefixed decode) :
    Prefixed fun bytes => (decode bytes).map fun (found, size) => (change found, size) := by
  intro bytes result size h
  obtain ⟨found, _, decoded, ⟨⟩⟩ := map_eq_ok_iff.1 h
  obtain ⟨some, first, rest, whole, length, again⟩ := prefixed bytes found size decoded
  refine ⟨some, first, rest, whole, length, fun other => ?_⟩
  exact map_eq_ok_iff.2 ⟨found, size, again other, rfl⟩

theorem prefixed_decodeUnsigned (bits : Nat) : Prefixed (decodeUnsigned bits) := by
  intro bytes found size h
  -- Where a byte continues, the bytes after it are a number of seven bits less.
  induction bytes generalizing bits found size with
  | nil => cases h
  | cons b rest ih =>
    rcases decodeUnsigned_cons_eq_ok_iff.1 h with
      ⟨ends, fits, rfl, rfl⟩ | ⟨wide, more, higher, taken, later, rfl, rfl⟩
    · refine ⟨Nat.one_pos, [b], rest, rfl, rfl, fun other => ?_⟩
      exact decodeUnsigned_cons_eq_ok_iff.2 (.inl ⟨ends, fits, rfl, rfl⟩)
    · obtain ⟨-, first, behind, whole, length, again⟩ := ih _ _ _ later
      refine ⟨Nat.succ_pos taken, b :: first, behind, ?_, ?_, fun other => ?_⟩
      · rw [whole, List.cons_append]
      · rw [List.length_cons, length]
      · exact decodeUnsigned_cons_eq_ok_iff.2
          (.inr ⟨wide, more, higher, taken, again other, rfl, rfl⟩)

theorem prefixed_decodeSigned (bits : Nat) : Prefixed (decodeSigned bits) := by
  intro bytes found size h
  induction bytes generalizing bits found size with
  | nil => cases h
  | cons b rest ih =>
    rcases decodeSigned_cons_eq_ok_iff.1 h with
      ⟨ends, fits, rfl, rfl⟩ | ⟨wide, more, higher, taken, later, rfl, rfl⟩
    · refine ⟨Nat.one_pos, [b], rest, rfl, rfl, fun other => ?_⟩
      exact decodeSigned_cons_eq_ok_iff.2 (.inl ⟨ends, fits, rfl, rfl⟩)
    · obtain ⟨-, first, behind, whole, length, again⟩ := ih _ _ _ later
      refine ⟨Nat.succ_pos taken, b :: first, behind, ?_, ?_, fun other => ?_⟩
      · rw [whole, List.cons_append]
      · rw [List.length_cons, length]
      · exact decodeSigned_cons_eq_ok_iff.2
          (.inr ⟨wide, more, higher, taken, again other, rfl, rfl⟩)

theorem prefixed_decodeUInt32 : Prefixed decodeUInt32 := (prefixed_decodeUnsigned 32).map

theorem prefixed_decodeInt32 : Prefixed decodeInt32 := (prefixed_decodeSigned 32).map

theorem prefixed_decodeInt64 : Prefixed decodeInt64 := (prefixed_decodeSigned 64).map

/-- A spelling takes a byte or more. -/
theorem length_ofUInt32_pos (value : UInt32) : 0 < (ofUInt32 value).length := by
  rw [ofUInt32, encodeUnsigned, length_spell]
  unfold unsignedWidth
  omega

end StaticLink.Leb128
