import Mathlib.Tactic.Linarith
import Mathlib.Tactic.LinearCombination
import Mathlib.Tactic.Positivity
import Mathlib.Tactic.Ring
import StaticLink.Proofs.Leb128.Numerals

/-!
# Decoding LEB128 in a word

A decoder puts the bits of one byte after the other into a word of 64 bits, and looks at the byte that
reaches the width with shifts and masks. What such a loop finds is the number by arithmetic, or the
same defect.

* `Leb128.Partial`: what a decoder holds between two bytes; `Leb128.Partial.toNat_add`: what it holds
  behind one more.
* `Leb128.unsignedLoop`, `Leb128.signedLoop`: the loops.
* `Leb128.unsignedLoop_eq`, `Leb128.signedLoop_eq`: from any state, the rest of a run is decoded as a
  number of the bits that are left.
* `Leb128.decodeUnsigned_eq_loop`, `Leb128.decodeSigned_eq_loop`: the whole run.
-/

namespace StaticLink.Leb128

variable {bits shift : Nat} {byte : UInt8} {run : Bytes}

/-- What a decoder holds between two bytes: the bits so far, how many they are, and how many bytes
they took. -/
structure Partial where
  word : BitVec 64
  shift : Nat
  taken : Nat

namespace Partial

/-- Before the first byte. -/
def start : Partial := ⟨0, 0, 0⟩

/-- The seven bits of one more byte are put above the others. -/
def add (state : Partial) (byte : UInt8) : Partial where
  word := state.word ||| ((byte &&& 0x7f).toBitVec.setWidth 64 <<< state.shift)
  shift := state.shift + 7
  taken := state.taken + 1

/-- No bit is set but those that were put there. -/
def Small (state : Partial) : Prop := state.word.toNat < 2 ^ state.shift

end Partial

/-- The bits of `word` below the `count` highest, with the highest of them as sign. -/
def extend (word : BitVec 64) (count : Nat) : BitVec 64 := (word <<< count).sshiftRight count

/-- What is wrong with a byte that reaches the width and says more than belongs to the number. -/
def excess (byte : UInt8) : Defect :=
  if byte &&& 0x80 ≠ 0 then .integerTooLong else .integerTooLarge

/-- The decoder of unsigned numbers with `bits` bits. Where a byte reaches the width, it shifts out
the bits that belong to the number. -/
def unsignedLoop (bits : Nat) (state : Partial) : Bytes → Except Defect (BitVec 64 × Nat)
  | [] => .error .unexpectedEnd
  | byte :: rest =>
    let next := state.add byte
    if bits ≤ next.shift then
      if byte.toBitVec >>> (bits - state.shift) ≠ 0 then .error (excess byte)
      else .ok (next.word, next.taken)
    else if byte &&& 0x80 = 0 then .ok (next.word, next.taken)
    else unsignedLoop bits next rest

/-- The decoder of signed numbers with `bits` bits. Where a byte reaches the width, what is left of it
without its highest bit and the bits that belong to the number has to repeat the sign. -/
def signedLoop (bits : Nat) (state : Partial) : Bytes → Except Defect (BitVec 64 × Nat)
  | [] => .error .unexpectedEnd
  | byte :: rest =>
    let next := state.add byte
    if bits ≤ next.shift then
      let beyond := (byte.toBitVec <<< 1).sshiftRight (bits - state.shift)
      if byte &&& 0x80 ≠ 0 ∨ (beyond ≠ 0 ∧ beyond ≠ -1) then
        .error (excess byte)
      else .ok (extend next.word (64 - bits), next.taken)
    else if byte &&& 0x80 = 0 then .ok (extend next.word (64 - next.shift), next.taken)
    else signedLoop bits next rest

/-! ## Tests on a byte -/

theorem and_high_eq_zero_iff : byte &&& 0x80 = 0 ↔ continues byte = false := by
  have table : ∀ number : Fin 256,
      UInt8.ofFin number &&& 0x80 = 0 ↔ continues (UInt8.ofFin number) = false := by decide +kernel
  exact table byte.toFin

theorem excess_eq : excess byte =
    if continues byte = true then .integerTooLong else .integerTooLarge := by
  simp only [excess, ne_eq, and_high_eq_zero_iff, Bool.not_eq_false]

theorem toNat_and_low : (byte &&& 0x7f).toNat = digit byte := by
  rw [UInt8.toNat_and, digit]
  exact Nat.and_two_pow_sub_one_eq_mod byte.toNat 7

/-- Nothing is left of a byte if its bits are those that are shifted out. -/
theorem shiftRight_eq_zero_iff {count : Nat} :
    byte.toBitVec >>> count = 0 ↔ byte.toNat < powerOfTwo count := by
  rw [← BitVec.toNat_inj, BitVec.toNat_ushiftRight, powerOfTwo, Nat.one_shiftLeft,
    Nat.shiftRight_eq_div_pow]
  exact Nat.div_eq_zero_iff_lt (Nat.two_pow_pos count)

/-- Without its highest bit a byte is twice its digit in two's complement. -/
theorem toInt_shiftLeft_one : (byte.toBitVec <<< 1).toInt = 2 * signedDigit byte := by
  have table : ∀ number : Fin 256, ((UInt8.ofFin number).toBitVec <<< 1).toInt =
      2 * signedDigit (UInt8.ofFin number) := by decide +kernel
  exact table byte.toFin

/-- What is left of it is the sign alone if it fits in the bits that belong to the number. -/
theorem beyond_iff {count : Nat} (some : 0 < count) :
    (byte.toBitVec <<< 1).sshiftRight count = 0 ∨ (byte.toBitVec <<< 1).sshiftRight count = -1 ↔
      -powerOfTwo (count - 1) ≤ signedDigit byte ∧ signedDigit byte < powerOfTwo (count - 1) := by
  have limit : powerOfTwo count = 2 * powerOfTwo (count - 1) := by
    rw [← powerOfTwo_succ, Nat.sub_add_cancel some]
  have positive := powerOfTwo_pos (count - 1)
  have value : ((byte.toBitVec <<< 1).sshiftRight count).toInt =
      2 * signedDigit byte / powerOfTwo count := by
    rw [BitVec.toInt_sshiftRight, toInt_shiftLeft_one, Int.shiftRight_eq_div_pow, powerOfTwo,
      Nat.one_shiftLeft]
  rw [← BitVec.toInt_inj, ← BitVec.toInt_inj, value, limit, Nat.cast_mul, Nat.cast_two,
    Int.mul_ediv_mul_of_pos _ _ (by decide)]
  have ends : (0#8).toInt = 0 ∧ (-1#8).toInt = -1 := by decide
  show signedDigit byte / _ = (0#8).toInt ∨ signedDigit byte / _ = (-1#8).toInt ↔ _
  rw [ends.1, ends.2, Int.ediv_eq_iff_of_pos (by omega), Int.ediv_eq_iff_of_pos (by omega)]
  omega

/-! ## Words -/

/-- A byte puts its digit above the bits so far, as far as there is room for it. -/
theorem Partial.toNat_add {state : Partial} (small : state.Small) (room : state.shift ≤ 64) :
    (state.add byte).word.toNat = (state.word.toNat + digit byte * 2 ^ state.shift) % 2 ^ 64 := by
  have place : 2 ^ 64 = 2 ^ (64 - state.shift) * 2 ^ state.shift := by
    rw [← Nat.pow_add, Nat.sub_add_cancel room]
  have digit' : ((byte &&& 0x7f).toBitVec.setWidth 64).toNat = digit byte := by
    rw [BitVec.toNat_setWidth, UInt8.toNat_toBitVec, toNat_and_low]
    exact Nat.mod_eq_of_lt (Nat.lt_trans (digit_lt byte) (by decide))
  -- What does not fit is a multiple of the place, so that the bits below it are not touched.
  have high : digit byte * 2 ^ state.shift % 2 ^ 64 =
      (digit byte % 2 ^ (64 - state.shift)) <<< state.shift := by
    rw [place, Nat.mul_mod_mul_right, Nat.shiftLeft_eq]
  have fits : (digit byte % 2 ^ (64 - state.shift)) <<< state.shift + state.word.toNat < 2 ^ 64 := by
    have below := Nat.mod_lt (digit byte) (Nat.two_pow_pos (64 - state.shift))
    have step := Nat.mul_le_mul_right (2 ^ state.shift) below
    rw [place, Nat.shiftLeft_eq]
    rw [Nat.succ_mul] at step
    exact Nat.lt_of_lt_of_le (Nat.add_lt_add_left small _) step
  calc (state.add byte).word.toNat
      = state.word.toNat ||| (digit byte % 2 ^ (64 - state.shift)) <<< state.shift := by
        rw [Partial.add, BitVec.toNat_or, BitVec.toNat_shiftLeft, digit', Nat.shiftLeft_eq, high]
    _ = ((digit byte % 2 ^ (64 - state.shift)) <<< state.shift + state.word.toNat) % 2 ^ 64 := by
        rw [Nat.or_comm, ← Nat.shiftLeft_add_eq_or_of_lt small, Nat.mod_eq_of_lt fits]
    _ = (state.word.toNat + digit byte * 2 ^ state.shift) % 2 ^ 64 := by
        rw [← high, Nat.mod_add_mod, Nat.add_comm]

/-- Where there is room for the byte, the word is the number so far. -/
theorem Partial.toNat_add_of_le {state : Partial} (small : state.Small)
    (room : state.word.toNat + digit byte * 2 ^ state.shift < 2 ^ 64) (le : state.shift ≤ 64) :
    (state.add byte).word.toNat = state.word.toNat + digit byte * 2 ^ state.shift := by
  rw [toNat_add small le, Nat.mod_eq_of_lt room]

theorem add_lt {low place : Nat} (small : low < 2 ^ place) {count number : Nat}
    (below : number < 2 ^ count) : low + number * 2 ^ place < 2 ^ (place + count) := by
  have step := Nat.mul_le_mul_right (2 ^ place) below
  rw [Nat.succ_mul] at step
  rw [Nat.pow_add, Nat.mul_comm (2 ^ place)]
  omega

/-- If two words agree below the bits that are lost, then the number with its sign is what is left. -/
theorem toInt_extend {word : BitVec 64} {count width : Nat} {number rounds : Int}
    (all : width + count = 64) (agree : (word.toNat : Int) = number + 2 ^ width * rounds)
    (low : -2 ^ width ≤ 2 * number) (high : 2 * number < 2 ^ width) :
    (extend word count).toInt = number := by
  have place : (2 : Int) ^ 64 = 2 ^ width * 2 ^ count := by rw [← pow_add, all]
  have positive : (0 : Int) < 2 ^ count := by positivity
  have shifted : (↑(word.toNat <<< count) : Int) = number * 2 ^ count + 2 ^ 64 * rounds := by
    rw [Nat.shiftLeft_eq, Nat.cast_mul, agree, place]
    push_cast
    ring
  have least : -2 ^ 64 ≤ 2 * (number * 2 ^ count) := by
    rw [place]
    nlinarith
  have greatest : 2 * (number * 2 ^ count) < 2 ^ 64 := by
    rw [place]
    nlinarith
  rw [extend, BitVec.toInt_sshiftRight, BitVec.toInt_shiftLeft, shifted, Int.shiftRight_eq_div_pow]
  have cycle : (2 : Int) ^ 64 = (2 ^ 64 : Nat) := by norm_num
  rw [cycle, Int.add_mul_bmod_self_left, Int.bmod_eq_of_le (by omega) (by omega)]
  push_cast
  exact Int.mul_ediv_cancel _ positive.ne'

/-! ## Rounds -/

variable {state : Partial}

/-- What a decoder holds behind a byte that does not reach the width. -/
theorem Partial.Small.add (small : state.Small) (room : state.shift + 7 ≤ 64) (byte : UInt8) :
    (state.add byte).Small ∧
      (state.add byte).word.toNat = state.word.toNat + digit byte * 2 ^ state.shift := by
  have below : state.word.toNat + digit byte * 2 ^ state.shift < 2 ^ (state.shift + 7) :=
    add_lt small (digit_lt byte)
  have fits := Nat.lt_of_lt_of_le below (Nat.pow_le_pow_right Nat.two_pos room)
  have word := toNat_add_of_le small fits (by omega)
  exact ⟨by rw [Small, word]; exact below, word⟩

/-- Below the bits that are lost, a digit and its number in two's complement are the same. -/
theorem Partial.Small.exists_toNat_add_eq (small : state.Small) (byte : UInt8)
    (room : state.shift ≤ 64) {width : Nat} (within : width ≤ state.shift + 7)
    (fits : width ≤ 64) :
    ∃ rounds : Int, ((state.add byte).word.toNat : Int) =
      state.word.toNat + signedDigit byte * 2 ^ state.shift + 2 ^ width * rounds := by
  obtain ⟨sign, digit'⟩ : ∃ sign : Int, (digit byte : Int) = signedDigit byte + 128 * sign := by
    unfold signedDigit
    split
    · exact ⟨0, by omega⟩
    · exact ⟨1, by omega⟩
  have lost : (2 : Int) ^ 64 = 2 ^ width * 2 ^ (64 - width) := by
    rw [← pow_add, Nat.add_sub_cancel' fits]
  have above : (128 : Int) * 2 ^ state.shift = 2 ^ width * 2 ^ (state.shift + 7 - width) := by
    rw [← pow_add, Nat.add_sub_cancel' within, pow_add]
    ring
  obtain ⟨total, same⟩ : ∃ total, total = state.word.toNat + digit byte * 2 ^ state.shift :=
    ⟨_, rfl⟩
  have split : (total % 2 ^ 64 : Nat) + (2 : Int) ^ 64 * (total / 2 ^ 64 : Nat) = total := by
    exact_mod_cast Nat.mod_add_div total (2 ^ 64)
  rw [toNat_add small room, ← same]
  -- What differs is the sign above the digit, and what does not fit in the word.
  refine ⟨sign * 2 ^ (state.shift + 7 - width) - 2 ^ (64 - width) * (total / 2 ^ 64 : Nat), ?_⟩
  zify at same
  linear_combination split + same + 2 ^ state.shift * digit' + sign * above -
    (total / 2 ^ 64 : Nat) * lost

/-- A byte that ends a number has the sign in the highest of its bits that belong to the number. -/
theorem Partial.Small.toInt_extend_add (small : state.Small) {count : Nat} (seven : count ≤ 6)
    (room : state.shift + (count + 1) ≤ 64) (low : -(powerOfTwo count : Int) ≤ signedDigit byte)
    (high : signedDigit byte < powerOfTwo count) :
    (extend (state.add byte).word (64 - (state.shift + (count + 1)))).toInt =
      state.word.toNat + signedDigit byte * 2 ^ state.shift := by
  obtain ⟨rounds, agree⟩ := small.exists_toNat_add_eq byte
    (show state.shift ≤ 64 by omega) (show state.shift + (count + 1) ≤ state.shift + 7 by omega) room
  have below : (state.word.toNat : Int) < 2 ^ state.shift := by exact_mod_cast small
  have all : (2 : Int) ^ (state.shift + (count + 1)) = 2 * (2 ^ count * 2 ^ state.shift) := by
    rw [pow_add, pow_succ]
    ring
  have place : (0 : Int) < 2 ^ state.shift := by positivity
  rw [powerOfTwo, Nat.one_shiftLeft, Nat.cast_pow, Nat.cast_two] at low high
  refine toInt_extend (by omega) agree ?_ ?_
  · rw [all]
    nlinarith
  · rw [all]
    nlinarith

theorem unsignedLoop_last (last : bits ≤ state.shift + 7) :
    unsignedLoop bits state (byte :: run) =
      if byte.toNat < powerOfTwo (bits - state.shift) then
        .ok ((state.add byte).word, state.taken + 1)
      else if continues byte = true then .error .integerTooLong else .error .integerTooLarge := by
  have reached : bits ≤ (state.add byte).shift := last
  rw [unsignedLoop, if_pos reached, excess_eq]
  simp only [ne_eq, shiftRight_eq_zero_iff, ite_not]
  split
  · rfl
  · split <;> rfl

theorem unsignedLoop_next (wide : ¬ bits ≤ state.shift + 7) :
    unsignedLoop bits state (byte :: run) =
      if continues byte = true then unsignedLoop bits (state.add byte) run
      else .ok ((state.add byte).word, state.taken + 1) := by
  have within : ¬ bits ≤ (state.add byte).shift := wide
  rw [unsignedLoop, if_neg within]
  simp only [and_high_eq_zero_iff]
  cases continues byte <;> rfl

theorem signedLoop_last (more : state.shift < bits) (last : bits ≤ state.shift + 7) :
    signedLoop bits state (byte :: run) =
      if continues byte = true then .error .integerTooLong
      else if -powerOfTwo (bits - state.shift - 1) ≤ signedDigit byte ∧
          signedDigit byte < powerOfTwo (bits - state.shift - 1) then
        .ok (extend (state.add byte).word (64 - bits), state.taken + 1)
      else .error .integerTooLarge := by
  have reached : bits ≤ (state.add byte).shift := last
  rw [signedLoop, if_pos reached, excess_eq]
  simp only [ne_eq, and_high_eq_zero_iff, ← not_or, beyond_iff (Nat.sub_pos_of_lt more)]
  cases continues byte
  · simp only [not_true_eq_false, false_or, ite_not]
    rfl
  · rfl

theorem signedLoop_next (wide : ¬ bits ≤ state.shift + 7) :
    signedLoop bits state (byte :: run) =
      if continues byte = true then signedLoop bits (state.add byte) run
      else .ok (extend (state.add byte).word (64 - (state.shift + 7)), state.taken + 1) := by
  have within : ¬ bits ≤ (state.add byte).shift := wide
  rw [signedLoop, if_neg within]
  simp only [and_high_eq_zero_iff]
  cases continues byte <;> rfl

/-! ## Runs -/

/-- A byte leaves seven bits less. -/
theorem sub_shift_add : bits - (state.add byte).shift = bits - state.shift - 7 := by
  rw [Nat.sub_sub]
  rfl

/-- The higher bits of a number stand above the digit of a byte, which stands above the bits so far. -/
theorem map_higher {α : Type} [CommSemiring α] (higher : Except Defect (α × Nat)) (low digit : α)
    (shift taken : Nat) :
    (higher.map fun (value, size) =>
        (low + digit * 2 ^ shift + value * 2 ^ (shift + 7), taken + 1 + size)) =
      (higher.map fun (value, size) => (digit + 128 * value, size + 1)).map
        fun (value, size) => (low + value * 2 ^ shift, taken + size) := by
  rcases higher with defect | ⟨value, size⟩
  · rfl
  · refine congrArg Except.ok (Prod.ext ?_ ?_)
    · show low + digit * 2 ^ shift + value * 2 ^ (shift + 7) =
        low + (digit + 128 * value) * 2 ^ shift
      ring
    · show taken + 1 + size = taken + (size + 1)
      omega

/-- From any state, the rest of a run is decoded as a number of the bits that are left. -/
theorem unsignedLoop_eq (small : state.Small) (more : state.shift < bits) (wide : bits ≤ 64) :
    (unsignedLoop bits state run).map (fun (word, taken) => (word.toNat, taken)) =
      (decodeUnsigned (bits - state.shift) run).map fun (value, size) =>
        (state.word.toNat + value * 2 ^ state.shift, state.taken + size) := by
  -- The state changes with every byte, and `Small` is what each byte keeps.
  induction run generalizing state with
  | nil => rfl
  | cons byte rest ih =>
    rw [decodeUnsigned]
    by_cases last : bits ≤ state.shift + 7
    · rw [unsignedLoop_last last, if_pos (show bits - state.shift ≤ 7 by omega)]
      by_cases fits : byte.toNat < powerOfTwo (bits - state.shift)
      · rw [if_pos fits, if_pos fits]
        -- All bits of the byte have room in the word.
        rw [powerOfTwo, Nat.one_shiftLeft] at fits
        have below := add_lt small (Nat.lt_of_le_of_lt (Nat.mod_le byte.toNat 128) fits)
        rw [Nat.add_sub_cancel' (Nat.le_of_lt more)] at below
        have room := Nat.lt_of_lt_of_le below (Nat.pow_le_pow_right Nat.two_pos wide)
        have word := Partial.toNat_add_of_le small room (by omega)
        exact congrArg (fun number => Except.ok (number, state.taken + 1)) word
      · rw [if_neg fits, if_neg fits]
        split <;> rfl
    · obtain ⟨small', word⟩ := small.add (show state.shift + 7 ≤ 64 by omega) byte
      rw [unsignedLoop_next last, if_neg (show ¬ bits - state.shift ≤ 7 by omega)]
      cases continues byte
      · exact congrArg (fun number => Except.ok (number, state.taken + 1)) word
      · rw [if_pos rfl, if_pos rfl, ih small' (Nat.lt_of_not_le last), word]
        rw [sub_shift_add]
        exact map_higher _ _ _ _ _

/-- The same for numbers with a sign, which is in the byte that ends the number. -/
theorem signedLoop_eq (small : state.Small) (more : state.shift < bits) (wide : bits ≤ 64) :
    (signedLoop bits state run).map (fun (word, taken) => (word.toInt, taken)) =
      (decodeSigned (bits - state.shift) run).map fun (value, size) =>
        (state.word.toNat + value * 2 ^ state.shift, state.taken + size) := by
  induction run generalizing state with
  | nil => rfl
  | cons byte rest ih =>
    rw [decodeSigned]
    by_cases last : bits ≤ state.shift + 7
    · obtain ⟨count, left⟩ : ∃ count, bits - state.shift = count + 1 :=
        Nat.exists_eq_add_one.2 (by omega)
      have whole : bits = state.shift + (count + 1) := by omega
      rw [signedLoop_last more last, if_pos (show bits - state.shift ≤ 7 by omega), left,
        Nat.add_sub_cancel]
      cases continues byte
      · simp only [Bool.false_eq_true, if_false]
        by_cases fits : -powerOfTwo count ≤ signedDigit byte ∧ signedDigit byte < powerOfTwo count
        · rw [if_pos fits, if_pos fits]
          have word := small.toInt_extend_add (by omega) (whole ▸ wide) fits.1 fits.2
          rw [← whole] at word
          exact congrArg (fun number => Except.ok (number, state.taken + 1)) word
        · rw [if_neg fits, if_neg fits]
          rfl
      · rfl
    · rw [signedLoop_next last, if_neg (show ¬ bits - state.shift ≤ 7 by omega)]
      cases continues byte
      · -- The byte ends the number before the width is reached.
        obtain ⟨low, high⟩ := signedDigit_bounds byte
        have word := small.toInt_extend_add (Nat.le_refl 6)
          (show state.shift + (6 + 1) ≤ 64 by omega) low high
        exact congrArg (fun number => Except.ok (number, state.taken + 1)) word
      · obtain ⟨small', word⟩ := small.add (show state.shift + 7 ≤ 64 by omega) byte
        rw [if_pos rfl, if_pos rfl, ih small' (Nat.lt_of_not_le last), word]
        rw [sub_shift_add, Nat.cast_add, Nat.cast_mul, Nat.cast_pow, Nat.cast_two]
        exact map_higher _ _ _ _ _

/-- The loop that decodes unsigned numbers finds the same number in as many bytes, or the same defect. -/
theorem decodeUnsigned_eq_loop (positive : 0 < bits) (wide : bits ≤ 64) (run : Bytes) :
    decodeUnsigned bits run =
      (unsignedLoop bits .start run).map fun (word, taken) => (word.toNat, taken) := by
  have small : Partial.start.Small := Nat.zero_lt_one
  have left : bits - Partial.start.shift = bits := rfl
  rw [unsignedLoop_eq small positive wide, left]
  cases decodeUnsigned bits run <;> simp [Partial.start, Except.map]

/-- So does the loop for numbers with a sign. -/
theorem decodeSigned_eq_loop (positive : 0 < bits) (wide : bits ≤ 64) (run : Bytes) :
    decodeSigned bits run =
      (signedLoop bits .start run).map fun (word, taken) => (word.toInt, taken) := by
  have small : Partial.start.Small := Nat.zero_lt_one
  have left : bits - Partial.start.shift = bits := rfl
  rw [signedLoop_eq small positive wide, left]
  cases decodeSigned bits run <;> simp [Partial.start, Except.map]

end StaticLink.Leb128
