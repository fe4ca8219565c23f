import StaticLink.Proofs.Grammar.Numbers

/-!
# What a decoder answers

A number ends with the first byte that says that no other follows. A decoder answers with what the
bytes up to there stand for, if they are no more than its width takes and the number fits, and
otherwise says what is wrong.

* `Leb128.IsNumeral`, `Leb128.numeralSize?`: the bytes of one number, and how many of them some
  bytes start with.
* `Leb128.outcome`: what is to be answered, in terms of these bytes and of what they stand for.
* `Leb128.decodeUnsigned_eq_outcome`, `Leb128.decodeSigned_eq_outcome`: numbers of any width.
* `Leb128.Decides`, `Leb128.decoders_decide`: words and long words.
-/

namespace StaticLink.Leb128

variable {α β : Type} {bits limit size : Nat} {run : Bytes} {b : UInt8} {value : Bytes → Int}
  {low high number : Int}

/-! ## The bytes of one number -/

/-- The bytes of one number: each but the last says that another one follows. -/
inductive IsNumeral : Bytes → Prop
  | last {b : UInt8} (ends : continues b = false) : IsNumeral [b]
  | more {b : UInt8} {rest : Bytes} (more : continues b = true) (numeral : IsNumeral rest) :
    IsNumeral (b :: rest)

/-- How many bytes the number at the start of `run` takes, if it ends within the first `limit`. -/
def numeralSize? (limit : Nat) (run : Bytes) : Option Nat :=
  ((run.take limit).findIdx? fun b => !continues b).map (· + 1)

theorem numeralSize?_of_ends (ends : continues b = false) :
    numeralSize? (limit + 1) (b :: run) = some 1 := by
  simp [numeralSize?, List.findIdx?_cons, ends]

theorem numeralSize?_of_continues (more : continues b = true) :
    numeralSize? (limit + 1) (b :: run) = (numeralSize? limit run).map (· + 1) := by
  simp [numeralSize?, List.findIdx?_cons, more]

/-- A number is found whatever follows it. -/
theorem IsNumeral.numeralSize?_append (numeral : IsNumeral run) (short : run.length ≤ limit)
    (rest : Bytes) : numeralSize? limit (run ++ rest) = some run.length := by
  induction numeral generalizing limit with
  | last ends =>
    obtain ⟨limit, rfl⟩ := Nat.exists_eq_add_one.2 short
    exact numeralSize?_of_ends ends
  | more more numeral ih =>
    obtain ⟨limit, rfl⟩ := Nat.exists_eq_add_one.2 (Nat.lt_of_lt_of_le (Nat.succ_pos _) short)
    rw [List.cons_append, numeralSize?_of_continues more, ih (Nat.le_of_succ_le_succ short)]
    rfl

/-- What is found is a number. -/
theorem isNumeral_of_numeralSize? (found : numeralSize? limit run = some size) :
    size ≤ limit ∧ size ≤ run.length ∧ IsNumeral (run.take size) := by
  induction limit generalizing run size with
  | zero => cases found
  | succ limit ih =>
    cases run with
    | nil => cases found
    | cons b run =>
      rcases next : continues b
      · rw [numeralSize?_of_ends next] at found
        cases found
        exact ⟨Nat.le_add_left 1 limit, Nat.le_add_left 1 _, .last next⟩
      · rw [numeralSize?_of_continues next] at found
        obtain ⟨size, later, rfl⟩ := Option.map_eq_some_iff.1 found
        obtain ⟨few, within, numeral⟩ := ih later
        exact ⟨Nat.succ_le_succ few, Nat.succ_le_succ within, .more next numeral⟩

/-! ## What bytes stand for -/

theorem unsignedValue_lt (run : Bytes) : unsignedValue run < powerOfTwo (7 * run.length) := by
  induction run with
  | nil => exact Nat.one_pos
  | cons b run ih =>
    have small := digit_lt b
    have limit : powerOfTwo (7 * (run.length + 1)) = 128 * powerOfTwo (7 * run.length) :=
      powerOfTwo_of_seven_le (by omega)
    rw [unsignedValue, List.length_cons, limit]
    omega

theorem signedValue_bounds (b : UInt8) (run : Bytes) :
    -(powerOfTwo (7 * run.length + 6) : Int) ≤ signedValue (b :: run) ∧
      signedValue (b :: run) < powerOfTwo (7 * run.length + 6) := by
  induction run generalizing b with
  | nil => exact signedDigit_bounds b
  | cons c run ih =>
    have small := digit_lt b
    have step : signedValue (b :: c :: run) = digit b + 128 * signedValue (c :: run) := rfl
    have limit : powerOfTwo (7 * (run.length + 1) + 6) = 128 * powerOfTwo (7 * run.length + 6) :=
      powerOfTwo_of_seven_le (by omega)
    obtain ⟨least, most⟩ := ih c
    rw [step, List.length_cons, limit]
    omega

/-- Only behind the last byte is there nothing that the sign could come from. -/
theorem signedValue_cons (b : UInt8) {rest : Bytes} (numeral : IsNumeral rest) :
    signedValue (b :: rest) = digit b + 128 * signedValue rest := by
  cases numeral with
  | last => rfl
  | more => rfl

/-- With a sign the bytes stand for the same up to a multiple of what they have room for. -/
theorem exists_unsignedValue_eq (run : Bytes) :
    ∃ turns : Int, (unsignedValue run : Int) =
      signedValue run + powerOfTwo (7 * run.length) * turns := by
  induction run with
  | nil => exact ⟨0, rfl⟩
  | cons b run ih =>
    cases run with
    | nil =>
      have limit : powerOfTwo (7 * [b].length) = 128 := rfl
      have unsigned : unsignedValue [b] = digit b := rfl
      have signed : signedValue [b] = signedDigit b := rfl
      rw [limit, unsigned, signed, signedDigit]
      split
      · exact ⟨0, by omega⟩
      · exact ⟨1, by omega⟩
    | cons c run =>
      obtain ⟨turns, same⟩ := ih
      have limit : powerOfTwo (7 * (b :: c :: run).length) =
          128 * powerOfTwo (7 * (c :: run).length) := by
        refine powerOfTwo_of_seven_le ?_
        rw [List.length_cons]
        omega
      have unsigned : unsignedValue (b :: c :: run) = digit b + 128 * unsignedValue (c :: run) :=
        rfl
      have signed : signedValue (b :: c :: run) = digit b + 128 * signedValue (c :: run) := rfl
      refine ⟨turns, ?_⟩
      rw [limit, unsigned, signed, Int.natCast_add, Int.natCast_mul, Int.natCast_mul, same,
        Int.mul_add, Int.mul_assoc, Int.add_assoc]
      rfl

/-- What bytes stand for with a sign is what they stand for without one, extended from the highest
of their bits. -/
theorem signedValue_eq_bmod (run : Bytes) :
    signedValue run = Int.bmod (unsignedValue run) (powerOfTwo (7 * run.length)) := by
  obtain ⟨turns, same⟩ := exists_unsignedValue_eq run
  rw [same, Int.add_mul_bmod_self_left]
  cases run with
  | nil => rfl
  | cons b run =>
    obtain ⟨least, most⟩ := signedValue_bounds b run
    have half : powerOfTwo (7 * (b :: run).length) = 2 * powerOfTwo (7 * run.length + 6) := by
      rw [← powerOfTwo_succ, List.length_cons]
      rfl
    rw [half]
    exact (Int.bmod_eq_of_le (by omega) (by omega)).symm

/-! ## What is to be answered -/

/-- What is to be answered where numbers from `low` on and below `high` are read from `limit` bytes
or fewer, and bytes stand for what `value` says. -/
def outcome (value : Bytes → Int) (limit : Nat) (low high : Int) (run : Bytes) :
    Except Defect (Int × Nat) :=
  match numeralSize? limit run with
  | some size =>
    let number := value (run.take size)
    if low ≤ number ∧ number < high then .ok (number, size) else .error .integerTooLarge
  | none => .error (if limit ≤ run.length then .integerTooLong else .unexpectedEnd)

theorem outcome_of_numeralSize? (found : numeralSize? limit run = some size) :
    outcome value limit low high run =
      if low ≤ value (run.take size) ∧ value (run.take size) < high then
        .ok (value (run.take size), size)
      else .error .integerTooLarge := by
  rw [outcome, found]

theorem outcome_nil (some : 0 < limit) :
    outcome value limit low high [] = .error .unexpectedEnd := by
  have none : numeralSize? limit [] = none := by rw [numeralSize?, List.take_nil]; rfl
  have few : ¬ limit ≤ ([] : Bytes).length := Nat.not_le_of_lt some
  rw [outcome, none]
  simp only [if_neg few]

/-- The first byte is the last one. -/
theorem outcome_of_ends (ends : continues b = false) :
    outcome value (limit + 1) low high (b :: run) =
      if low ≤ value [b] ∧ value [b] < high then .ok (value [b], 1)
      else .error .integerTooLarge :=
  outcome_of_numeralSize? (numeralSize?_of_ends ends)

/-- The first byte should be the last one and is not. -/
theorem outcome_of_continues (more : continues b = true) :
    outcome value 1 low high (b :: run) = .error .integerTooLong := by
  have none : numeralSize? 1 (b :: run) = none := by
    rw [numeralSize?_of_continues more]
    rfl
  have enough : 1 ≤ (b :: run).length := Nat.le_add_left 1 _
  rw [outcome, none]
  simp only [if_pos enough]

/-- The number goes on behind the first byte: the bytes after it are a number of seven bits less. -/
theorem outcome_step (more : continues b = true)
    (step : ∀ rest, IsNumeral rest → value (b :: rest) = digit b + 128 * value rest) :
    outcome value (limit + 1) (128 * low) (128 * high) (b :: run) =
      (outcome value limit low high run).map fun (number, size) =>
        (digit b + 128 * number, size + 1) := by
  have small := digit_lt b
  rcases found : numeralSize? limit run with _ | size
  · have none : numeralSize? (limit + 1) (b :: run) = none := by
      rw [numeralSize?_of_continues more, found]
      rfl
    rw [outcome, outcome, none, found, List.length_cons]
    simp only [Except.map, Nat.add_le_add_iff_right]
  · have found' : numeralSize? (limit + 1) (b :: run) = some (size + 1) := by
      rw [numeralSize?_of_continues more, found]
      rfl
    rw [outcome_of_numeralSize? found', outcome_of_numeralSize? found, List.take_succ_cons,
      step _ (isNumeral_of_numeralSize? found).2.2]
    by_cases fits : low ≤ value (run.take size) ∧ value (run.take size) < high
    · rw [if_pos fits, if_pos (by omega)]
      rfl
    · rw [if_neg fits, if_neg (by omega)]
      rfl

/-- What is answered is in the range. -/
theorem bounds_of_outcome (h : outcome value limit low high run = .ok (number, size)) :
    low ≤ number ∧ number < high := by
  unfold outcome at h
  split at h
  · dsimp only at h
    split at h
    · next fits =>
      cases h
      exact fits
    · cases h
  · cases h

/-- What is behind a number makes no difference. -/
theorem outcome_take_append (found : numeralSize? limit run = some size) (rest : Bytes) :
    outcome value limit low high (run.take size ++ rest) = outcome value limit low high run := by
  obtain ⟨few, within, numeral⟩ := isNumeral_of_numeralSize? found
  have length : (run.take size).length = size := List.length_take_of_le within
  have again : numeralSize? limit (run.take size ++ rest) = some (run.take size).length :=
    numeral.numeralSize?_append (by omega) rest
  rw [length] at again
  rw [outcome_of_numeralSize? again, outcome_of_numeralSize? found, List.take_left' length]

/-! ## Numbers of any width -/

/-- How many bytes a number of seven bits more takes. -/
theorem limit_step (wide : ¬ bits ≤ 7) : (bits + 6) / 7 = (bits - 7 + 6) / 7 + 1 := by omega

theorem limit_one (positive : 0 < bits) (narrow : bits ≤ 7) : (bits + 6) / 7 = 1 := by omega

/-- Seven bits or fewer are those of one byte. -/
theorem decodeUnsigned_narrow (narrow : bits ≤ 7) (b : UInt8) (run : Bytes) :
    (decodeUnsigned bits (b :: run)).map (Prod.map Nat.cast id) =
      outcome (fun run => unsignedValue run) 1 0 (powerOfTwo bits) (b :: run) := by
  have limit := powerOfTwo_le narrow
  have seven : powerOfTwo 7 = 128 := rfl
  have single : unsignedValue [b] = digit b := rfl
  rw [decodeUnsigned, if_pos narrow]
  rcases next : continues b
  · -- The byte is the last one, and its digit is all of it.
    have whole : b.toNat < 128 := by simpa [continues] using next
    have same : b.toNat = digit b := (Nat.mod_eq_of_lt whole).symm
    rw [outcome_of_ends next, single, same]
    by_cases fits : digit b < powerOfTwo bits
    · rw [if_pos fits, if_pos (by omega)]
      rfl
    · rw [if_neg fits, if_neg (by decide), if_neg (by omega)]
      rfl
  · have large : 128 ≤ b.toNat := by simpa [continues] using next
    rw [outcome_of_continues next, if_neg (by omega), if_pos rfl]
    rfl

theorem decodeUnsigned_eq_outcome (positive : 0 < bits) (run : Bytes) :
    (decodeUnsigned bits run).map (Prod.map Nat.cast id) =
      outcome (fun run => unsignedValue run) ((bits + 6) / 7) 0 (powerOfTwo bits) run := by
  induction run generalizing bits with
  | nil => exact (outcome_nil (by omega)).symm
  | cons b run ih =>
    by_cases narrow : bits ≤ 7
    · rw [limit_one positive narrow]
      exact decodeUnsigned_narrow narrow b run
    · have small := digit_lt b
      have single : unsignedValue [b] = digit b := rfl
      have limit := @powerOfTwo_of_seven_le bits (by omega)
      have some := powerOfTwo_pos (bits - 7)
      rw [decodeUnsigned, if_neg narrow, limit_step narrow]
      rcases next : continues b
      · rw [outcome_of_ends next, single, if_neg (by decide), if_pos (by omega)]
        rfl
      · have high : (powerOfTwo bits : Int) = 128 * powerOfTwo (bits - 7) := by omega
        have step (rest : Bytes) : ((unsignedValue (b :: rest) : Nat) : Int) =
            digit b + 128 * (unsignedValue rest : Nat) := by
          simp [unsignedValue]
        rw [if_pos rfl, high, ← Int.mul_zero 128, outcome_step next fun rest _ => step rest,
          ← ih (by omega)]
        rcases decodeUnsigned (bits - 7) run with defect | ⟨number, size⟩
        · rfl
        · rfl

theorem decodeSigned_eq_outcome (positive : 0 < bits) (run : Bytes) :
    decodeSigned bits run =
      outcome signedValue ((bits + 6) / 7) (-powerOfTwo (bits - 1)) (powerOfTwo (bits - 1))
        run := by
  induction run generalizing bits with
  | nil => exact (outcome_nil (by omega)).symm
  | cons b run ih =>
    have bounds := signedDigit_bounds b
    have single : signedValue [b] = signedDigit b := rfl
    rw [decodeSigned]
    by_cases narrow : bits ≤ 7
    · rw [if_pos narrow, limit_one positive narrow]
      rcases next : continues b
      · rw [outcome_of_ends next, single, if_neg (by decide)]
      · rw [outcome_of_continues next, if_pos rfl]
    · have limit := @powerOfTwo_of_seven_le (bits - 1) (by omega)
      rw [Nat.sub_right_comm] at limit
      have some := powerOfTwo_pos (bits - 7 - 1)
      rw [if_neg narrow, limit_step narrow]
      rcases next : continues b
      · rw [outcome_of_ends next, single, if_neg (by decide), if_pos (by omega)]
      · have low : (-powerOfTwo (bits - 1) : Int) = 128 * -powerOfTwo (bits - 7 - 1) := by omega
        have high : (powerOfTwo (bits - 1) : Int) = 128 * powerOfTwo (bits - 7 - 1) := by omega
        rw [if_pos rfl, low, high, outcome_step next fun _ => signedValue_cons b, ← ih (by omega)]

/-- The number that is found is given as it is. -/
theorem map_decodeSigned_eq_outcome (positive : 0 < bits) (run : Bytes) :
    (decodeSigned bits run).map (Prod.map id id) =
      outcome signedValue ((bits + 6) / 7) (-powerOfTwo (bits - 1)) (powerOfTwo (bits - 1))
        run := by
  rw [Prod.map_id, Except.map_id]
  exact decodeSigned_eq_outcome positive run

/-! ## Words and long words -/

/-- Numbers from `low` on and below `high` are decoded from `limit` bytes or fewer, which stand for
what `value` says. -/
structure Decides (decode : Bytes → Except Defect (α × Nat)) (toInt : α → Int)
    (value : Bytes → Int) (limit : Nat) (low high : Int) : Prop where
  answers : ∀ run, (decode run).map (Prod.map toInt id) = outcome value limit low high run
  /-- What is behind a number makes no difference. -/
  unread : ∀ run size, numeralSize? limit run = some size → ∀ rest,
    decode (run.take size ++ rest) = decode run

/-- Answers that look the same are the same. -/
theorem map_toInt_injective {toInt : α → Int} (injective : Function.Injective toInt)
    {first second : Except Defect (α × Nat)}
    (same : first.map (Prod.map toInt id) = second.map (Prod.map toInt id)) : first = second := by
  rcases first with defect | ⟨found, size⟩ <;> rcases second with defect' | ⟨found', size'⟩
  · cases same
    rfl
  · cases same
  · cases same
  · obtain ⟨values, sizes⟩ := Prod.mk.inj (Except.ok.inj same)
    exact congrArg Except.ok (Prod.ext (injective values) sizes)

/-- A number that is in the range is not changed when it is made a word. -/
theorem decides_of_eq_outcome {decode : Bytes → Except Defect (β × Nat)} {wide : β → Int}
    {toInt : α → Int} {narrow : β → α}
    (answers : ∀ run, (decode run).map (Prod.map wide id) = outcome value limit low high run)
    (kept : ∀ found, low ≤ wide found → wide found < high → toInt (narrow found) = wide found)
    (injective : Function.Injective toInt) :
    Decides (fun run => (decode run).map fun (found, size) => (narrow found, size)) toInt value
      limit low high := by
  have answers' (run : Bytes) : ((decode run).map fun (found, size) => (narrow found, size)).map
      (Prod.map toInt id) = outcome value limit low high run := by
    have answer := answers run
    rcases decoded : decode run with defect | ⟨found, size⟩
    · rw [decoded] at answer
      exact answer
    · rw [decoded] at answer
      obtain ⟨least, most⟩ := bounds_of_outcome answer.symm
      rw [← answer]
      simp only [Except.map, Prod.map_apply, kept found least most]
  refine ⟨answers', fun run size found rest => map_toInt_injective injective ?_⟩
  rw [answers', answers', outcome_take_append found]

/-- What stands for a number in the range is read as this number, whatever follows. -/
theorem Decides.read {decode : Bytes → Except Defect (α × Nat)} {toInt : α → Int} {found : α}
    (decides : Decides decode toInt value limit low high)
    (injective : Function.Injective toInt) (numeral : IsNumeral run)
    (short : run.length ≤ limit) (stands : value run = toInt found) (least : low ≤ toInt found)
    (most : toInt found < high) (rest : Bytes) :
    decode (run ++ rest) = .ok (found, run.length) := by
  refine map_toInt_injective injective ?_
  rw [decides.answers, outcome_of_numeralSize? (numeral.numeralSize?_append short rest),
    List.take_left, stands, if_pos ⟨least, most⟩]
  rfl

theorem injective_word : Function.Injective fun word : UInt32 => (word.toNat : Int) :=
  fun _ _ same => UInt32.toNat_inj.1 (Int.ofNat_inj.1 same)

theorem injective_long : Function.Injective fun long : UInt64 => (long.toNat : Int) :=
  fun _ _ same => UInt64.toNat_inj.1 (Int.ofNat_inj.1 same)

theorem injective_signedWord : Function.Injective Int32.toInt := fun _ _ => Int32.toInt_inj.1

theorem injective_signedLong : Function.Injective Int64.toInt := fun _ _ => Int64.toInt_inj.1

theorem decides_word : Decides decodeUInt32 (fun word => word.toNat) (fun run => unsignedValue run)
    5 0 (powerOfTwo 32) := by
  refine decides_of_eq_outcome (decodeUnsigned_eq_outcome (show 0 < 32 by decide)) ?_
    injective_word
  intro number _ most
  exact congrArg Nat.cast (UInt32.toNat_ofNat_of_lt' (Int.ofNat_lt.1 most))

theorem decides_long : Decides decodeUInt64 (fun long => long.toNat) (fun run => unsignedValue run)
    10 0 (powerOfTwo 64) := by
  refine decides_of_eq_outcome (decodeUnsigned_eq_outcome (show 0 < 64 by decide)) ?_
    injective_long
  intro number _ most
  exact congrArg Nat.cast (UInt64.toNat_ofNat_of_lt' (Int.ofNat_lt.1 most))

theorem decides_signedWord : Decides decodeInt32 Int32.toInt signedValue 5 (-powerOfTwo 31)
    (powerOfTwo 31) := by
  refine decides_of_eq_outcome (map_decodeSigned_eq_outcome (show 0 < 32 by decide)) ?_
    injective_signedWord
  intro number least most
  exact Int32.toInt_ofInt_of_le least most

theorem decides_signedLong : Decides decodeInt64 Int64.toInt signedValue 10 (-powerOfTwo 63)
    (powerOfTwo 63) := by
  refine decides_of_eq_outcome (map_decodeSigned_eq_outcome (show 0 < 64 by decide)) ?_
    injective_signedLong
  intro number least most
  exact Int64.toInt_ofInt_of_le least most

/-- The decoders find the bytes up to the first one that says that no other follows. If these are
five or fewer (ten for long words) and what they stand for fits, that is the number, and what comes
behind them makes no difference; if it does not fit, it is too large. If the first five (ten) bytes
all say that another one follows, the number is too long; if the bytes end before one of them says
that it is the last, that is unexpected. The sign comes from the highest bit that is there. -/
theorem decoders_decide :
    Decides decodeUInt32 (fun word => word.toNat) (fun run => unsignedValue run) 5 0
        (powerOfTwo 32) ∧
      Decides decodeUInt64 (fun long => long.toNat) (fun run => unsignedValue run) 10 0
        (powerOfTwo 64) ∧
      Decides decodeInt32 Int32.toInt signedValue 5 (-powerOfTwo 31) (powerOfTwo 31) ∧
      Decides decodeInt64 Int64.toInt signedValue 10 (-powerOfTwo 63) (powerOfTwo 63) ∧
      ∀ run, signedValue run = Int.bmod (unsignedValue run) (powerOfTwo (7 * run.length)) :=
  ⟨decides_word, decides_long, decides_signedWord, decides_signedLong, signedValue_eq_bmod⟩

/-- The last of five bytes has room for more than a word, and its bits beyond the word must repeat
the sign. -/
example : decodeInt32 [0x80, 0x80, 0x80, 0x80, 0x78, 0xff] = .ok (-2147483648, 5) ∧
    decodeInt32 [0x80, 0x80, 0x80, 0x80, 0x38] = .error .integerTooLarge := ⟨rfl, rfl⟩

end StaticLink.Leb128
