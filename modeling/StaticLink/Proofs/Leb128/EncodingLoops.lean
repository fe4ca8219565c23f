import Mathlib.Algebra.Order.Ring.Int
import Mathlib.Tactic.Ring
import StaticLink.Proofs.Leb128

/-!
# Encoding LEB128 from a word

An encoder takes seven bits after the other from a word of 64 bits, marks every byte as if another one
follows, fills up, and takes the mark from the last byte. What it writes is the spelling of the number.

* `Leb128.unsignedGroups`, `Leb128.signedGroups`, `Leb128.fill`, `Leb128.endLast`: the parts of the
  loops; `Leb128.loopUnsigned`, `Leb128.loopSigned`: all of them together.
* `Leb128.signedDone_iff`: when a number with a sign is at its end.
* `Leb128.marked`: what they hold before the last step; `Leb128.unsignedGroups_eq`,
  `Leb128.signedGroups_eq`: the bytes of any word.
* `Leb128.encodeUnsigned_eq_loop`, `Leb128.encodeSigned_eq_loop`: the whole encoder.
-/

namespace StaticLink.Leb128

variable {word : BitVec 64}

/-! ## Bits of a word -/

theorem toNat_shiftRight_seven : (word >>> 7).toNat = word.toNat / 128 := by
  rw [BitVec.toNat_ushiftRight, Nat.shiftRight_eq_div_pow]

theorem toInt_sshiftRight_seven : (word.sshiftRight 7).toInt = word.toInt / 128 := by
  rw [BitVec.toInt_sshiftRight, Int.shiftRight_eq_div_pow]
  rfl

/-- The lowest seven bits of a word. -/
def lowBits (word : BitVec 64) : UInt8 := UInt8.ofBitVec ((word &&& 0x7f).setWidth 8)

theorem toNat_lowBits : (lowBits word).toNat = word.toNat % 128 := by
  show ((word &&& 0x7f).setWidth 8).toNat = _
  rw [BitVec.toNat_setWidth, BitVec.toNat_and]
  have low : word.toNat &&& 127 = word.toNat % 128 := Nat.and_two_pow_sub_one_eq_mod _ 7
  have small := Nat.mod_lt word.toNat (show 0 < 128 by decide)
  show (word.toNat &&& 127) % 2 ^ 8 = _
  omega

/-- A word has the same lowest bits as a number with a sign as without. -/
theorem toInt_mod : word.toInt % 128 = (word.toNat % 128 : Nat) := by
  rw [BitVec.toInt_eq_toNat_cond]
  split <;> omega

/-- The rest is the sign, and the sixth bit says so, where the number fits in seven bits. -/
theorem signedDone_iff :
    word.sshiftRight 7 = 0 ∧ lowBits word &&& 0x40 = 0 ∨
        word.sshiftRight 7 = -1 ∧ lowBits word &&& 0x40 ≠ 0 ↔
      -64 ≤ word.toInt ∧ word.toInt < 64 := by
  have table : ∀ number : Fin 256, UInt8.ofFin number &&& 0x40 = 0 ↔ number.val % 128 < 64 := by
    decide +kernel
  have bit : lowBits word &&& 0x40 = 0 ↔ word.toNat % 128 < 64 := by
    have here : lowBits word &&& 0x40 = 0 ↔ (lowBits word).toNat % 128 < 64 :=
      table (lowBits word).toFin
    rw [here, toNat_lowBits, Nat.mod_mod]
  have same := @toInt_mod word
  have ends : (0 : BitVec 64).toInt = 0 ∧ (-1 : BitVec 64).toInt = -1 := by decide
  rw [ne_eq, bit, ← BitVec.toInt_inj, ← BitVec.toInt_inj, toInt_sshiftRight_seven, ends.1, ends.2]
  omega

/-- The encoder of unsigned numbers takes seven bits after the other, until none is left. Every byte
is marked as if another one follows. -/
def unsignedGroups (bytes : Bytes) (word : BitVec 64) : Bytes :=
  let rest := word >>> 7
  if rest = 0 then bytes ++ [lowBits word ||| 0x80]
  else unsignedGroups (bytes ++ [lowBits word ||| 0x80]) rest
termination_by word.toNat
decreasing_by
  next more =>
    have some : (word >>> 7).toNat ≠ 0 := fun none => more (BitVec.toNat_inj.1 none)
    rw [toNat_shiftRight_seven] at some ⊢
    omega

/-- The encoder of signed numbers stops where the rest is nothing but the sign, and the sixth bit of
the byte says so too. It also gives the rest. -/
def signedGroups (bytes : Bytes) (word : BitVec 64) : Bytes × BitVec 64 :=
  let byte := lowBits word
  let rest := word.sshiftRight 7
  if rest = 0 ∧ byte &&& 0x40 = 0 ∨ rest = -1 ∧ byte &&& 0x40 ≠ 0 then
    (bytes ++ [byte ||| 0x80], rest)
  else signedGroups (bytes ++ [byte ||| 0x80]) rest
termination_by word.toInt.natAbs
decreasing_by
  next more =>
    rw [signedDone_iff] at more
    rw [toInt_sshiftRight_seven]
    omega

/-- Bytes without a part of the number follow, until there are enough. -/
def fill (filler : UInt8) (padTo : Nat) (bytes : Bytes) : Bytes :=
  if bytes.length < padTo then fill filler padTo (bytes ++ [filler]) else bytes
termination_by padTo - bytes.length
decreasing_by
  rw [List.length_append, List.length_singleton]
  omega

/-- The last byte loses the mark. -/
def endLast (bytes : Bytes) : Bytes :=
  match bytes.getLast? with
  | some last => bytes.dropLast ++ [last &&& 0x7f]
  | none => []

/-- The encoder of unsigned numbers, which fills with zeros. -/
def loopUnsigned (word : BitVec 64) (padTo : Nat) : Bytes :=
  endLast (fill 0x80 padTo (unsignedGroups [] word))

/-- The encoder of signed numbers, which fills with the sign. -/
def loopSigned (word : BitVec 64) (padTo : Nat) : Bytes :=
  let (bytes, rest) := signedGroups [] word
  endLast (fill (if rest.slt 0 then 0xff else 0x80) padTo bytes)

/-! ## Marked bytes -/

/-- As `spell`, with the mark that another byte follows in all of the bytes. -/
def marked : (width : Nat) → (value : Int) → Bytes
  | 0, _ => []
  | width + 1, value => UInt8.ofNat (lowDigit value + 128) :: marked width (value / 128)

theorem length_marked (width : Nat) (value : Int) : (marked width value).length = width := by
  induction width generalizing value with
  | zero => rfl
  | succ width ih => rw [marked, List.length_cons, ih]

theorem lowBits_or_high (value : Int) (same : value % 128 = (word.toNat % 128 : Nat)) :
    lowBits word ||| 0x80 = UInt8.ofNat (lowDigit value + 128) := by
  have table : ∀ number : Fin 256, number.val < 128 →
      UInt8.ofFin number ||| 0x80 = UInt8.ofNat (number.val + 128) := by decide +kernel
  have here : (lowBits word).toNat < 128 →
      lowBits word ||| 0x80 = UInt8.ofNat ((lowBits word).toNat + 128) := table (lowBits word).toFin
  rw [toNat_lowBits] at here
  rw [here (Nat.mod_lt _ (by decide)), lowDigit, same, Int.toNat_natCast]

theorem and_low_of_high {digit : Nat} (small : digit < 128) :
    UInt8.ofNat (digit + 128) &&& 0x7f = UInt8.ofNat digit := by
  have table : ∀ number : Fin 128,
      UInt8.ofNat (number.val + 128) &&& 0x7f = UInt8.ofNat number.val := by decide +kernel
  exact table ⟨digit, small⟩

theorem endLast_cons (byte : UInt8) {rest : Bytes} (more : rest ≠ []) :
    endLast (byte :: rest) = byte :: endLast rest := by
  obtain ⟨last, ends⟩ := Option.isSome_iff_exists.1 (List.getLast?_isSome.2 more)
  simp only [endLast, List.getLast?_cons, ends, List.dropLast_cons_of_ne_nil more]
  rfl

/-- Without the last mark, the number is spelled. -/
theorem endLast_marked (width : Nat) (value : Int) :
    endLast (marked (width + 1) value) = spell (width + 1) value := by
  induction width generalizing value with
  | zero =>
    rw [spell, ← and_low_of_high (lowDigit_lt value)]
    rfl
  | succ width ih => rw [marked, endLast_cons _ (by simp [marked]), ih, spell]

/-- Behind all of the number there are only bytes of its sign. -/
theorem marked_append_replicate {sign value : Int} {width : Nat} (steady : sign / 128 = sign)
    (settles : value / 128 ^ width = sign) (count : Nat) :
    marked width value ++ List.replicate count (UInt8.ofNat (lowDigit sign + 128)) =
      marked (width + count) value := by
  induction width generalizing value with
  | zero =>
    rw [pow_zero, Int.ediv_one] at settles
    subst settles
    rw [marked, List.nil_append, Nat.zero_add]
    induction count with
    | zero => rfl
    | succ count ih => rw [List.replicate_succ, ih, marked, steady]
  | succ width ih =>
    have higher : value / 128 / 128 ^ width = sign := by
      rw [Int.ediv_ediv_of_nonneg (by decide), ← pow_succ', settles]
    rw [marked, List.cons_append, ih higher, Nat.add_right_comm, marked]

theorem fill_eq (filler : UInt8) (padTo : Nat) (bytes : Bytes) :
    fill filler padTo bytes = bytes ++ List.replicate (padTo - bytes.length) filler := by
  fun_induction fill filler padTo bytes with
  | case1 bytes less ih =>
    obtain ⟨count, left⟩ := Nat.exists_eq_add_one.2 (Nat.sub_pos_of_lt less)
    rw [ih, List.length_append, List.length_singleton, ← Nat.sub_sub, left, List.append_assoc,
      Nat.add_sub_cancel, List.replicate_succ]
    rfl
  | case2 bytes enough =>
    rw [Nat.sub_eq_zero_of_le (Nat.le_of_not_lt enough), List.replicate_zero, List.append_nil]

/-- Filling and ending marked bytes spells the number in as many bytes as there are then. -/
theorem endLast_fill_marked {sign value : Int} {width : Nat} (some : 0 < width)
    (steady : sign / 128 = sign) (settles : value / 128 ^ width = sign) (padTo : Nat) :
    endLast (fill (UInt8.ofNat (lowDigit sign + 128)) padTo (marked width value)) =
      spell (max padTo width) value := by
  obtain ⟨more, size⟩ : ∃ more, width + (padTo - width) = more + 1 :=
    Nat.exists_eq_add_one.2 (by omega)
  have whole : max padTo width = more + 1 := by omega
  rw [fill_eq, length_marked, marked_append_replicate steady settles, size, endLast_marked, whole]

/-! ## Widths -/

theorem log2_of_ge {number : Nat} (large : 128 ≤ number) :
    number.log2 = (number / 128).log2 + 7 := by
  have some : number / 128 ≠ 0 := by omega
  refine (Nat.log2_eq_iff (by omega)).2 ⟨?_, ?_⟩
  · have low := Nat.log2_self_le some
    rw [pow_add]
    omega
  · have high := Nat.lt_log2_self (n := number / 128)
    rw [pow_succ] at high
    rw [pow_succ, pow_add]
    omega

theorem unsignedWidth_of_lt {number : Nat} (small : number < 128) : unsignedWidth number = 1 := by
  have le := @unsignedWidth_le number 1 Nat.zero_lt_one small
  unfold unsignedWidth at le ⊢
  omega

theorem unsignedWidth_step {number : Nat} (large : 128 ≤ number) :
    unsignedWidth number = unsignedWidth (number / 128) + 1 := by
  rw [unsignedWidth, unsignedWidth, log2_of_ge large]
  omega

theorem signedWidth_of_small {value : Int} (low : -64 ≤ value) (high : value < 64) :
    signedWidth value = 1 := by
  have le := @signedWidth_le value 1 Nat.zero_lt_one low high
  cases value <;> simp only [signedWidth] at le ⊢ <;> omega

theorem signedWidth_step {value : Int} (large : ¬ (-64 ≤ value ∧ value < 64)) :
    signedWidth value = signedWidth (value / 128) + 1 := by
  -- The magnitude of what is left is that of the number, without seven bits.
  have step {magnitude : Nat} (large : 64 ≤ magnitude) :
      (magnitude.log2 + 8) / 7 = ((magnitude / 128).log2 + 8) / 7 + 1 := by
    by_cases more : 128 ≤ magnitude
    · rw [log2_of_ge more]
      omega
    · have small : magnitude < 128 := Nat.lt_of_not_le more
      have six : magnitude.log2 = 6 := (Nat.log2_eq_iff (by omega)).2 ⟨large, small⟩
      rw [six, Nat.div_eq_of_lt small, Nat.log2_zero]
  cases value with
  | ofNat magnitude =>
    have rest : Int.ofNat magnitude / 128 = Int.ofNat (magnitude / 128) := rfl
    rw [rest]
    exact step (by simp only [Int.ofNat_eq_natCast] at large; omega)
  | negSucc magnitude =>
    have rest : Int.negSucc magnitude / 128 = Int.negSucc (magnitude / 128) := rfl
    rw [rest]
    exact step (by omega)

/-! ## Rounds -/

theorem unsignedGroups_eq (bytes : Bytes) (word : BitVec 64) :
    unsignedGroups bytes word = bytes ++ marked (unsignedWidth word.toNat) word.toNat := by
  fun_induction unsignedGroups bytes word with
  | case1 bytes word rest none =>
    have small : word.toNat < 128 := by
      have none := congrArg BitVec.toNat none
      rw [toNat_shiftRight_seven] at none
      exact (Nat.div_eq_zero_iff_lt (by decide)).1 none
    rw [unsignedWidth_of_lt small, lowBits_or_high word.toNat (by omega)]
    rfl
  | case2 bytes word rest more ih =>
    have large : 128 ≤ word.toNat := by
      by_contra small
      refine more (BitVec.toNat_inj.1 ?_)
      rw [toNat_shiftRight_seven, Nat.div_eq_of_lt (by omega)]
      rfl
    rw [ih, toNat_shiftRight_seven, unsignedWidth_step large, marked, List.append_assoc,
      lowBits_or_high word.toNat (by omega)]
    rfl

/-- The rest is that of the number behind the bytes that it takes, and it is nothing but the sign. -/
theorem signedGroups_eq (bytes : Bytes) (word : BitVec 64) : ∃ sign : BitVec 64,
    signedGroups bytes word = (bytes ++ marked (signedWidth word.toInt) word.toInt, sign) ∧
      word.toInt / 128 ^ signedWidth word.toInt = sign.toInt ∧ (sign = 0 ∨ sign = -1) := by
  -- Each byte that goes before is one byte of the width less.
  fun_induction signedGroups bytes word with
  | case1 bytes word byte rest done =>
    have sign : rest = 0 ∨ rest = -1 := done.imp And.left And.left
    obtain ⟨low, high⟩ := signedDone_iff.1 done
    refine ⟨rest, ?_, ?_, sign⟩
    · rw [signedWidth_of_small low high, marked, ← lowBits_or_high _ toInt_mod]
      rfl
    · rw [signedWidth_of_small low high, pow_one]
      exact toInt_sshiftRight_seven.symm
  | case2 bytes word byte rest more ih =>
    have rest' : rest.toInt = word.toInt / 128 := toInt_sshiftRight_seven
    rw [rest'] at ih
    rw [signedDone_iff] at more
    obtain ⟨sign, groups, all, only⟩ := ih
    refine ⟨sign, ?_, ?_, only⟩
    · rw [groups, signedWidth_step more, marked, ← lowBits_or_high _ toInt_mod, List.append_assoc]
      rfl
    · rw [signedWidth_step more, pow_succ', ← Int.ediv_ediv_of_nonneg (by decide), all]

/-! ## Runs -/

/-- The loop that encodes an unsigned number writes it as it is spelled. -/
theorem encodeUnsigned_eq_loop (word : BitVec 64) (padTo : Nat) :
    encodeUnsigned word.toNat padTo = loopUnsigned word padTo := by
  have all : (word.toNat : Int) / 128 ^ unsignedWidth word.toNat = 0 := by
    have fits := lt_powerOfTwo_unsignedWidth word.toNat
    rw [powerOfTwo, Nat.one_shiftLeft, pow_mul] at fits
    exact_mod_cast Nat.div_eq_of_lt fits
  rw [encodeUnsigned, loopUnsigned, unsignedGroups_eq, List.nil_append]
  exact (endLast_fill_marked (Nat.succ_pos _) (by decide) all padTo).symm

/-- So does the loop for a number with a sign. -/
theorem encodeSigned_eq_loop (word : BitVec 64) (padTo : Nat) :
    encodeSigned word.toInt padTo = loopSigned word padTo := by
  obtain ⟨sign, groups, all, only⟩ := signedGroups_eq [] word
  have some : 0 < signedWidth word.toInt := by
    cases word.toInt <;> simp only [signedWidth] <;> omega
  rw [encodeSigned, loopSigned, groups, List.nil_append]
  -- The rest decides the filler.
  rcases only with rfl | rfl
  · exact (endLast_fill_marked some (by decide) all padTo).symm
  · exact (endLast_fill_marked some (by decide) all padTo).symm

end StaticLink.Leb128
