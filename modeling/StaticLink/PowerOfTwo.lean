/-!
# Powers of two

* `powerOfTwo`: alignments are stored as exponents of two, and the value range of a number of so
  many bits ends at a power of two.
* `wordLimit`, `longLimit`: where the ranges of 32 and 64 bits end.
-/

namespace StaticLink

/-- Two to the power of `exponent`. -/
def powerOfTwo (exponent : Nat) : Nat := 1 <<< exponent

theorem powerOfTwo_zero : powerOfTwo 0 = 1 := rfl

theorem powerOfTwo_succ (exponent : Nat) : powerOfTwo (exponent + 1) = 2 * powerOfTwo exponent := by
  simp only [powerOfTwo, Nat.one_shiftLeft, Nat.pow_succ']

theorem powerOfTwo_add (first second : Nat) :
    powerOfTwo (first + second) = powerOfTwo first * powerOfTwo second := by
  simp only [powerOfTwo, Nat.one_shiftLeft, Nat.pow_add]

theorem powerOfTwo_pos (exponent : Nat) : 0 < powerOfTwo exponent := by
  rw [powerOfTwo, Nat.one_shiftLeft]
  exact Nat.two_pow_pos exponent

/-- Words of 32 bits stay below it. -/
def wordLimit : Nat := 4294967296

/-- Words of 64 bits stay below it. -/
def longLimit : Nat := 18446744073709551616

theorem powerOfTwo_32 : powerOfTwo 32 = wordLimit := rfl

end StaticLink
