import StaticLink.PowerOfTwo

/-!
# Alignment

`alignUp offset step` is the least multiple of `step` that is not below `offset`; `alignUp?` gives
it if the rounding takes no address beyond 32 bits.
-/

namespace StaticLink

/-- `address`, if it is one: addresses are words of 32 bits. -/
def address? (address : Nat) : Option Nat :=
  if address < wordLimit then some address else none

/-- `offset` rounded up to a multiple of `step`. -/
def alignUp (offset step : Nat) : Nat := (offset + (step - 1)) / step * step

/-- `offset` rounded up to a multiple of `step`, if the rounding takes no address beyond 32 bits. -/
def alignUp? (offset step : Nat) : Option Nat :=
  (address? (offset + (step - 1))).map fun _ => alignUp offset step

theorem dvd_alignUp (offset step : Nat) : step ∣ alignUp offset step :=
  Nat.dvd_mul_left step _

theorem le_alignUp (offset : Nat) {step : Nat} (positive : 0 < step) :
    offset ≤ alignUp offset step := by
  have split := Nat.div_add_mod (offset + (step - 1)) step
  have small := Nat.mod_lt (offset + (step - 1)) positive
  rw [Nat.mul_comm] at split
  unfold alignUp
  omega

theorem alignUp_lt (offset : Nat) {step : Nat} (positive : 0 < step) :
    alignUp offset step < offset + step := by
  have := Nat.div_mul_le_self (offset + (step - 1)) step
  unfold alignUp
  omega

end StaticLink
