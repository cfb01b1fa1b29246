import Directional.Scalar

namespace Directional.Scalar

variable {K : Type} [Scalar K]

/-- Multiplies `result` by the power of `base` with exponent `n`, from the lowest bit of the
exponent: the squares of `base` are taken one after the other, and those whose bit is set in `n` are
multiplied on from the right. -/
def powerOnto (result base : K) (n : Nat) : K :=
  let result := if n % 2 = 1 then result * base else result
  if n / 2 = 0 then result else powerOnto result (base * base) (n / 2)
termination_by n
decreasing_by omega

/-- The power with a natural exponent; the zeroth power of everything is one. -/
def natPower (x : K) (n : Nat) : K :=
  powerOnto 1 x n

/-- The power with an integer exponent. A negative power is the reciprocal of the positive one. -/
def intPower (x : K) (n : Int) : K :=
  if n < 0 then 1 / natPower x n.natAbs else natPower x n.natAbs

/-- No bit of zero is set. -/
@[simp] theorem natPower_zero (x : K) : natPower x 0 = 1 := by
  simp [natPower, powerOnto]

/-- The power with a natural number as its integer exponent. -/
theorem intPower_natCast (x : K) (n : Nat) : intPower x n = natPower x n := by
  rw [intPower, if_neg (by omega), Int.natAbs_natCast]

end Directional.Scalar
