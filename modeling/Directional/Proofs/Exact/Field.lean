import Mathlib.Algebra.Field.Rat
import Mathlib.Algebra.Order.Ring.Rat
import Directional.Scalar

namespace Directional

/-- The comparisons and primitive functions of a number type: what its arithmetic leaves open. -/
class Primitives (K : Type) where
  le : K → K → Bool
  lt : K → K → Bool
  same : K → K → Bool
  isFinite : K → Bool
  abs : K → K
  sqrt : K → K
  cbrt : K → K
  sin : K → K
  cos : K → K
  tan : K → K
  asin : K → K
  acos : K → K
  exp : K → K
  exp2 : K → K
  ln : K → K
  log10 : K → K
  log2 : K → K
  pow : K → K → K
  ln2 : K
  ln10 : K
  epsilon : K

/-- The arithmetic of a commutative ring. -/
instance (priority := low) Arithmetic.ofRing {R : Type} [CommRing R] : Arithmetic R where
  zero := 0
  one := 1
  add x y := x + y
  sub x y := x - y
  mul x y := x * y
  neg x := -x
  intCast n := n

/-- The arithmetic of a field, with the given comparisons and primitive functions. -/
instance (priority := low) Scalar.ofField {K : Type} [Field K] [p : Primitives K] : Scalar K where
  toArithmetic := .ofRing
  div x y := x / y
  le := p.le
  lt := p.lt
  same := p.same
  isFinite := p.isFinite
  abs := p.abs
  sqrt := p.sqrt
  cbrt := p.cbrt
  sin := p.sin
  cos := p.cos
  tan := p.tan
  asin := p.asin
  acos := p.acos
  exp := p.exp
  exp2 := p.exp2
  ln := p.ln
  log10 := p.log10
  log2 := p.log2
  pow := p.pow
  ln2 := p.ln2
  ln10 := p.ln10
  epsilon := p.epsilon

/-- Whole numbers are what they are in the field. -/
theorem Scalar.int_eq_cast {K : Type} [Field K] [Primitives K] (n : Int) : (Scalar.int n : K) = n :=
  rfl

theorem Scalar.int_two {K : Type} [Field K] [Primitives K] : (Scalar.int 2 : K) = 2 :=
  Int.cast_ofNat 2

theorem Scalar.mul_int_two {K : Type} [Field K] [Primitives K] (x : K) :
    x * Scalar.int 2 = x + x := by
  rw [int_two, mul_two]

/-- The rational numbers with their order. A function without rational values is kept at its value
at zero or one, wherever that is rational. -/
instance : Primitives ℚ where
  le x y := x ≤ y
  lt x y := x < y
  same x y := x = y
  isFinite _ := true
  abs x := |x|
  sqrt _ := 1
  cbrt _ := 1
  sin _ := 0
  cos _ := 1
  tan _ := 0
  asin _ := 0
  acos _ := 0
  exp _ := 1
  exp2 _ := 1
  ln _ := 0
  log10 _ := 0
  log2 _ := 0
  pow _ _ := 1
  ln2 := 1
  ln10 := 1
  epsilon := 0

end Directional
