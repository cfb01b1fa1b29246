import Mathlib.Analysis.SpecialFunctions.Log.Base
import Mathlib.Analysis.SpecialFunctions.Trigonometric.Inverse
import Directional.Proofs.Exact.Power

namespace Directional

/-- The real numbers with their order and the functions of analysis. The rounding unit is that of
double precision. -/
noncomputable instance : Primitives ℝ where
  le x y := x ≤ y
  lt x y := x < y
  same x y := x = y
  isFinite _ := true
  abs x := |x|
  sqrt x := √x
  cbrt x := SignType.sign x * |x| ^ ((3 : ℕ) : ℝ)⁻¹
  sin := Real.sin
  cos := Real.cos
  tan := Real.tan
  asin := Real.arcsin
  acos := Real.arccos
  exp := Real.exp
  exp2 x := ((2 : ℕ) : ℝ) ^ x
  ln := Real.log
  log10 := Real.logb (10 : ℕ)
  log2 := Real.logb (2 : ℕ)
  pow x y := x ^ y
  ln2 := Real.log (2 : ℕ)
  ln10 := Real.log (10 : ℕ)
  epsilon := ((2 : ℕ) : ℝ)⁻¹ ^ 52

instance : Scalar.ExactOrder ℝ where
  lt_iff := decide_eq_true_iff
  same_iff := decide_eq_true_iff
  isFinite _ := rfl

end Directional
