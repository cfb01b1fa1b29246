import Directional.Proofs.Rounded.Binary64

namespace Directional

namespace Scalar

/-- The comparisons of finite numbers with zero are exact. -/
class ExactSign (K : Type) [Scalar K] [Valued K] : Prop where
  le_zero {x : K} (hx : isFinite x = true) : le x 0 = true ↔ value x ≤ 0
  zero_lt {x : K} (hx : isFinite x = true) : lt 0 x = true ↔ 0 < value x

instance : ExactSign ℚ where
  le_zero _ := decide_eq_true_iff
  zero_lt _ := decide_eq_true_iff

/-- Two comparisons answer which finite numbers are greater than zero, one for acceptance and one
for rejection, and they agree. -/
theorem ExactSign.le_zero_eq_not_lt {K : Type} [Scalar K] [Valued K] [ExactSign K] {x : K}
    (hx : isFinite x = true) : le x 0 = !lt 0 x := by
  rw [Bool.eq_iff_iff, le_zero hx, Bool.not_eq_true', ← Bool.not_eq_true, zero_lt hx, not_lt]

end Scalar

namespace Binary64

open Float.Model.UnpackedFloat Scalar

/-- Zero compares with a number of the format as the rational numbers do. -/
theorem zero_compare {u : Float.Model.UnpackedFloat} (h : Canonical u) (s : Sign) :
    (zero s).compare u = some (compare 0 (toRat u)) := by
  cases h with
  | zero s' =>
    change some .eq = some (compare (0 : ℚ) 0)
    rw [compare_eq_iff_eq.2 rfl]
  | finite s' m e hm =>
    have hpos : (0 : ℚ) < m * 2 ^ e := by positivity
    cases s' with
    | negative =>
      change some .gt = some (compare 0 (-((m : ℚ) * 2 ^ e)))
      rw [compare_gt_iff_gt.2 (neg_neg_of_pos hpos)]
    | positive =>
      change some .lt = some (compare 0 ((m : ℚ) * 2 ^ e))
      rw [compare_lt_iff_lt.2 hpos]

instance : ExactSign Float where
  le_zero {x} hx := by
    have hcompare := compare_zero (canonical_of_isFinite hx) .positive
    have hle : x ≤ 0 ↔ (x.toModel.unpack.compare (.zero .positive)).any (·.isLE) = true :=
      decide_eq_true_iff
    change decide (x ≤ 0) = true ↔ toRat x.toModel.unpack ≤ 0
    rw [decide_eq_true_iff, hle, hcompare, Option.any_some]
    rw [Ordering.isLE_iff_ne_gt, compare_gt_iff_gt, not_lt]
  zero_lt {x} hx := by
    have hcompare := zero_compare (canonical_of_isFinite hx) .positive
    have hlt : 0 < x ↔ ((zero .positive).compare x.toModel.unpack == some .lt) = true :=
      decide_eq_true_iff
    change decide (0 < x) = true ↔ 0 < toRat x.toModel.unpack
    rw [decide_eq_true_iff, hlt, hcompare, beq_iff_eq, Option.some_inj, compare_lt_iff_lt]

end Binary64

end Directional
