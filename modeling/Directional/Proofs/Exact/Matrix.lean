import Directional.Proofs.Exact.Linear
import Directional.Leaf.Invariant
import Directional.Matrix.Determinant

namespace Directional

namespace Mat

variable {R : Type} [CommRing R] {r c k n : Nat}

/-- The trace as a sum over the diagonal. -/
theorem trace_eq_sum (a : Mat R n n) : a.trace = ∑ i, a.get i i :=
  (foldl_add_eq_sum 0 _).trans (zero_add _)

/-- A trace is a sum of entries, and so linear. -/
theorem linear_trace : Value.Linear (s := .square n) (t := .scalar) (trace (K := R)) where
  add x y := by
    change trace (x + y) = trace x + trace y
    simp only [trace_eq_sum, get_add]
    exact Finset.sum_add_distrib
  scale x a := by
    change trace (scale x a) = trace x * a
    simp only [trace_eq_sum, get_scale]
    exact (Finset.sum_mul _ _ _).symm

/-- The trace of a product as a sum over all places. -/
theorem trace_mul_eq_sum (a b : Mat R n n) :
    (a * b).trace = ∑ i, ∑ l, a.get i l * b.get l i := by
  change (a.mul b).trace = _
  simp only [trace_eq_sum, get_mul_eq_sum]

/-- The factors of a product may change places under the trace. -/
theorem trace_mul_comm (a b : Mat R n n) : (a * b).trace = (b * a).trace := by
  rw [trace_mul_eq_sum, trace_mul_eq_sum, Finset.sum_comm]
  refine Finset.sum_congr rfl fun l _ => Finset.sum_congr rfl fun i _ => ?_
  exact mul_comm _ _

/-- A multiple of the trace less the trace of a product is linear. -/
theorem linear_mul_trace_sub (a : Mat R n n) (k : R) :
    Value.Linear (s := .square n) (t := .scalar)
      fun x : Mat R n n => k * x.trace - (a * x).trace where
  add (x y : Mat R n n) := by
    have htrace : (x + y).trace = x.trace + y.trace := linear_trace.add x y
    have hmul : a * (x + y) = a * x + a * y := (Pairing.matrices n n n).apply_add_right a x y
    have hproduct : (a * x + a * y).trace = (a * x).trace + (a * y).trace := linear_trace.add _ _
    change k * (x + y).trace - (a * (x + y)).trace =
      (k * x.trace - (a * x).trace) + (k * y.trace - (a * y).trace)
    rw [hmul, htrace, hproduct]
    ring
  scale (x : Mat R n n) c := by
    have htrace : (x.scale c).trace = x.trace * c := linear_trace.scale x c
    have hmul : a * x.scale c = (a * x).scale c := (Pairing.matrices n n n).apply_scale_right a x c
    have hproduct : ((a * x).scale c).trace = (a * x).trace * c := linear_trace.scale _ c
    change k * (x.scale c).trace - (a * x.scale c).trace = (k * x.trace - (a * x).trace) * c
    rw [hmul, htrace, hproduct]
    ring

/-- The bilinear form of which the second principal invariant is half the square. -/
def invariantForm (a b : Mat R n n) : R :=
  a.trace * b.trace - (a * b).trace

/-- The form as a difference of sums. -/
theorem invariantForm_eq_sum (a b : Mat R n n) :
    invariantForm a b =
      (∑ i, a.get i i) * (∑ i, b.get i i) - ∑ i, ∑ l, a.get i l * b.get l i := by
  rw [invariantForm, trace_mul_eq_sum, trace_eq_sum, trace_eq_sum]

theorem invariantForm_comm (a b : Mat R n n) : invariantForm b a = invariantForm a b := by
  rw [invariantForm, invariantForm, trace_mul_comm b a, mul_comm b.trace]

/-- As a symmetric form it is linear on both sides. -/
theorem bilinear_invariantForm :
    Value.Bilinear (s := .square n) (t := .square n) (u := .scalar) (invariantForm (R := R)) :=
  .of_comm invariantForm_comm fun a => linear_mul_trace_sub a a.trace

theorem columnInner_eq_sum (a : Mat R r c) (i : Fin c) (b : Mat R r k) (j : Fin k) :
    a.columnInner i b j = ∑ l, a.get l i * b.get l j :=
  columnSum_eq_sum _

/-- Numbers commute, so the columns may be exchanged. -/
theorem columnInner_comm (a : Mat R r c) (b : Mat R r k) (i : Fin c) (j : Fin k) :
    a.columnInner i b j = b.columnInner j a i := by
  simp only [columnInner, mul_comm]

/-- The inner product of two columns is linear in the second one. -/
theorem columnInner_add (a : Mat R r c) (b b' : Mat R r k) (i : Fin c) (j : Fin k) :
    a.columnInner i (b + b') j = a.columnInner i b j + a.columnInner i b' j := by
  simp only [columnInner_eq_sum, get_add, ← Finset.sum_add_distrib]
  refine Finset.sum_congr rfl fun l _ => ?_
  ring

theorem columnInner_scale (a : Mat R r c) (b : Mat R r k) (i : Fin c) (j : Fin k) (x : R) :
    a.columnInner i (b.scale x) j = a.columnInner i b j * x := by
  simp only [columnInner_eq_sum, get_scale, Finset.sum_mul]
  refine Finset.sum_congr rfl fun l _ => ?_
  ring

/-- The product of a transpose with a matrix is linear in both of them. -/
theorem bilinear_transposeMul :
    Value.Bilinear (s := .matrix r c) (t := .matrix r k) (u := .matrix c k)
      (transposeMul (K := R)) where
  left (y : Mat R r k) :=
    { add := fun (x x' : Mat R r c) => by
        apply ext
        intro i j
        simp only [Value.add, get_add, get_transposeMul, columnInner_comm _ y, columnInner_add]
      scale := fun (x : Mat R r c) a => by
        apply ext
        intro i j
        simp only [Value.scale, get_scale, get_transposeMul, columnInner_comm _ y,
          columnInner_scale] }
  right (x : Mat R r c) :=
    { add := fun (y y' : Mat R r k) => by
        apply ext
        intro i j
        simp only [Value.add, get_add, get_transposeMul, columnInner_add]
      scale := fun (y : Mat R r k) a => by
        apply ext
        intro i j
        simp only [Value.scale, get_scale, get_transposeMul, columnInner_scale] }

/-- The products of columns on the diagonal are summed up to the inner product of the matrices. -/
theorem trace_transposeMul (a b : Mat R r c) : (a.transposeMul b).trace = a.inner b := by
  simp only [trace_eq_sum, get_transposeMul, columnInner_eq_sum, inner_eq_sum]
  exact Finset.sum_comm

/-- The sum of the squares is the inner product of a matrix with itself. -/
theorem normSquared_eq_inner (a : Mat R r c) : a.normSquared = a.inner a := by
  rw [← trace_transposeMul]
  simp only [normSquared, trace, get_transposeMul]

theorem mixedDet₂_comm (a b : Mat R 2 2) : b.mixedDet₂ a = a.mixedDet₂ b := by
  simp only [mixedDet₂]
  ring

theorem linear_mixedDet₂ (a : Mat R 2 2) :
    Value.Linear (s := .square 2) (t := .scalar) (mixedDet₂ a) where
  add (x y : Mat R 2 2) := by
    change a.mixedDet₂ (x + y) = a.mixedDet₂ x + a.mixedDet₂ y
    simp only [mixedDet₂, get_add]
    ring
  scale (x : Mat R 2 2) k := by
    change a.mixedDet₂ (x.scale k) = a.mixedDet₂ x * k
    simp only [mixedDet₂, get_scale]
    ring

/-- The determinant of the matrix with the first column of `x`, the second one of `y` and the third
one of `z`. -/
def det₃Columns (x y z : Mat R 3 3) : R :=
  x.get 0 0 * (y.get 1 1 * z.get 2 2 - y.get 2 1 * z.get 1 2) +
    x.get 1 0 * (y.get 2 1 * z.get 0 2 - y.get 0 1 * z.get 2 2) +
    x.get 2 0 * (y.get 0 1 * z.get 1 2 - y.get 1 1 * z.get 0 2)

/-- In the first derivative the direction takes the place of each column once. -/
theorem det₃First_eq (a x : Mat R 3 3) :
    a.det₃First x = det₃Columns x a a + det₃Columns a x a + det₃Columns a a x := by
  simp [det₃First, total, det₃, det₃Columns]

/-- In the third derivative the directions take the places of the columns in all six ways. -/
theorem det₃Third_eq (x y z : Mat R 3 3) :
    det₃Third x y z = det₃Columns x y z + det₃Columns x z y + det₃Columns y x z +
      det₃Columns z x y + det₃Columns y z x + det₃Columns z y x := by
  simp [det₃Third, total, det₃, det₃Columns]

/-- The second derivative at `a` is the third one with `a` as a direction. -/
theorem det₃Second_eq_det₃Third (a x y : Mat R 3 3) : a.det₃Second x y = det₃Third x y a := by
  rw [det₃Third_eq]
  simp [det₃Second, total, det₃, det₃Columns]

/-- The third derivative is symmetric in its first two directions. -/
theorem det₃Third_swapFirst (x y z : Mat R 3 3) : det₃Third y x z = det₃Third x y z := by
  rw [det₃Third_eq, det₃Third_eq]
  ring

/-- The third derivative is symmetric in its last two directions. -/
theorem det₃Third_swapLast (x y z : Mat R 3 3) : det₃Third x z y = det₃Third x y z := by
  rw [det₃Third_eq, det₃Third_eq]
  ring

/-- The first derivative of the three-dimensional determinant is linear. -/
theorem linear_det₃First (a : Mat R 3 3) :
    Value.Linear (s := .square 3) (t := .scalar) (det₃First a) where
  add (x y : Mat R 3 3) := by
    change a.det₃First (x + y) = a.det₃First x + a.det₃First y
    simp only [det₃First_eq, det₃Columns, get_add]
    ring
  scale (x : Mat R 3 3) k := by
    change a.det₃First (x.scale k) = a.det₃First x * k
    simp only [det₃First_eq, det₃Columns, get_scale]
    ring

theorem linear_det₃Third (x y : Mat R 3 3) :
    Value.Linear (s := .square 3) (t := .scalar) (det₃Third x y) where
  add (z z' : Mat R 3 3) := by
    change det₃Third x y (z + z') = det₃Third x y z + det₃Third x y z'
    simp only [det₃Third_eq, det₃Columns, get_add]
    ring
  scale (z : Mat R 3 3) k := by
    change det₃Third x y (z.scale k) = det₃Third x y z * k
    simp only [det₃Third_eq, det₃Columns, get_scale]
    ring

/-- By its symmetry the third derivative is linear in all of its directions. -/
theorem trilinear_det₃Third :
    Value.Trilinear (s := .square 3) (t := .square 3) (u := .square 3) (w := .scalar)
      (det₃Third (K := R)) :=
  .of_comm det₃Third_swapFirst det₃Third_swapLast linear_det₃Third

end Mat

namespace Dimension

variable {R : Type} [CommRing R] {n : Nat} (d : Dimension n)

theorem linear_detFirst (a : Mat R n n) :
    Value.Linear (s := .square n) (t := .scalar) (d.detFirst a) := by
  cases d with
  | plane => exact Mat.linear_mixedDet₂ a
  | space => exact Mat.linear_det₃First a

/-- In both dimensions the second derivative is symmetric. -/
theorem detSecond_comm (a x y : Mat R n n) : d.detSecond a y x = d.detSecond a x y := by
  cases d with
  | plane => exact Mat.mixedDet₂_comm x y
  | space =>
    change a.det₃Second y x = a.det₃Second x y
    rw [Mat.det₃Second_eq_det₃Third, Mat.det₃Second_eq_det₃Third, Mat.det₃Third_swapFirst]

/-- In both dimensions the second derivative is linear in both directions. -/
theorem bilinear_detSecond (a : Mat R n n) :
    Value.Bilinear (s := .square n) (t := .square n) (u := .scalar) (d.detSecond a) := by
  apply Value.Bilinear.of_comm (d.detSecond_comm a)
  intro x
  cases d with
  | plane => exact Mat.linear_mixedDet₂ x
  | space =>
    have hthird : (a.det₃Second x : Mat R 3 3 → R) = (Mat.det₃Third x · a) :=
      funext (a.det₃Second_eq_det₃Third x)
    change Value.Linear (s := .square 3) (t := .scalar) (a.det₃Second x)
    rw [hthird]
    exact Mat.trilinear_det₃Third.middle x a

end Dimension

section Leaves

variable {K : Type} [Field K] [Primitives K] {r c n : Nat}

namespace SecondInvariant

/-- The first derivative of the second invariant is linear. -/
theorem linear_mixed (a : Mat K n n) (traceA : K) :
    Value.Linear (s := .square n) (t := .scalar) (mixed a traceA) :=
  Mat.linear_mul_trace_sub a traceA

/-- The value that the leaf holds. -/
theorem value_eq (a : Mat K n n) :
    1 / Scalar.int 2 * (a.trace * a.trace - (a * a).trace) = 1 / 2 * Mat.invariantForm a a := by
  rw [Scalar.int_two]
  rfl

/-- The second derivative of the second invariant is symmetric. -/
theorem second_comm (a b : Mat K n n) : second b a = second a b :=
  Mat.invariantForm_comm a b

/-- The second derivative of the second invariant is linear in both directions. -/
theorem bilinear_second :
    Value.Bilinear (s := .square n) (t := .square n) (u := .scalar) (second (K := K)) :=
  Mat.bilinear_invariantForm

end SecondInvariant

namespace Strain

/-- The derivatives of the strain come from a symmetric form. -/
theorem mixed_comm (a b : Mat K n n) : mixed b a = mixed a b :=
  Value.add_comm (s := .square n) _ _

theorem bilinear_mixed :
    Value.Bilinear (s := .square n) (t := .square n) (u := .square n) (mixed (K := K)) :=
  .of_comm mixed_comm fun a =>
    (Mat.bilinear_transposeMul.right a).sum (Mat.bilinear_transposeMul.left a)

theorem trace_mixed (a b : Mat K n n) : (mixed a b).trace = a.inner b + b.inner a := by
  have hsum : (mixed a b).trace = (a.transposeMul b).trace + (b.transposeMul a).trace :=
    Mat.linear_trace.add _ _
  rw [hsum, Mat.trace_transposeMul, Mat.trace_transposeMul]

end Strain

namespace SquaredNorm

/-- The form of the squared norm is twice the inner product. -/
theorem mixed_eq (a b : Mat K r c) : mixed a b = 2 * a.inner b := by
  rw [mixed, Scalar.int_two]

theorem mixed_eq_add (a b : Mat K r c) : mixed a b = a.inner b + b.inner a := by
  rw [mixed_eq, Mat.inner_comm b a, two_mul]

theorem mixed_comm (a b : Mat K r c) : mixed b a = mixed a b :=
  congrArg (Scalar.int 2 * ·) (Mat.inner_comm b a)

theorem linear_mixed (a : Mat K r c) :
    Value.Linear (s := .matrix r c) (t := .scalar) (mixed a) where
  add (x y : Mat K r c) := by
    change Scalar.int 2 * a.inner (x + y) = Scalar.int 2 * a.inner x + Scalar.int 2 * a.inner y
    rw [Mat.inner_add_right]
    ring
  scale (x : Mat K r c) k := by
    change Scalar.int 2 * a.inner (x.scale k) = Scalar.int 2 * a.inner x * k
    rw [Mat.inner_scale_right]
    ring

theorem bilinear_mixed :
    Value.Bilinear (s := .matrix r c) (t := .matrix r c) (u := .scalar) (mixed (K := K)) :=
  .of_comm mixed_comm linear_mixed

end SquaredNorm

end Leaves

end Directional
