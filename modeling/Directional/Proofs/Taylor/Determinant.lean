import Mathlib.LinearAlgebra.Matrix.Determinant.Basic
import Directional.Proofs.Exact.Matrix
import Directional.Proofs.Taylor.Algebra
import Directional.Leaf.Seed
import Directional.Tree.Total

namespace Directional

variable {R : Type} [CommRing R] {n : Nat}

/-- The rules for two and three dimensions give the sum over all permutations. -/
theorem Dimension.det_eq_det (d : Dimension n) (a : Mat R n n) :
    d.det a = (Matrix.of a.get).det := by
  cases d with
  | plane =>
    change a.det₂ = _
    rw [Matrix.det_fin_two]
    rfl
  | space =>
    change a.det₃ = _
    rw [Matrix.det_fin_three]
    simp only [Mat.det₃, Matrix.of_apply]
    ring

namespace Value

omit [CommRing R] in
/-- One number with square zero is adjoined at a time. The parts of a matrix are those of its
entries. -/
theorem get_fst {r c : Nat} (x : Value (DualNumber R) (.matrix r c)) (i : Fin r) (j : Fin c) :
    Mat.get x.fst i j = (Mat.get x i j).fst := by
  simp only [fst, map, Mat.get_ofFn]

omit [CommRing R] in
theorem get_snd {r c : Nat} (x : Value (DualNumber R) (.matrix r c)) (i : Fin r) (j : Fin c) :
    Mat.get x.snd i j = (Mat.get x i j).snd := by
  simp only [snd, map, Mat.get_ofFn]

end Value

namespace Mat

theorem fst_mixedDet₂ (x y : Value (DualNumber R) (.square 2)) :
    (mixedDet₂ x y).fst = mixedDet₂ x.fst y.fst := by
  simp [mixedDet₂, Value.get_fst]

/-- The second part has one direction in the place of each argument. -/
theorem snd_mixedDet₂ (x y : Value (DualNumber R) (.square 2)) :
    (mixedDet₂ x y).snd = mixedDet₂ x.snd y.fst + mixedDet₂ x.fst y.snd := by
  simp only [mixedDet₂, Value.get_fst, Value.get_snd, TrivSqZeroExt.snd_add, TrivSqZeroExt.snd_sub,
    DualNumber.snd_mul]
  ring

/-- The first part of a determinant is that of the first parts. -/
theorem fst_det₃Columns (x y z : Value (DualNumber R) (.square 3)) :
    (det₃Columns x y z).fst = det₃Columns x.fst y.fst z.fst := by
  simp [det₃Columns, Value.get_fst]

/-- The determinant follows the rule of Leibniz in its columns. -/
theorem snd_det₃Columns (x y z : Value (DualNumber R) (.square 3)) :
    (det₃Columns x y z).snd =
      det₃Columns x.snd y.fst z.fst + det₃Columns x.fst y.snd z.fst +
        det₃Columns x.fst y.fst z.snd := by
  simp only [det₃Columns, Value.get_fst, Value.get_snd, TrivSqZeroExt.snd_add,
    TrivSqZeroExt.snd_sub, TrivSqZeroExt.fst_sub, DualNumber.snd_mul, TrivSqZeroExt.fst_mul]
  ring

theorem fst_det₃Third (x y z : Value (DualNumber R) (.square 3)) :
    (det₃Third x y z).fst = det₃Third x.fst y.fst z.fst := by
  simp only [det₃Third_eq, TrivSqZeroExt.fst_add, fst_det₃Columns]

/-- The second part has one direction in the place of each argument. -/
theorem snd_det₃Third (x y z : Value (DualNumber R) (.square 3)) :
    (det₃Third x y z).snd =
      det₃Third x.snd y.fst z.fst + det₃Third x.fst y.snd z.fst + det₃Third x.fst y.fst z.snd := by
  simp only [det₃Third_eq, TrivSqZeroExt.snd_add, snd_det₃Columns]
  ring

end Mat

namespace Dimension

variable (d : Dimension n)

/-- The third derivative of the determinant. The plane has none, which counts as zero. -/
def detThird {K : Type} [Arithmetic K] : {n : Nat} → Dimension n → (x y z : Mat K n n) → K
  | _, plane, _, _, _ => 0
  | _, space, x, y, z => x.det₃Third y z

/-- In both dimensions the first part of the determinant is the determinant of the first
component. -/
theorem fst_det (a : Value (DualNumber R) (.square n)) : (d.det a).fst = d.det a.fst := by
  cases d with
  | plane => simp [det, Mat.det₂, Value.get_fst]
  | space => exact Mat.fst_det₃Columns a a a

/-- The second part of the determinant is its first derivative. -/
theorem snd_det (a : Value (DualNumber R) (.square n)) :
    (d.det a).snd = d.detFirst a.fst a.snd := by
  cases d with
  | plane =>
    simp only [det, detFirst, Mat.det₂, Mat.mixedDet₂, Value.get_fst, Value.get_snd,
      TrivSqZeroExt.snd_sub, DualNumber.snd_mul]
    ring
  | space => exact (Mat.snd_det₃Columns a a a).trans (Mat.det₃First_eq a.fst a.snd).symm

theorem fst_detFirst (a x : Value (DualNumber R) (.square n)) :
    (d.detFirst a x).fst = d.detFirst a.fst x.fst := by
  cases d with
  | plane => exact Mat.fst_mixedDet₂ a x
  | space =>
    simp only [detFirst, Mat.det₃First_eq, TrivSqZeroExt.fst_add, Mat.fst_det₃Columns]

/-- The second part of the first derivative is made of the second derivative and of the same
one. -/
theorem snd_detFirst (a x : Value (DualNumber R) (.square n)) :
    (d.detFirst a x).snd = d.detSecond a.fst x.fst a.snd + d.detFirst a.fst x.snd := by
  cases d with
  | plane =>
    refine (Mat.snd_mixedDet₂ a x).trans ?_
    exact congrArg (· + _) (Mat.mixedDet₂_comm x.fst a.snd)
  | space =>
    simp only [detFirst, detSecond, Mat.det₃First_eq, Mat.det₃Second_eq_det₃Third,
      Mat.det₃Third_eq, TrivSqZeroExt.snd_add, Mat.snd_det₃Columns]
    ring

theorem fst_detSecond (a x y : Value (DualNumber R) (.square n)) :
    (d.detSecond a x y).fst = d.detSecond a.fst x.fst y.fst := by
  cases d with
  | plane => exact Mat.fst_mixedDet₂ x y
  | space =>
    simp only [detSecond, Mat.det₃Second_eq_det₃Third]
    exact Mat.fst_det₃Third x y a

/-- The second part of the second derivative is made of the third derivative and of the same
one. -/
theorem snd_detSecond (a x y : Value (DualNumber R) (.square n)) :
    (d.detSecond a x y).snd =
      d.detThird x.fst y.fst a.snd + d.detSecond a.fst x.snd y.fst +
        d.detSecond a.fst x.fst y.snd := by
  cases d with
  | plane =>
    refine (Mat.snd_mixedDet₂ x y).trans ?_
    exact congrArg (· + _) (zero_add _).symm
  | space =>
    simp only [detSecond, detThird, Mat.det₃Second_eq_det₃Third]
    refine (Mat.snd_det₃Third x y a).trans ?_
    ring

/-- The determinant of a matrix that is moved starts at the determinant. -/
theorem base_det (a : Value (Taylor R) (.square n)) :
    Value.base (s := .scalar) (d.det a) = d.det a.base := by
  change (d.det a).fst.fst.fst = _
  rw [fst_det, fst_det, fst_det]
  rfl

/-- The rule of Faà di Bruno for a determinant. -/
theorem coefficients_det (a : Value (Taylor R) (.square n)) :
    Value.coefficients (s := .scalar) (d.det a) =
      { x := d.detFirst a.base a.coefficients.x
        y := d.detFirst a.base a.coefficients.y
        z := d.detFirst a.base a.coefficients.z
        xy := d.detSecond a.base a.coefficients.x a.coefficients.y +
          d.detFirst a.base a.coefficients.xy
        xz := d.detSecond a.base a.coefficients.x a.coefficients.z +
          d.detFirst a.base a.coefficients.xz
        yz := d.detSecond a.base a.coefficients.y a.coefficients.z +
          d.detFirst a.base a.coefficients.yz
        xyz := d.detThird a.coefficients.x a.coefficients.y a.coefficients.z +
          d.detSecond a.base a.coefficients.xz a.coefficients.y +
          d.detSecond a.base a.coefficients.x a.coefficients.yz +
          (d.detSecond a.base a.coefficients.xy a.coefficients.z +
            d.detFirst a.base a.coefficients.xyz) } := by
  have hscalar : Value.coefficients (s := .scalar) (d.det a) =
      { x := (d.det a).snd.fst.fst, y := (d.det a).fst.snd.fst, z := (d.det a).fst.fst.snd
        xy := (d.det a).snd.snd.fst, xz := (d.det a).snd.fst.snd, yz := (d.det a).fst.snd.snd
        xyz := (d.det a).snd.snd.snd } := rfl
  rw [hscalar]
  simp only [fst_det, snd_det, fst_detFirst, snd_detFirst, fst_detSecond, snd_detSecond,
    TrivSqZeroExt.fst_add, TrivSqZeroExt.snd_add]
  rfl

/-- Along directions of first order only the derivatives themselves are left. -/
theorem coefficients_det_perturbed (a x y z : Value R (.square n)) :
    Value.coefficients (s := .scalar) (d.det (Value.perturbed a x y z)) =
      { x := d.detFirst a x, y := d.detFirst a y, z := d.detFirst a z, xy := d.detSecond a x y
        xz := d.detSecond a x z, yz := d.detSecond a y z, xyz := d.detThird x y z } := by
  have hfirst : d.detFirst a (.zero : Value R (.square n)) = 0 :=
    Value.map_zero_of_add (s := .square n) (t := .scalar) (d.linear_detFirst a).add
  have hleft (w : Value R (.square n)) : d.detSecond a (.zero : Value R (.square n)) w = 0 :=
    Value.map_zero_of_add (s := .square n) (t := .scalar) (φ := (d.detSecond a · w))
      ((d.bilinear_detSecond a).left w).add
  have hright (w : Value R (.square n)) : d.detSecond a w (.zero : Value R (.square n)) = 0 :=
    Value.map_zero_of_add (s := .square n) (t := .scalar) ((d.bilinear_detSecond a).right w).add
  rw [coefficients_det, Value.base_perturbed, Value.coefficients_perturbed]
  simp only [hfirst, hleft, hright, add_zero]

end Dimension

section Leaves

variable {K : Type} [Scalar K] {Γ : Nat → Shape} (d : Dimension n)

/-- A determinant that has been built holds its matrix and the determinant. -/
theorem Determinant.at?_eq_ok {a : Mat K n n} {l : Determinant K n}
    (h : Determinant.at? d a = .ok l) : l = ⟨a, d.det a⟩ := by
  obtain ⟨_, -, hl⟩ := bind_eq_ok h
  exact (Except.ok.inj hl).symm

namespace Tree

variable (l : Determinant K n) (x y z : Mat K n n)

/-- The leaf answers with the derivatives of the determinant at its matrix. -/
theorem d₁_det : (leaf (.det d l) : Tree K (Builtin K Γ) _ _).d₁ .argument x =
    d.detFirst l.matrix x := by
  cases d <;> rfl

theorem d₂_det : (leaf (.det d l) : Tree K (Builtin K Γ) _ _).d₂ .argument .argument x y =
    d.detSecond l.matrix x y := by
  cases d <;> rfl

theorem d₃_det :
    (leaf (.det d l) : Tree K (Builtin K Γ) _ _).d₃ .argument .argument .argument x y z =
      d.detThird x y z := by
  cases d <;> rfl

-- The ring and the number type each bring operations; the theorem says that they are the same.
set_option linter.overlappingInstances false in
/-- The derivatives of the determinant are its multilinear expansion. Let the arithmetic be that of
a commutative ring. For every matrix that is accepted and all directions, take the determinant, as
the sum over all permutations, of the matrix with the directions added along `e₁`, `e₂` and `e₃`,
three numbers with square zero. What it has without these numbers is the value of the leaf; the
coefficients of `e₁`, `e₂` and `e₃` are the first derivatives, those of `e₁ * e₂`, `e₁ * e₃` and
`e₂ * e₃` the second ones, and that of `e₁ * e₂ * e₃` is the third one, where the plane has none and
the coefficient is zero. -/
theorem determinant_expands_multilinearly {R : Type} [CommRing R] [Scalar R]
    (sameArithmetic : (Scalar.toArithmetic : Arithmetic R) = .ofRing) {Γ : Nat → Shape} {n : Nat}
    {d : Dimension n} {A : Mat R n n} {l : Determinant R n} (accepted : Determinant.at? d A = .ok l)
    (dA dB dC : Mat R n n) :
    let f : Tree R (Builtin R Γ) (.square n) .scalar := leaf (.det d l)
    let moved : Mat (Taylor R) n n := Value.perturbed (s := .square n) A dA dB dC
    let expansion : Value (Taylor R) .scalar := (Matrix.of moved.get).det
    expansion.base = f.value ∧
    expansion.coefficients =
      { x := f.d₁ .argument dA
        y := f.d₁ .argument dB
        z := f.d₁ .argument dC
        xy := f.d₂ .argument .argument dA dB
        xz := f.d₂ .argument .argument dA dC
        yz := f.d₂ .argument .argument dB dC
        xyz := f.d₃ .argument .argument .argument dA dB dC } ∧
    (f.d₃? .argument .argument .argument dA dB dC).isSome = decide (n = 3) := by
  intro f moved expansion
  obtain rfl := Determinant.at?_eq_ok d accepted
  have hexpansion : expansion = d.det moved := (d.det_eq_det moved).symm
  have hvalue : f.value = d.det A := rfl
  refine ⟨?_, ?_, ?_⟩
  · rw [hexpansion, hvalue, sameArithmetic]
    refine (d.base_det _).trans ?_
    rw [Value.base_perturbed]
  · rw [hexpansion, d₁_det, d₁_det, d₁_det, d₂_det, d₂_det, d₂_det, d₃_det, sameArithmetic]
    exact d.coefficients_det_perturbed A dA dB dC
  · cases d <;> rfl

/-- The determinant of the rows `2 1 0`, `0 3 1` and `1 0 1`, along the identity matrix, a basis
matrix and the matrix itself. -/
theorem determinant_expands_multilinearly_three_rows :
    let A : Mat ℚ 3 3 := ⟨#v[#v[2, 1, 0], #v[0, 3, 1], #v[1, 0, 1]]⟩
    let E : Mat ℚ 3 3 := Mat.basis 0 2
    let l : Determinant ℚ 3 := ⟨A, A.det₃⟩
    let moved : Mat (Taylor ℚ) 3 3 := Value.perturbed (s := .square 3) A 1 E A
    let expansion : Value (Taylor ℚ) .scalar := (Matrix.of moved.get).det
    (Scalar.toArithmetic : Arithmetic ℚ) = .ofRing ∧ Determinant.at? .space A = .ok l ∧
    expansion.base = (7 : ℚ) ∧
    expansion.coefficients.x = (11 : ℚ) ∧
    expansion.coefficients.xy = (-1 : ℚ) ∧
    expansion.coefficients.xyz = (-1 : ℚ) := by
  intro A E l moved expansion
  have accepted : Determinant.at? .space A = .ok l := rfl
  obtain ⟨hbase, hcoefficients, -⟩ := determinant_expands_multilinearly (Γ := fun _ => .scalar) rfl
    accepted 1 E A
  refine ⟨rfl, accepted, hbase.trans ?_, ?_, ?_, ?_⟩
  · decide +kernel
  · refine (congrArg Mixed₃.x hcoefficients).trans ?_
    decide +kernel
  · refine (congrArg Mixed₃.xy hcoefficients).trans ?_
    decide +kernel
  · refine (congrArg Mixed₃.xyz hcoefficients).trans ?_
    decide +kernel

end Tree

end Leaves

end Directional
