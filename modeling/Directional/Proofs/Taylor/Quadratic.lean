import Mathlib.LinearAlgebra.Matrix.Trace
import Directional.Proofs.Exact.Matrix
import Directional.Proofs.Leaf.Domain
import Directional.Proofs.Taylor.Expansion

namespace Directional

section Constants

variable {R : Type} [CommRing R] {r c k n : Nat} {s : Shape}

/-- The numbers of a ring among the expansions over it. -/
def Taylor.constHom : R →+* Taylor R :=
  (TrivSqZeroExt.inlHom _ _).comp ((TrivSqZeroExt.inlHom _ _).comp (TrivSqZeroExt.inlHom R R))

namespace Value

/-- The entries of a constant matrix are constant. -/
theorem get_const (x : Value R (.matrix r c)) (i : Fin r) (j : Fin c) :
    Mat.get x.const i j = Taylor.constHom (Mat.get x i j) := by
  simp only [const, inl, map, Mat.get_ofFn]
  rfl

/-- What is multiplied by a number with square zero starts at zero. -/
theorem base_scale_e₁ (x : Value (Taylor R) s) : (x.scale Taylor.e₁).base = zero := by
  simp [base, Taylor.e₁]

theorem base_scale_e₂ (x : Value (Taylor R) s) : (x.scale Taylor.e₂).base = zero := by
  simp [base, Taylor.e₂]

theorem base_scale_e₃ (x : Value (Taylor R) s) : (x.scale Taylor.e₃).base = zero := by
  simp [base, Taylor.e₃]

/-- A multiple by `e₁` has the coefficients of the terms without `e₁`, each one with `e₁`. -/
theorem coefficients_scale_e₁ (x : Value (Taylor R) s) :
    (x.scale Taylor.e₁).coefficients =
      { x := x.base, y := zero, z := zero, xy := x.coefficients.y, xz := x.coefficients.z
        yz := zero, xyz := x.coefficients.yz } := by
  simp [coefficients, base, Taylor.e₁]

theorem coefficients_scale_e₂ (x : Value (Taylor R) s) :
    (x.scale Taylor.e₂).coefficients =
      { x := zero, y := x.base, z := zero, xy := x.coefficients.x, xz := zero
        yz := x.coefficients.z, xyz := x.coefficients.xz } := by
  simp [coefficients, base, Taylor.e₂]

theorem coefficients_scale_e₃ (x : Value (Taylor R) s) :
    (x.scale Taylor.e₃).coefficients =
      { x := zero, y := zero, z := x.base, xy := zero, xz := x.coefficients.x
        yz := x.coefficients.y, xyz := x.coefficients.xy } := by
  simp [coefficients, base, Taylor.e₃]

end Value

end Constants

section Squares

variable {K : Type} [Field K] [Primitives K] {s t : Shape} {φ : Value K s → Value K s → Value K t}
  {Φ : Value (Taylor K) s → Value (Taylor K) s → Value (Taylor K) t}

namespace Value

/-- Let a bilinear map of expansions be `φ` on constants. At a value that is moved along `e₁`, `e₂`
and `e₃`, its square has the mixed terms of `φ` in both orders for coefficients, and none of third
order. -/
theorem ExpandsTo.square (bilinear : Bilinear Φ)
    (constants : ∀ x y, Φ x.const y.const = (φ x y).const) (p x y z : Value K s) :
    (Φ (perturbed p x y z) (perturbed p x y z)).ExpandsTo (φ p p)
      { x := (φ x p).add (φ p x)
        y := (φ y p).add (φ p y)
        z := (φ z p).add (φ p z)
        xy := (φ x y).add (φ y x)
        xz := (φ x z).add (φ z x)
        yz := (φ y z).add (φ z y)
        xyz := zero } := by
  -- All products of two of the four summands. Two directions along the same number give zero, and
  -- two along different numbers meet in both orders.
  simp only [perturbed, (bilinear.left _).add, (bilinear.left _).scale, (bilinear.right _).add,
    (bilinear.right _).scale, constants]
  constructor
  · simp only [base_add, base_const, base_scale_e₁, base_scale_e₂, base_scale_e₃, add_zero]
  · simp only [coefficients_add, coefficients_const, coefficients_scale_e₁, coefficients_scale_e₂,
      coefficients_scale_e₃, Mixed₃.add, base_add, base_const, base_scale_e₁, base_scale_e₂,
      base_scale_e₃, add_zero, zero_add, Mixed₃.mk.injEq, and_true]
    exact ⟨add_comm _ _, add_comm _ _, add_comm _ _⟩

section Forms

variable {φ : Value K s → Value K s → K} {Φ : Value (Taylor K) s → Value (Taylor K) s → Taylor K}
  (bilinear : Bilinear (u := .scalar) Φ)
  (constants : ∀ x y, Φ x.const y.const = Taylor.constHom (φ x y))
  (comm : ∀ x y, φ y x = φ x y) (p x y z : Value K s)

include bilinear constants comm

/-- The square of a symmetric form has twice the form for coefficients. -/
theorem ExpandsTo.square_of_comm :
    ExpandsTo (s := .scalar) (Φ (perturbed p x y z) (perturbed p x y z)) (φ p p)
      { x := 2 * φ p x
        y := 2 * φ p y
        z := 2 * φ p z
        xy := 2 * φ x y
        xz := 2 * φ x z
        yz := 2 * φ y z
        xyz := 0 } := by
  have htwice (v w : Value K s) : Value.add (s := .scalar) (φ v w) (φ w v) = 2 * φ v w := by
    change φ v w + φ w v = 2 * φ v w
    rw [comm, two_mul]
  have hsquare := ExpandsTo.square (t := .scalar) bilinear constants p x y z
  rw [htwice, htwice, htwice, htwice, htwice, htwice, comm p x, comm p y, comm p z] at hsquare
  exact hsquare

/-- Half the square of a symmetric form has the form itself for coefficients. -/
theorem ExpandsTo.half_square_of_comm (two : (2 : K) ≠ 0) :
    ExpandsTo (s := .scalar) (Taylor.const (1 / 2) * Φ (perturbed p x y z) (perturbed p x y z))
      (1 / 2 * φ p p)
      { x := φ p x
        y := φ p y
        z := φ p z
        xy := φ x y
        xz := φ x z
        yz := φ y z
        xyz := 0 } := by
  have hhalf (v : K) : Value.scale (s := .scalar) (2 * v) (1 / 2) = v := by
    change 2 * v * (1 / 2) = v
    field_simp
  have hzero : Value.scale (s := .scalar) (0 : K) (1 / 2) = 0 := zero_mul _
  have hscaled := (ExpandsTo.square_of_comm bilinear constants comm p x y z).scale (1 / 2)
  simp only [Mixed₃.scale, hhalf, hzero] at hscaled
  rw [mul_comm (Taylor.const _), mul_comm (1 / 2)]
  exact hscaled

end Forms

end Value

end Squares

namespace Mat

variable {R : Type} [CommRing R] {r c k n : Nat}

/-- The inner product of constant matrices is constant. -/
theorem inner_const (x y : Mat R r c) :
    inner (Value.const (s := .matrix r c) x) (Value.const (s := .matrix r c) y) =
      Taylor.constHom (x.inner y) := by
  simp only [inner_eq_sum, Value.get_const, map_sum, map_mul]

/-- The product of a transpose with a matrix is constant for constant matrices. -/
theorem transposeMul_const (x : Mat R r c) (y : Mat R r k) :
    transposeMul (Value.const (s := .matrix r c) x) (Value.const (s := .matrix r k) y) =
      Value.const (s := .matrix c k) (x.transposeMul y) := by
  apply ext
  intro i j
  simp only [Value.get_const, get_transposeMul, columnInner_eq_sum, map_sum, map_mul]

/-- The form of the second invariant is constant for constant matrices. -/
theorem invariantForm_const (x y : Mat R n n) :
    invariantForm (Value.const (s := .square n) x) (Value.const (s := .square n) y) =
      Taylor.constHom (invariantForm x y) := by
  simp only [invariantForm_eq_sum, Value.get_const, map_sub, map_sum, map_mul]

/-- The same maps by the sums and products of Mathlib: the inner product of a matrix with itself is
the sum of the squares of its entries. -/
theorem inner_self_eq (a : Mat R r c) : a.inner a = ∑ i, ∑ j, Matrix.of a.get i j ^ 2 := by
  simp only [inner_eq_sum, Matrix.of_apply, sq]

/-- The strain is the product of the transpose with the matrix. -/
theorem transposeMul_self_eq (a : Mat R r c) :
    a.transposeMul a = ofFn fun i j => ((Matrix.of a.get).transpose * Matrix.of a.get) i j := by
  apply ext
  intro i j
  rw [get_transposeMul, columnInner_eq_sum, get_ofFn, Matrix.mul_apply]
  rfl

/-- The form of the second invariant at one matrix is the difference of two traces. -/
theorem invariantForm_self_eq (a : Mat R n n) :
    invariantForm a a =
      (Matrix.of a.get).trace ^ 2 - (Matrix.of a.get * Matrix.of a.get).trace := by
  have htrace (M : Matrix (Fin n) (Fin n) R) : M.trace = ∑ i, M i i := rfl
  rw [invariantForm_eq_sum, ← sq]
  simp only [htrace, Matrix.mul_apply, Matrix.of_apply]

end Mat

namespace Tree

variable {K : Type} [Field K] [Primitives K] {Γ : Nat → Shape} {r c n : Nat} {s : Shape}

/-- A function of a matrix that stands at `p` has the expansion of a formula for its value and its
derivatives: for all directions `dx`, `dy` and `dz`, what the formula makes of the matrix
`p + e₁ * dx + e₂ * dy + e₃ * dz` is the value without `e₁`, `e₂` and `e₃`, and has the first and
second derivatives for coefficients. Of order three there is no derivative and no term. -/
structure ExpandsToSecondOrder (f : Tree K (Builtin K Γ) (.matrix r c) s) (p : Mat K r c)
    (formula : Matrix (Fin r) (Fin c) (Taylor K) → Value (Taylor K) s) : Prop where
  expands (dx dy dz : Mat K r c) :
    let moved : Mat (Taylor K) r c := Value.perturbed (s := .matrix r c) p dx dy dz
    (formula (Matrix.of moved.get)).ExpandsTo f.value
      { x := f.d₁ .argument dx
        y := f.d₁ .argument dy
        z := f.d₁ .argument dz
        xy := f.d₂ .argument .argument dx dy
        xz := f.d₂ .argument .argument dx dz
        yz := f.d₂ .argument .argument dy dz
        xyz := .zero }
  first : f.has₁ .argument = true
  second : f.has₂ .argument .argument = true
  third (X Y Z : Slot) : f.has₃ X Y Z = false

/-- The second invariant is half the square of its form. Where a matrix is moved along three numbers
with square zero, the square of a bilinear map has no term with all three of them. -/
theorem expandsToSecondOrder_secondInvariant (two : (2 : K) ≠ 0) (a : Mat K n n) :
    (leaf (.secondInvariant ⟨a, a.trace, 1 / 2 * Mat.invariantForm a a⟩) :
        Tree K (Builtin K Γ) _ _).ExpandsToSecondOrder a
      fun M => Taylor.const (1 / 2) * (M.trace ^ 2 - (M * M).trace) where
  expands dx dy dz := by
    intro moved
    rw [← Mat.invariantForm_self_eq moved]
    exact Value.ExpandsTo.half_square_of_comm Mat.bilinear_invariantForm Mat.invariantForm_const
      Mat.invariantForm_comm a dx dy dz two
  first := rfl
  second := rfl
  third _ _ _ := rfl

/-- The strain is the square of its form. -/
theorem expandsToSecondOrder_strain (a : Mat K n n) :
    (leaf (.strain ⟨a, a.transposeMul a⟩) : Tree K (Builtin K Γ) _ _).ExpandsToSecondOrder a
      fun M => Mat.ofFn fun i j => (M.transpose * M) i j where
  expands dx dy dz := by
    intro moved
    rw [← Mat.transposeMul_self_eq moved]
    exact Value.ExpandsTo.square Mat.bilinear_transposeMul Mat.transposeMul_const a dx dy dz
  first := rfl
  second := rfl
  third _ _ _ := rfl

/-- The squared norm is the square of the inner product. -/
theorem expandsToSecondOrder_squaredNorm (a : Mat K r c) :
    (leaf (.squaredNorm ⟨a, a.normSquared⟩) : Tree K (Builtin K Γ) _ _).ExpandsToSecondOrder a
      fun M => (∑ i, ∑ j, M i j ^ 2 : Taylor K) where
  expands dx dy dz := by
    intro moved
    have hvalue : (leaf (.squaredNorm ⟨a, a.normSquared⟩) : Tree K (Builtin K Γ) _ _).value =
        a.inner a := Mat.normSquared_eq_inner a
    have hsquare := Value.ExpandsTo.square_of_comm (Pairing.bilinear (.inner (.matrix r c)))
      Mat.inner_const (fun x y => Mat.inner_comm y x) a dx dy dz
    rw [← Mat.inner_self_eq moved, hvalue]
    simp only [← SquaredNorm.mixed_eq] at hsquare
    exact hsquare
  first := rfl
  second := rfl
  third _ _ _ := rfl

/-- The leaves of second order have exact expansions, in every dimension. Let such a leaf, whatever
it held before, be told a matrix of finite entries. It takes the matrix, and where the matrix is
moved along three numbers with square zero its formula expands to the value and the derivatives of
the leaf: half the difference of the squared trace and the trace of the square for the second
principal invariant, the product of the transpose with the matrix for the strain, and the sum of the
squared entries for the squared norm, of matrices that need not be square. There is no term of third
order, and no third derivative. -/
theorem quadratic_leaves_expand_to_second_order (two : (2 : K) ≠ 0) :
    (∀ {n : Nat} (l : SecondInvariant K n) {A : Mat K n n}, A.Finite →
      ∃ f : Tree K (Builtin K Γ) (.square n) .scalar,
        (leaf (.secondInvariant l)).update A = .accepted f ∧
          f.ExpandsToSecondOrder A fun M =>
            Taylor.const (1 / 2) * (M.trace ^ 2 - (M * M).trace)) ∧
    (∀ {n : Nat} (l : Strain K n) {F : Mat K n n}, F.Finite →
      ∃ f : Tree K (Builtin K Γ) (.square n) (.square n),
        (leaf (.strain l)).update F = .accepted f ∧
          f.ExpandsToSecondOrder F fun M => Mat.ofFn fun i j => (M.transpose * M) i j) ∧
    ∀ {r c : Nat} (l : SquaredNorm K r c) {A : Mat K r c}, A.Finite →
      ∃ f : Tree K (Builtin K Γ) (.matrix r c) .scalar,
        (leaf (.squaredNorm l)).update A = .accepted f ∧
          f.ExpandsToSecondOrder A fun M => ∑ i, ∑ j, M i j ^ 2 := by
  refine ⟨?_, ?_, ?_⟩
  · intro n l A finite
    refine ⟨_, ?_, expandsToSecondOrder_secondInvariant two A⟩
    rw [← SecondInvariant.value_eq]
    exact congrArg (Outcome.map leaf) (Mat.update_eq_accepted_iff.2 ⟨finite, rfl⟩)
  · intro n l F finite
    refine ⟨_, ?_, expandsToSecondOrder_strain F⟩
    exact congrArg (Outcome.map leaf) (Mat.update_eq_accepted_iff.2 ⟨finite, rfl⟩)
  · intro r c l A finite
    refine ⟨_, ?_, expandsToSecondOrder_squaredNorm A⟩
    exact congrArg (Outcome.map leaf) (Mat.update_eq_accepted_iff.2 ⟨finite, rfl⟩)

/-- The strain of the rows `1 2` and `0 1`, along a basis matrix and the identity. -/
theorem quadratic_leaves_expand_to_second_order_shear :
    let F : Mat ℚ 2 2 := ⟨#v[#v[1, 2], #v[0, 1]]⟩
    let E : Mat ℚ 2 2 := Mat.basis 0 1
    let f : Tree ℚ (Builtin ℚ fun _ => .scalar) (.square 2) (.square 2) :=
      leaf (.strain ⟨F, F.transposeMul F⟩)
    let moved : Mat (Taylor ℚ) 2 2 := Value.perturbed (s := .square 2) F E 1 F
    let M : Matrix (Fin 2) (Fin 2) (Taylor ℚ) := Matrix.of moved.get
    let expansion : Value (Taylor ℚ) (.square 2) := Mat.ofFn fun i j => (M.transpose * M) i j
    (2 : ℚ) ≠ 0 ∧ F.Finite ∧ (leaf (.strain ⟨0, 0⟩)).update F = .accepted f ∧
    expansion.base = (⟨#v[#v[1, 2], #v[2, 5]]⟩ : Mat ℚ 2 2) ∧
    expansion.coefficients.x = (⟨#v[#v[0, 1], #v[1, 4]]⟩ : Mat ℚ 2 2) ∧
    expansion.coefficients.xy = (⟨#v[#v[0, 1], #v[1, 0]]⟩ : Mat ℚ 2 2) ∧
    expansion.coefficients.xyz = .zero := by
  intro F E f moved M expansion
  have finite : F.Finite := fun _ _ => rfl
  have hmoved : (leaf (.strain ⟨0, 0⟩)).update F = .accepted f := rfl
  obtain ⟨-, hstrain, -⟩ := quadratic_leaves_expand_to_second_order (K := ℚ)
    (Γ := fun _ => .scalar) two_ne_zero
  obtain ⟨f', hf', h⟩ := hstrain ⟨0, 0⟩ finite
  obtain rfl : f' = f := Outcome.accepted.inj (hf'.symm.trans hmoved)
  obtain ⟨hbase, hcoefficients⟩ := h.expands E 1 F
  refine ⟨two_ne_zero, finite, hmoved, hbase.trans ?_, ?_, ?_, ?_⟩
  · apply Mat.ext
    decide +kernel
  · refine (congrArg Mixed₃.x hcoefficients).trans ?_
    apply Mat.ext
    decide +kernel
  · refine (congrArg Mixed₃.xy hcoefficients).trans ?_
    apply Mat.ext
    decide +kernel
  · exact congrArg Mixed₃.xyz hcoefficients

end Tree

end Directional
