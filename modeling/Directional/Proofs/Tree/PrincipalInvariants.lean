import Mathlib.Tactic.FieldSimp
import Directional.Proofs.Exact.Matrix
import Directional.Proofs.Leaf.Domain
import Directional.Proofs.Tree.Composition

namespace Directional

namespace Mat

variable {R : Type} [CommRing R] {n : Nat}

/-- The identity has the dimension as its trace. -/
theorem trace_one : (1 : Mat R n n).trace = n := by
  simp [trace_eq_sum]

/-- The form of the second invariant along the identity is a multiple of the trace. -/
theorem invariantForm_one (a : Mat R n n) : invariantForm a 1 = (n - 1) * a.trace := by
  have hproduct : a * (1 : Mat R n n) = a := by
    apply ext
    intro i j
    change (a.mul 1).get i j = a.get i j
    simp [get_mul_eq_sum]
  rw [invariantForm, hproduct, trace_one]
  ring

/-- In the plane the form of the determinant is that of the second invariant. -/
theorem mixedDet₂_eq_invariantForm (a b : Mat R 2 2) : a.mixedDet₂ b = invariantForm a b := by
  rw [invariantForm_eq_sum]
  simp only [Fin.sum_univ_two, mixedDet₂]
  ring

/-- The planar determinant is half the square of its form. -/
theorem two_mul_det₂ (a : Mat R 2 2) : 2 * a.det₂ = invariantForm a a := by
  rw [← mixedDet₂_eq_invariantForm, det₂, mixedDet₂]
  ring

/-- The third derivative along the identity, which all other relations are made of. -/
theorem det₃Third_one (a b : Mat R 3 3) : det₃Third 1 a b = invariantForm a b := by
  rw [det₃Third_eq, invariantForm_eq_sum]
  simp only [Fin.sum_univ_three, det₃Columns, get_one, Fin.isValue, Fin.reduceEq, reduceIte]
  ring

/-- The second derivative along the identity is the form of the second invariant. -/
theorem det₃Second_one (a b : Mat R 3 3) : a.det₃Second 1 b = invariantForm a b := by
  rw [det₃Second_eq_det₃Third, det₃Third_one, invariantForm_comm]

/-- The first derivative is half the third one with the matrix itself as the other directions. -/
theorem two_mul_det₃First (a x : Mat R 3 3) : 2 * a.det₃First x = det₃Third x a a := by
  rw [det₃First_eq, det₃Third_eq]
  ring

/-- So the first derivative along the identity is the second invariant. -/
theorem two_mul_det₃First_one (a : Mat R 3 3) : 2 * a.det₃First 1 = invariantForm a a := by
  rw [two_mul_det₃First, det₃Third_one]

/-- The expansion of the determinant along the identity. Its coefficients are the trace, the first
derivative along the identity and the determinant itself. -/
theorem det₃_add_scale_one (a : Mat R 3 3) (t : R) :
    (a + scale 1 t).det₃ = t ^ 3 + a.trace * t ^ 2 + a.det₃First 1 * t + a.det₃ := by
  rw [trace_eq_sum, det₃First_eq]
  simp only [Fin.sum_univ_three, det₃, det₃Columns, get_add, get_scale, get_one, Fin.isValue,
    Fin.reduceEq, reduceIte]
  ring

end Mat

namespace Tree

variable {K : Type} [Field K] [Primitives K] {Γ : Nat → Shape} {n : Nat}

/-- The first principal invariant at a matrix. -/
def firstInvariantAt (A : Mat K n n) : Tree K (Builtin K Γ) (.square n) .scalar :=
  leaf (.trace ⟨A.trace⟩)

/-- The second principal invariant at a matrix. -/
def secondInvariantAt (A : Mat K n n) : Tree K (Builtin K Γ) (.square n) .scalar :=
  leaf (.secondInvariant
    ⟨A, A.trace, 1 / Scalar.int 2 * (A.trace * A.trace - (A * A).trace)⟩)

/-- The determinant at a matrix. -/
def detAt (d : Dimension n) (A : Mat K n n) : Tree K (Builtin K Γ) (.square n) .scalar :=
  leaf (.det d ⟨A, d.det A⟩)

section Built

variable {A : Mat K n n} (finite : A.Finite)

include finite

/-- A leaf that accepts the matrix `A` holds the first invariant. -/
theorem tree?_trace :
    (Formula.leaf (.trace A) : Formula K (Seed K Γ) _ _).tree? = .ok (firstInvariantAt A) :=
  Formula.tree?_leaf_eq_ok_iff.2 ⟨_, Mat.build_eq_ok_iff.2 ⟨finite, rfl⟩, rfl⟩

theorem tree?_secondInvariant :
    (Formula.leaf (.secondInvariant A) : Formula K (Seed K Γ) _ _).tree? =
      .ok (secondInvariantAt A) :=
  Formula.tree?_leaf_eq_ok_iff.2 ⟨_, Mat.build_eq_ok_iff.2 ⟨finite, rfl⟩, rfl⟩

theorem tree?_det (d : Dimension n) :
    (Formula.leaf (.det d A) : Formula K (Seed K Γ) _ _).tree? = .ok (detAt d A) :=
  Formula.tree?_leaf_eq_ok_iff.2 ⟨_, Mat.build_eq_ok_iff.2 ⟨finite, rfl⟩, rfl⟩

end Built

/-- The value of the second invariant is half the square of its form. -/
theorem value_secondInvariantAt (two : (2 : K) ≠ 0) {A : Mat K n n} {v : K}
    (h : 2 * v = Mat.invariantForm A A) :
    (secondInvariantAt A : Tree K (Builtin K Γ) _ _).value = v := by
  refine (SecondInvariant.value_eq A).trans ?_
  rw [← h]
  field_simp

/-- In the plane the determinant is the second invariant. -/
theorem sameMembers_secondInvariantAt (two : (2 : K) ≠ 0) (A : Mat K 2 2) :
    SameMembers (secondInvariantAt A : Tree K (Builtin K Γ) _ _) (detAt .plane A) := by
  constructor
  · exact (value_secondInvariantAt two (Mat.two_mul_det₂ A)).symm
  · rfl
  · exact fun _ => rfl
  · exact fun X => by cases X <;> rfl
  · exact fun _ _ => rfl
  · exact fun _ _ _ => rfl

theorem sameAnswers_secondInvariantAt (A : Mat K 2 2) :
    SameAnswers (secondInvariantAt A : Tree K (Builtin K Γ) _ _) (detAt .plane A) := by
  constructor
  · intro X dx
    cases X with
    | argument => exact congrArg some (Mat.mixedDet₂_eq_invariantForm A dx)
    | var i => rfl
  · intro X Y dx dy
    cases X with
    | argument =>
      cases Y with
      | argument => exact congrArg some (Mat.mixedDet₂_eq_invariantForm dx dy)
      | var j => rfl
    | var i => rfl
  · intro X Y Z dx dy dz
    cases X <;> cases Y <;> cases Z <;> rfl

/-- The principal invariants belong to one polynomial. In three dimensions, for a matrix `A` and any
number `t`, the determinant of `A + t * 1` is `t ^ 3 + I₁ * t ^ 2 + I₂ * t + I₃`, where the
coefficients are the values of the trace, the second invariant and the determinant at `A`. So along
the identity the derivatives of the determinant are those of the invariants: the first one is the
second invariant, the second one is twice the trace along the identity again and the first
derivative of the second invariant along other directions, and the third one is the second
derivative of the second invariant. In the plane the second invariant and the determinant have the
same value, the same members and the same derivatives. -/
theorem principal_invariants_characteristic (two : (2 : K) ≠ 0) :
    (∀ {A : Mat K 3 3}, A.Finite →
      ∃ I₁ I₂ I₃ : Tree K (Builtin K Γ) (.square 3) .scalar,
        (Formula.leaf (.trace A)).tree? = .ok I₁ ∧
        (Formula.leaf (.secondInvariant A)).tree? = .ok I₂ ∧
        (Formula.leaf (.det .space A)).tree? = .ok I₃ ∧
        (∀ t : K, (A + Mat.scale 1 t).Finite →
          ∃ f : Tree K (Builtin K Γ) (.square 3) .scalar,
            (Formula.leaf (.det .space (A + Mat.scale 1 t))).tree? = .ok f ∧
            f.value = t ^ 3 + I₁.value * t ^ 2 + I₂.value * t + I₃.value) ∧
        I₃.d₁? .argument (1 : Mat K 3 3) = some I₂.value ∧
        I₃.d₂? .argument .argument (1 : Mat K 3 3) (1 : Mat K 3 3) = some (2 * I₁.value : K) ∧
        (∀ dA, ∃ d, I₂.d₁? .argument dA = some d ∧
          I₃.d₂? .argument .argument (1 : Mat K 3 3) dA = some d) ∧
        ∀ dA dB, ∃ d, I₂.d₂? .argument .argument dA dB = some d ∧
          I₃.d₃? .argument .argument .argument (1 : Mat K 3 3) dA dB = some d) ∧
    ∀ {A : Mat K 2 2}, A.Finite →
      ∃ f g : Tree K (Builtin K Γ) (.square 2) .scalar,
        (Formula.leaf (.secondInvariant A)).tree? = .ok f ∧
        (Formula.leaf (.det .plane A)).tree? = .ok g ∧ SameMembers f g ∧ SameAnswers f g := by
  constructor
  · intro A finite
    have hsecond := value_secondInvariantAt (Γ := Γ) two (Mat.two_mul_det₃First_one A)
    refine ⟨_, _, _, tree?_trace finite, tree?_secondInvariant finite, tree?_det finite .space,
      ?_, ?_, ?_, ?_, ?_⟩
    · intro t hmoved
      refine ⟨_, tree?_det hmoved .space, ?_⟩
      rw [hsecond]
      exact Mat.det₃_add_scale_one A t
    · exact congrArg some hsecond.symm
    · apply congrArg some
      change A.det₃Second 1 1 = 2 * A.trace
      rw [Mat.det₃Second_one, Mat.invariantForm_one]
      push_cast
      ring
    · exact fun dA => ⟨_, rfl, congrArg some (Mat.det₃Second_one A dA)⟩
    · exact fun dA dB => ⟨_, rfl, congrArg some (Mat.det₃Third_one dA dB)⟩
  · intro A finite
    exact ⟨_, _, tree?_secondInvariant finite, tree?_det finite .plane,
      sameMembers_secondInvariantAt two A, sameAnswers_secondInvariantAt A⟩

/-- The invariants of the rows `2 1 0`, `0 3 1` and `1 0 1` are `6`, `11` and `7`, and the
determinant with `2` added on the diagonal is `61`. -/
theorem principal_invariants_characteristic_rows :
    let A : Mat ℚ 3 3 := ⟨#v[#v[2, 1, 0], #v[0, 3, 1], #v[1, 0, 1]]⟩
    let B : Mat ℚ 2 2 := ⟨#v[#v[1, 2], #v[3, 4]]⟩
    (2 : ℚ) ≠ 0 ∧ A.Finite ∧ (A + Mat.scale 1 2).Finite ∧ B.Finite ∧
    (∃ I₁ I₂ I₃ f : Tree ℚ (Builtin ℚ fun _ => .scalar) (.square 3) .scalar,
      (Formula.leaf (.trace A)).tree? = .ok I₁ ∧
      (Formula.leaf (.secondInvariant A)).tree? = .ok I₂ ∧
      (Formula.leaf (.det .space A)).tree? = .ok I₃ ∧
      (Formula.leaf (.det .space (A + Mat.scale 1 2))).tree? = .ok f ∧
      f.value = (2 ^ 3 + I₁.value * 2 ^ 2 + I₂.value * 2 + I₃.value : ℚ) ∧
      I₃.d₁? .argument (1 : Mat ℚ 3 3) = some (11 : ℚ) ∧ f.value = (61 : ℚ)) ∧
    ∃ f g : Tree ℚ (Builtin ℚ fun _ => .scalar) (.square 2) .scalar,
      (Formula.leaf (.secondInvariant B)).tree? = .ok f ∧
      (Formula.leaf (.det .plane B)).tree? = .ok g ∧ SameMembers f g ∧ SameAnswers f g := by
  intro A B
  have finite : A.Finite := fun _ _ => rfl
  have hmoved : (A + Mat.scale 1 2).Finite := fun _ _ => rfl
  have hplane : B.Finite := fun _ _ => rfl
  obtain ⟨hspace, hsame⟩ := principal_invariants_characteristic (K := ℚ)
    (Γ := fun _ => .scalar) two_ne_zero
  obtain ⟨I₁, I₂, I₃, h₁, h₂, h₃, hvalue, hfirst, -⟩ := hspace finite
  obtain ⟨f, hf, hpolynomial⟩ := hvalue 2 hmoved
  obtain rfl : I₂ = secondInvariantAt A :=
    Except.ok.inj (h₂.symm.trans (tree?_secondInvariant finite))
  obtain rfl : f = detAt .space (A + Mat.scale 1 2) :=
    Except.ok.inj (hf.symm.trans (tree?_det hmoved .space))
  have hsecond : (secondInvariantAt A : Tree ℚ (Builtin ℚ fun _ => .scalar) _ _).value =
      (11 : ℚ) := by
    decide +kernel
  have hdet : (detAt .space (A + Mat.scale 1 2) :
      Tree ℚ (Builtin ℚ fun _ => .scalar) _ _).value = (61 : ℚ) := by
    decide +kernel
  exact ⟨two_ne_zero, finite, hmoved, hplane, ⟨I₁, _, I₃, _, h₁, h₂, h₃, hf, hpolynomial,
    hfirst.trans (congrArg some hsecond), hdet⟩, hsame hplane⟩

end Tree

end Directional
