import Directional.Proofs.Exact.Matrix
import Directional.Proofs.Model.Assembly
import Directional.Tree.Gradient

namespace Directional

namespace Mat

variable {R : Type} [CommRing R] {n r c : Nat}

/-- The inner product with the identity is the trace. -/
theorem inner_one (a : Mat R n n) : (1 : Mat R n n).inner a = a.trace := by
  rw [inner_eq_sum, trace_eq_sum]
  simp

/-- The identity has the dimension as its trace. -/
theorem inner_one_one : (1 : Mat R n n).inner 1 = n := by
  rw [inner_one, trace_eq_sum]
  simp

/-- The inner product with a basis matrix picks an entry. -/
theorem inner_basis (a : Mat R r c) (i : Fin r) (j : Fin c) : a.inner (basis i j) = a.get i j := by
  rw [inner_eq_sum]
  simp [ite_and]

/-- Different basis matrices are orthogonal. -/
theorem inner_basis_basis (p q : Fin (r * c)) :
    (basis (flatRow p) (flatColumn p) : Mat R r c).inner (basis (flatRow q) (flatColumn q)) =
      if p = q then 1 else 0 := by
  have hplace : flatRow q = flatRow p ∧ flatColumn q = flatColumn p ↔ p = q := by
    constructor
    · rintro ⟨hrow, hcolumn⟩
      rw [← flatIndex_flatRow_flatColumn p, ← flatIndex_flatRow_flatColumn q, hrow, hcolumn]
    · rintro rfl
      exact ⟨rfl, rfl⟩
  rw [inner_basis, get_basis]
  simp only [hplace]

end Mat

namespace NeoHooke

variable {K : Type} [Field K] [Primitives K] {Γ : Nat → Shape} {n : Nat}

section Derivatives

variable (c : K) (F A B : Mat K n n)

/-- The energy is a multiple of the sum of the squares of all entries, less a constant. -/
theorem value_incompressibleAt :
    (incompressibleAt c F : Tree K (Builtin K Γ) _ _).value = c * (F.inner F - n) := by
  change ((F.transposeMul F).trace + -((n : ℤ) : K)) * c = _
  rw [Mat.trace_transposeMul]
  push_cast
  ring

/-- Its first derivative is a multiple of the inner product. -/
theorem d₁?_incompressibleAt :
    (incompressibleAt c F : Tree K (Builtin K Γ) _ _).d₁? .argument A =
      some (2 * c * F.inner A : K) := by
  change some ((Strain.mixed A F).trace * c) = _
  rw [Strain.trace_mixed, Mat.inner_comm A F]
  congr 1
  ring

/-- Its second derivative is the same everywhere. -/
theorem d₂?_incompressibleAt :
    (incompressibleAt c F : Tree K (Builtin K Γ) _ _).d₂? .argument .argument A B =
      some (2 * c * A.inner B : K) := by
  change some ((Strain.mixed A B).trace * c) = _
  rw [Strain.trace_mixed, Mat.inner_comm B A]
  congr 1
  ring

theorem has₃_incompressibleAt (X Y Z : Slot) :
    (incompressibleAt c F : Tree K (Builtin K Γ) _ _).has₃ X Y Z = false :=
  rfl

/-- The gradient is a multiple of the deformation gradient. -/
theorem gradient_incompressibleAt :
    (incompressibleAt c F : Tree K (Builtin K Γ) _ _).gradient = F.scale (2 * c) := by
  apply Mat.ext
  intro i j
  rw [Tree.get_gradient, Tree.d₁, d₁?_incompressibleAt, Mat.inner_basis, Mat.get_scale]
  exact mul_comm _ _

/-- The Hessian is a multiple of the identity. -/
theorem hessian_incompressibleAt :
    (incompressibleAt c F : Tree K (Builtin K Γ) _ _).hessian = Mat.scale 1 (2 * c) := by
  apply Mat.ext
  intro p q
  rw [Tree.hessian, Mat.get_ofFn, Tree.d₂, d₂?_incompressibleAt, Mat.inner_basis_basis,
    Mat.get_scale, Mat.get_one]
  exact mul_comm _ _

omit F A B in
/-- The identity is without energy. -/
theorem value_incompressibleAt_one :
    (incompressibleAt c (1 : Mat K n n) : Tree K (Builtin K Γ) _ _).value = (0 : K) := by
  rw [value_incompressibleAt, Mat.inner_one_one, sub_self, mul_zero]

end Derivatives

/-- The energy of an incompressible body in closed form, in every dimension and over every field.
Let it be built at some deformation gradient and accept updates, the last of which is `F`. Then it
is `c` times the sum of the squares of the entries of `F` less the dimension, its derivative along
`A` is `2 * c` times the inner product of `F` and `A`, and its second derivative along `A` and `B`
is `2 * c` times that of `A` and `B`. There is no third derivative. So the gradient is `2 * c * F`,
and the Hessian is `2 * c` times the identity. At the identity the value is zero. -/
theorem incompressible_closed_form {c : K} {F₀ : Mat K n n} {points : List (Mat K n n)}
    {t₀ t : Tree K (Builtin K Γ) (.square n) .scalar}
    (built : (incompressible c F₀).tree? = .ok t₀)
    (accepted : t₀.run (points.map .update) = .ok t) :
    let F := points.getLastD F₀
    t.value = (c * (∑ i, ∑ j, F.get i j * F.get i j - n) : K) ∧
    (∀ A : Mat K n n, t.d₁? .argument A = some (2 * c * ∑ i, ∑ j, F.get i j * A.get i j : K)) ∧
    (∀ A B : Mat K n n, t.d₂? .argument .argument A B =
      some (2 * c * ∑ i, ∑ j, A.get i j * B.get i j : K)) ∧
    (∀ X Y Z, t.has₃ X Y Z = false) ∧
    t.gradient = F.scale (2 * c) ∧ t.hessian = Mat.scale 1 (2 * c) ∧
    (F = 1 → t.value = (0 : K)) := by
  intro F
  obtain rfl : t = incompressibleAt c F := eq_incompressibleAt_of_run built accepted
  simp only [← Mat.inner_eq_sum]
  refine ⟨value_incompressibleAt c F, d₁?_incompressibleAt c F, d₂?_incompressibleAt c F,
    has₃_incompressibleAt c F, gradient_incompressibleAt c F, hessian_incompressibleAt c F, ?_⟩
  intro hone
  rw [hone]
  exact value_incompressibleAt_one c

/-- The energy with the factor three, built at the identity and moved to the rows `1 2` and `3 4` by
way of zero. It is `3 * (30 - 2)`. -/
theorem incompressible_closed_form_rows :
    let F : Mat ℚ 2 2 := ⟨#v[#v[1, 2], #v[3, 4]]⟩
    let energy (F : Mat ℚ 2 2) : Tree ℚ (Builtin ℚ fun _ => .scalar) (.square 2) .scalar :=
      incompressibleAt 3 F
    (incompressible 3 1).tree? = .ok (energy 1) ∧
    (energy 1).run ([0, F].map .update) = .ok (energy F) ∧ (energy F).value = (84 : ℚ) ∧
    (energy F).gradient = F.scale (2 * 3) ∧ (energy F).hessian = Mat.scale 1 (2 * 3) ∧
    (energy 1).value = (0 : ℚ) := by
  intro F energy
  have built : (incompressible 3 1).tree? = .ok (energy 1) := rfl
  have accepted : (energy 1).run ([0, F].map .update) = .ok (energy F) := rfl
  have unmoved : (energy 1).run (List.map .update []) = .ok (energy 1) := rfl
  obtain ⟨hvalue, -, -, -, hgradient, hhessian, -⟩ := incompressible_closed_form built accepted
  obtain ⟨-, -, -, -, -, -, hidentity⟩ := incompressible_closed_form built unmoved
  refine ⟨built, accepted, hvalue.trans ?_, hgradient, hhessian, hidentity rfl⟩
  decide +kernel

end NeoHooke

end Directional
