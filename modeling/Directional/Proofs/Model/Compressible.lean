import Directional.Proofs.Exact.Multilinear
import Directional.Proofs.Exact.Real
import Directional.Proofs.Model.Incompressible
import Directional.Proofs.Taylor.Determinant
import Directional.Proofs.Taylor.Power

namespace Directional

namespace Dimension

variable {R : Type} [CommRing R] {n : Nat} (d : Dimension n)

/-- The determinant of the identity is one. -/
theorem det_one : d.det (1 : Mat R n n) = 1 := by
  have hone : Matrix.of (1 : Mat R n n).get = 1 := by
    ext i j
    rw [Matrix.of_apply, Mat.get_one, Matrix.one_apply]
  rw [d.det_eq_det, hone, Matrix.det_one]

/-- At the identity the volume changes with the trace. -/
theorem detFirst_one (A : Mat R n n) : d.detFirst 1 A = A.trace := by
  rw [Mat.trace_eq_sum]
  cases d with
  | plane =>
    rw [Fin.sum_univ_two, add_comm]
    simp [detFirst, Mat.mixedDet₂]
  | space =>
    rw [Fin.sum_univ_three, detFirst, Mat.det₃First_eq]
    simp [Mat.det₃Columns]

end Dimension

namespace NeoHooke

variable {K : Type} [Field K] [LinearOrder K] [Primitives K]
  [Scalar.ExactOrder K] {Γ : Nat → Shape} {n : Nat}

/-- What the square keeps. -/
theorem jet_square (x : K) : (ElementaryFunction.pow 2 1).jet x = ⟨x ^ 2, 2 * x, 2, 0⟩ := by
  have htwo : (2 : Int32).toInt = (2 : ℕ) := rfl
  have hderivative (j : ℕ) (hj : j < 4) :=
    ElementaryFunction.powerDerivative_of_natural htwo x hj
  rw [ElementaryFunction.jet, hderivative 0 (by omega), hderivative 1 (by omega),
    hderivative 2 (by omega), hderivative 3 (by omega)]
  congr 1 <;> norm_num [Nat.descFactorial]

section Volume

variable (d₀ d₁ j u v w : K)

/-- The energy of a change of volume in closed form. -/
theorem value_volumeEnergyAt :
    (volumeEnergyAt d₀ d₁ j : Tree K (Builtin K Γ) _ _).value =
      (d₀ * j ^ 2 + d₁ * Scalar.ln j - d₀ : K) := by
  change (((ElementaryFunction.pow 2 1).jet j).value * d₀ + Scalar.ln j * d₁ + -d₀ : K) = _
  rw [jet_square]
  ring

/-- Its first derivative, by the volume. -/
theorem d₁_volumeEnergyAt :
    (volumeEnergyAt d₀ d₁ j : Tree K (Builtin K Γ) _ _).d₁ .argument u =
      ((2 * d₀ * j + d₁ / j) * u : K) := by
  change (((ElementaryFunction.pow 2 1).jet j).first * u * d₀ + 1 / j / 1 * u * d₁ : K) = _
  rw [jet_square]
  ring

theorem d₂_volumeEnergyAt :
    (volumeEnergyAt d₀ d₁ j : Tree K (Builtin K Γ) _ _).d₂ .argument .argument u v =
      ((2 * d₀ - d₁ / j ^ 2) * u * v : K) := by
  change (((ElementaryFunction.pow 2 1).jet j).second * u * v * d₀ +
    -(1 / j) * (1 / j) / 1 * u * v * d₁ : K) = _
  rw [jet_square]
  ring

theorem d₃_volumeEnergyAt :
    (volumeEnergyAt d₀ d₁ j : Tree K (Builtin K Γ) _ _).d₃ .argument .argument .argument u v w =
      (2 * d₁ / j ^ 3 * u * v * w : K) := by
  change (((ElementaryFunction.pow 2 1).jet j).third * u * v * w * d₀ +
    Scalar.int 2 * (1 / j) * (1 / j) * (1 / j) / 1 * u * v * w * d₁ : K) = _
  rw [jet_square, Scalar.int_two]
  ring

end Volume

section Penalty

variable (d : Dimension n) (d₀ d₁ : K) (F A B C : Mat K n n)

/-- The derivatives of the penalty along matrices are those of the energy times the mixed
derivatives of the determinant, by the rule for compositions. -/
theorem d₁_volumetricAt :
    (volumetricAt d d₀ d₁ F : Tree K (Builtin K Γ) _ _).d₁ .argument A =
      ((2 * d₀ * d.det F + d₁ / d.det F) * d.detFirst F A : K) := by
  rw [volumetricAt, Tree.d₁_chain _ (Tree.additive _), Tree.d₁_det, d₁_volumeEnergyAt]

theorem d₂_volumetricAt :
    (volumetricAt d d₀ d₁ F : Tree K (Builtin K Γ) _ _).d₂ .argument .argument A B =
      ((2 * d₀ - d₁ / d.det F ^ 2) * d.detFirst F A * d.detFirst F B +
        (2 * d₀ * d.det F + d₁ / d.det F) * d.detSecond F A B : K) := by
  rw [volumetricAt, Tree.d₂_chain _ _ (Tree.additive _), Tree.d₁_det, Tree.d₁_det, Tree.d₂_det,
    d₂_volumeEnergyAt, d₁_volumeEnergyAt]
  rfl

/-- The third derivative of the penalty. The determinant contributes its own third derivative. -/
theorem d₃_volumetricAt :
    (volumetricAt d d₀ d₁ F : Tree K (Builtin K Γ) _ _).d₃ .argument .argument .argument A B C =
      (2 * d₁ / d.det F ^ 3 * d.detFirst F A * d.detFirst F B * d.detFirst F C +
        (2 * d₀ - d₁ / d.det F ^ 2) * (d.detSecond F A B * d.detFirst F C +
          d.detSecond F A C * d.detFirst F B + d.detSecond F B C * d.detFirst F A) +
        (2 * d₀ * d.det F + d₁ / d.det F) * d.detThird A B C : K) := by
  rw [volumetricAt, Tree.d₃_chain _ _ _ (Tree.additive _)]
  simp only [Tree.d₁_det, Tree.d₂_det, Tree.d₃_det, d₃_volumeEnergyAt, d₂_volumeEnergyAt,
    d₁_volumeEnergyAt]
  change (_ + (_ + (_ + (_ + _))) : K) = _
  ring

end Penalty

section Both

variable (d : Dimension n) (c d₀ d₁ : K) (F A B C : Mat K n n)

/-- The energy of both parts together. -/
theorem value_compressibleAt :
    (compressibleAt d c d₀ d₁ F : Tree K (Builtin K Γ) _ _).value =
      (c * (F.inner F - n) + d₀ * d.det F ^ 2 + d₁ * Scalar.ln (d.det F) - d₀ : K) := by
  change ((incompressibleAt c F : Tree K (Builtin K Γ) _ _).value +
    (volumeEnergyAt d₀ d₁ (d.det F) : Tree K (Builtin K Γ) _ _).value : K) = _
  rw [value_incompressibleAt, value_volumeEnergyAt]
  ring

theorem d₁_compressibleAt :
    (compressibleAt d c d₀ d₁ F : Tree K (Builtin K Γ) _ _).d₁ .argument A =
      (2 * c * F.inner A + (2 * d₀ * d.det F + d₁ / d.det F) * d.detFirst F A : K) := by
  rw [compressibleAt, Tree.mkSum, Tree.d₁_sum, d₁_volumetricAt, Tree.d₁, d₁?_incompressibleAt]
  rfl

theorem d₂_compressibleAt :
    (compressibleAt d c d₀ d₁ F : Tree K (Builtin K Γ) _ _).d₂ .argument .argument A B =
      (2 * c * A.inner B + (2 * d₀ - d₁ / d.det F ^ 2) * d.detFirst F A * d.detFirst F B +
        (2 * d₀ * d.det F + d₁ / d.det F) * d.detSecond F A B : K) := by
  rw [compressibleAt, Tree.mkSum, Tree.d₂_sum, d₂_volumetricAt, Tree.d₂, d₂?_incompressibleAt]
  exact (add_assoc _ _ _).symm

/-- The incompressible part has no third derivative. -/
theorem d₃_compressibleAt :
    (compressibleAt d c d₀ d₁ F : Tree K (Builtin K Γ) _ _).d₃ .argument .argument .argument A B C =
      (2 * d₁ / d.det F ^ 3 * d.detFirst F A * d.detFirst F B * d.detFirst F C +
        (2 * d₀ - d₁ / d.det F ^ 2) * (d.detSecond F A B * d.detFirst F C +
          d.detSecond F A C * d.detFirst F B + d.detSecond F B C * d.detFirst F A) +
        (2 * d₀ * d.det F + d₁ / d.det F) * d.detThird A B C : K) := by
  rw [compressibleAt, Tree.mkSum, Tree.d₃_sum, d₃_volumetricAt]
  exact zero_add _

end Both

/-- Without rounding, a determinant that the logarithm accepts is enough. -/
theorem tree?_of_domain (d : Dimension n) (c d₀ d₁ : K) {F : Mat K n n}
    (hone : ElementaryFunction.ln.domainLeft? (1 : K) = none) (hne : d.det F ≠ 0)
    (hdet : ElementaryFunction.ln.domainLeft? (d.det F) = none) :
    (compressible d c d₀ d₁ F : Formula K (Seed K Γ) _ _).tree? =
      .ok (compressibleAt d c d₀ d₁ F) := by
  have hmatrix (name : String) (A : Mat K n n) :
      DomainError.checkAllFinite name A.entries = .ok () :=
    Mat.checkAllFinite_eq_ok_iff.2 fun _ _ => Scalar.ExactOrder.isFinite _
  have haccepts {f : ElementaryFunction} {x : K} (h : f.domainLeft? x = none) :
      Elementary.at? f x = .ok ⟨f, x, f.jet x⟩ :=
    Elementary.at?_eq_ok_iff.2 ⟨Scalar.ExactOrder.isFinite x, h, rfl⟩
  have hsquare {x : K} (hx : x ≠ 0) : (ElementaryFunction.pow 2 1).domainLeft? x = none :=
    ElementaryFunction.domainLeft?_pow_of_ne hx fun h => absurd rfl h
  rw [tree?_compressible, hmatrix, hmatrix, hmatrix, hmatrix, haccepts (hsquare one_ne_zero),
    haccepts hone, haccepts (hsquare hne), haccepts hdet]
  rfl

/-- The energy of a compressible body in closed form, in two and three dimensions. Let it be built
at some deformation gradient and accept updates, the last of which is `F`, let `j` be the
determinant of `F`, and let `mixed` hold the mixed derivatives of the determinant at `F` along `A`,
`B` and `C`: the coefficients of its expansion when these are added to `F` along three numbers with
square zero. Then the value and the derivatives are those of the energy of an incompressible body
plus those of `d₀ * j ^ 2 + d₁ * ln j - d₀`, whose derivatives in `j` are `p₁`, `p₂` and `p₃`. In
the plane the determinant has no third derivative. At the identity, if the logarithm of one is zero,
the value is zero, and the energy is stress free with `d₁ = -(2 * c + 2 * d₀)`. -/
theorem compressible_closed_form {d : Dimension n} {c d₀ d₁ : K} {F₀ : Mat K n n}
    {points : List (Mat K n n)} {t₀ t : Tree K (Builtin K Γ) (.square n) .scalar}
    (built : (compressible d c d₀ d₁ F₀).tree? = .ok t₀)
    (accepted : t₀.run (points.map .update) = .ok t) (hln : Scalar.ln (1 : K) = 0) :
    let F := points.getLastD F₀
    let j : K := (Matrix.of F.get).det
    let p₁ := 2 * d₀ * j + d₁ / j
    let p₂ := 2 * d₀ - d₁ / j ^ 2
    let p₃ := 2 * d₁ / j ^ 3
    t.value = (c * (∑ i, ∑ k, F.get i k * F.get i k - n) + d₀ * j ^ 2 + d₁ * Scalar.ln j - d₀ : K) ∧
    (∀ A B C : Mat K n n,
      let moved : Mat (Taylor K) n n := Value.perturbed (s := .square n) F A B C
      let expansion : Value (Taylor K) .scalar := (Matrix.of moved.get).det
      let mixed : Mixed₃ K := expansion.coefficients
      t.d₁ .argument A = (2 * c * ∑ i, ∑ k, F.get i k * A.get i k + p₁ * mixed.x : K) ∧
      t.d₂ .argument .argument A B =
        (2 * c * ∑ i, ∑ k, A.get i k * B.get i k + p₂ * mixed.x * mixed.y + p₁ * mixed.xy : K) ∧
      t.d₃ .argument .argument .argument A B C =
        (p₃ * mixed.x * mixed.y * mixed.z +
          p₂ * (mixed.xy * mixed.z + mixed.xz * mixed.y + mixed.yz * mixed.x) +
          p₁ * mixed.xyz : K) ∧
      (n = 2 → mixed.xyz = 0)) ∧
    (F = 1 → t.value = (0 : K) ∧
      (d₁ = -(2 * c + 2 * d₀) → ∀ A : Mat K n n, t.d₁ .argument A = (0 : K))) := by
  intro F j p₁ p₂ p₃
  obtain rfl : t = compressibleAt d c d₀ d₁ F := eq_compressibleAt_of_run built accepted
  have hj : j = d.det F := (d.det_eq_det F).symm
  refine ⟨?_, ?_, ?_⟩
  · rw [value_compressibleAt, hj, Mat.inner_eq_sum]
  · intro A B C moved expansion mixed
    -- The sum over all permutations is the determinant of the leaf, also over the expansions.
    have hexpansion : expansion = d.det moved := (d.det_eq_det moved).symm
    have hmixed : mixed = _ :=
      (congrArg _ hexpansion).trans (d.coefficients_det_perturbed F A B C)
    rw [d₁_compressibleAt, d₂_compressibleAt, d₃_compressibleAt, hmixed, ← hj, Mat.inner_eq_sum,
      Mat.inner_eq_sum]
    refine ⟨rfl, rfl, rfl, ?_⟩
    rintro rfl
    cases d
    rfl
  · intro hone
    rw [hone, value_compressibleAt, d.det_one, Mat.inner_one_one, hln]
    constructor
    · ring
    · intro hfree A
      rw [d₁_compressibleAt, d.det_one, d.detFirst_one, Mat.inner_one, hfree]
      ring

/-- The energy with the factors `1`, `2` and `-6` over the real numbers, built at the identity,
where it is stress free, and moved to a stretch by two. -/
theorem compressible_closed_form_stretch :
    let F : Mat ℝ 2 2 := ⟨#v[#v[2, 0], #v[0, 1]]⟩
    let energy (F : Mat ℝ 2 2) : Tree ℝ (Builtin ℝ fun _ => .scalar) (.square 2) .scalar :=
      compressibleAt .plane 1 2 (-6) F
    Scalar.ln (1 : ℝ) = 0 ∧ (compressible .plane 1 2 (-6) 1).tree? = .ok (energy 1) ∧
    (energy 1).run ([F].map .update) = .ok (energy F) ∧
    (energy F).value = (9 - 6 * Real.log 2 : ℝ) ∧ (energy 1).value = (0 : ℝ) ∧
    ∀ A : Mat ℝ 2 2, (energy 1).d₁ .argument A = (0 : ℝ) := by
  intro F energy
  have hln : Scalar.ln (1 : ℝ) = 0 := Real.log_one
  have hone : Dimension.plane.det (1 : Mat ℝ 2 2) = 1 := Dimension.plane.det_one
  have hdet : Dimension.plane.det F = 2 := by
    change (2 * 1 - 0 * 0 : ℝ) = 2
    norm_num
  have hdomain {x : ℝ} (hx : 0 < x) : ElementaryFunction.ln.domainLeft? x = none :=
    if_neg fun h => not_le.2 hx (of_decide_eq_true h)
  have built : (compressible .plane 1 2 (-6) 1).tree? = .ok (energy 1) :=
    tree?_of_domain .plane 1 2 (-6) (hdomain one_pos) (hone ▸ one_ne_zero) (hone ▸ hdomain one_pos)
  have moved : (compressible .plane 1 2 (-6) F).tree? = .ok (energy F) :=
    tree?_of_domain .plane 1 2 (-6) (hdomain one_pos) (hdet ▸ two_ne_zero) (hdet ▸ hdomain two_pos)
  have unmoved : (energy 1).run (List.map .update []) = .ok (energy 1) := rfl
  have accepted : (energy 1).run ([F].map .update) = .ok (energy F) :=
    (Tree.run_concat _ [] _).trans ((Formula.toExcept_call_of_built built _).trans moved)
  obtain ⟨hvalue, -, -⟩ := compressible_closed_form built accepted hln
  obtain ⟨-, -, hidentity⟩ := compressible_closed_form built unmoved hln
  obtain ⟨hzero, hfree⟩ := hidentity rfl
  refine ⟨hln, built, accepted, hvalue.trans ?_, hzero, hfree (by norm_num)⟩
  have hj : (Matrix.of F.get).det = 2 := (Dimension.plane.det_eq_det F).symm.trans hdet
  have hnorm : ∑ i, ∑ k, F.get i k * F.get i k = 5 := by
    norm_num [Fin.sum_univ_two, F, Mat.get]
  change (1 * (∑ i, ∑ k, F.get i k * F.get i k - (2 : ℕ)) + 2 * (Matrix.of F.get).det ^ 2 +
    -6 * Real.log (Matrix.of F.get).det - 2 : ℝ) = _
  rw [hj, hnorm]
  push_cast
  ring

end NeoHooke

end Directional
