import Mathlib.Logic.Function.Defs
import Directional.Proofs.Exact.Multilinear
import Directional.Tree.Gradient

namespace Directional

variable {r c : Nat}

/-- Every row and column of a Hessian belongs to exactly one entry of the argument. -/
theorem flatIndex_bijective :
    Function.Bijective fun p : Fin r × Fin c => (flatIndex p.1 p.2 : Fin (r * c)) := by
  constructor
  · rintro ⟨i, j⟩ ⟨k, l⟩ h
    have hrow := congrArg flatRow h
    have hcolumn := congrArg flatColumn h
    simp only [flatRow_flatIndex, flatColumn_flatIndex] at hrow hcolumn
    rw [hrow, hcolumn]
  · intro p
    exact ⟨(flatRow p, flatColumn p), flatIndex_flatRow_flatColumn p⟩

namespace Tree

variable {K : Type} [Field K] [Primitives K] {Γ : Nat → Shape}
  (f : Tree K (Builtin K Γ) (.matrix r c) .scalar)

/-- The first derivative along any direction is a sum over the entries of the direction. -/
theorem d₁_eq_sum_gradient (A : Mat K r c) :
    f.d₁ .argument A = ∑ i, ∑ j, A.get i j * f.gradient.get i j := by
  simp only [get_gradient]
  exact Mat.map_eq_sum_basis (f.linear_d₁ .argument) A

/-- The second derivative is a sum over the entries of both directions. -/
theorem d₂_eq_sum_hessian (A B : Mat K r c) :
    f.d₂ .argument .argument A B =
      ∑ i, ∑ j, ∑ k, ∑ l,
        A.get i j * f.hessian.get (flatIndex i j) (flatIndex k l) * B.get k l := by
  have hbilinear := f.bilinear_d₂ .argument .argument
  have hinner (i : Fin r) (j : Fin c) :
      A.get i j * f.d₂ .argument .argument (Mat.basis i j) B =
        ∑ k, ∑ l, A.get i j * f.hessian.get (flatIndex i j) (flatIndex k l) * B.get k l := by
    rw [Mat.map_eq_sum_basis (hbilinear.right (Mat.basis i j)) B, Finset.mul_sum]
    refine Finset.sum_congr rfl fun k _ => ?_
    rw [Finset.mul_sum]
    refine Finset.sum_congr rfl fun l _ => ?_
    rw [get_hessian]
    ring
  calc
    f.d₂ .argument .argument A B =
        ∑ i, ∑ j, A.get i j * f.d₂ .argument .argument (Mat.basis i j) B :=
      Mat.map_eq_sum_basis (hbilinear.left B) A
    _ = _ := by simp only [hinner]

/-- Gradient and Hessian reproduce every directional derivative of a function of a matrix with `r`
rows and `c` columns, in whatever state the tree is: the first derivative along `A` is the sum of
the products of the entries of `A` and of the gradient, and the second derivative along `A` and `B`
is what the Hessian makes of the entries of both, those of `A` choosing the row and those of `B` the
column. The entry in row `i` and column `j` has the number `i * c + j` there, and every row and
column of the Hessian is the number of exactly one entry. -/
theorem gradient_and_hessian_give_derivatives (A B : Mat K r c) :
    f.d₁ .argument A = ∑ i, ∑ j, A.get i j * f.gradient.get i j ∧
    f.d₂ .argument .argument A B =
      ∑ i, ∑ j, ∑ k, ∑ l,
        A.get i j * f.hessian.get (flatIndex i j) (flatIndex k l) * B.get k l ∧
    (∀ (i : Fin r) (j : Fin c), (flatIndex i j).val = i.val * c + j.val) ∧
    Function.Bijective fun p : Fin r × Fin c => (flatIndex p.1 p.2 : Fin (r * c)) :=
  ⟨f.d₁_eq_sum_gradient A, f.d₂_eq_sum_hessian A B, fun _ _ => rfl, flatIndex_bijective⟩

end Tree

end Directional
