import Directional.Tree.Total

namespace Directional

/-- The place of the entry in row `i` and column `j` when the entries of a matrix are numbered row
after row. -/
def flatIndex {r c : Nat} (i : Fin r) (j : Fin c) : Fin (r * c) :=
  ⟨i.val * c + j.val, by
    have hrow : i.val * c + c ≤ r * c := by
      rw [← Nat.succ_mul]
      exact Nat.mul_le_mul_right c i.isLt
    omega⟩

/-- The row of the entry with a number. -/
def flatRow {r c : Nat} (p : Fin (r * c)) : Fin r :=
  ⟨p.val / c, Nat.div_lt_of_lt_mul (Nat.mul_comm r c ▸ p.isLt)⟩

/-- The column of the entry with a number. -/
def flatColumn {r c : Nat} (p : Fin (r * c)) : Fin c :=
  ⟨p.val % c, Nat.mod_lt _ (Nat.pos_of_lt_mul_left p.isLt)⟩

@[simp] theorem flatRow_flatIndex {r c : Nat} (i : Fin r) (j : Fin c) :
    flatRow (flatIndex i j) = i := by
  have hc : 0 < c := Nat.zero_lt_of_lt j.isLt
  apply Fin.ext
  simp only [flatRow, flatIndex]
  rw [Nat.mul_comm, Nat.mul_add_div hc, Nat.div_eq_of_lt j.isLt, Nat.add_zero]

@[simp] theorem flatColumn_flatIndex {r c : Nat} (i : Fin r) (j : Fin c) :
    flatColumn (flatIndex i j) = j := by
  apply Fin.ext
  simp only [flatColumn, flatIndex]
  rw [Nat.mul_comm, Nat.mul_add_mod, Nat.mod_eq_of_lt j.isLt]

/-- Every number is that of exactly one entry, the one in its row and column. -/
theorem flatIndex_flatRow_flatColumn {r c : Nat} (p : Fin (r * c)) :
    flatIndex (flatRow p) (flatColumn p) = p := by
  apply Fin.ext
  simp only [flatIndex, flatRow, flatColumn]
  rw [Nat.mul_comm]
  exact Nat.div_add_mod p.val c

namespace Tree

variable {K : Type} [Scalar K] {Γ : Nat → Shape} {L : Shape → Shape → Type} [Leaf K Γ L]
  {r c : Nat}

/-- The matrix of the first derivatives along the basis matrices. -/
def gradient (f : Tree K L (.matrix r c) .scalar) : Mat K r c :=
  .ofFn fun i j => f.d₁ .argument (Mat.basis i j)

/-- The matrix of the second derivatives along pairs of basis matrices, which are numbered row
after row. -/
def hessian (f : Tree K L (.matrix r c) .scalar) : Mat K (r * c) (r * c) :=
  .ofFn fun p q =>
    f.d₂ .argument .argument (Mat.basis (flatRow p) (flatColumn p))
      (Mat.basis (flatRow q) (flatColumn q))

/-- The entries of the gradient are the derivatives along basis matrices. -/
@[simp] theorem get_gradient (f : Tree K L (.matrix r c) .scalar) (i : Fin r) (j : Fin c) :
    f.gradient.get i j = f.d₁ .argument (Mat.basis i j) :=
  Mat.get_ofFn _ i j

/-- The entries of the Hessian are the derivatives along pairs of basis matrices. -/
@[simp] theorem get_hessian (f : Tree K L (.matrix r c) .scalar) (i k : Fin r) (j l : Fin c) :
    f.hessian.get (flatIndex i j) (flatIndex k l) =
      f.d₂ .argument .argument (Mat.basis i j) (Mat.basis k l) := by
  simp [hessian]

end Tree

end Directional
