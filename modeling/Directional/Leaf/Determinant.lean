import Directional.DomainError
import Directional.Matrix.Determinant

namespace Directional

/-- The determinant as a leaf, at its current matrix. -/
structure Determinant (K : Type) (n : Nat) where
  matrix : Mat K n n
  value : K

namespace Determinant

variable {K : Type} [Scalar K] {n : Nat}

/-- The determinant of a matrix of finite entries. -/
def at? (d : Dimension n) (a : Mat K n n) : Except (DomainError K) (Determinant K n) := do
  DomainError.checkAllFinite "det" a.entries
  return ⟨a, d.det a⟩

end Determinant

end Directional
