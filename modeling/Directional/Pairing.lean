import Directional.Value
import Directional.Matrix.Inner

namespace Directional

/-- A bilinear map from values of the shapes `s` and `t` to values of the shape `u`, a way in which
two values multiply. The derivative rules of a product use nothing else of it, so they are written
once for all of these maps. -/
inductive Pairing : Shape → Shape → Shape → Type where
  /-- The product of two numbers. -/
  | scalars : Pairing .scalar .scalar .scalar
  /-- The product of two matrices. -/
  | matrices (r k c : Nat) : Pairing (.matrix r k) (.matrix k c) (.matrix r c)
  /-- A number times a matrix. -/
  | scalarMatrix (r c : Nat) : Pairing .scalar (.matrix r c) (.matrix r c)
  /-- A matrix times a number. -/
  | matrixScalar (r c : Nat) : Pairing (.matrix r c) .scalar (.matrix r c)
  /-- The inner product of two values of one shape: the sum of the products of their numbers. -/
  | inner (s : Shape) : Pairing s s .scalar

namespace Pairing

variable {K : Type} [Arithmetic K]

/-- The product of two values. -/
def apply : {s t u : Shape} → Pairing s t u → Value K s → Value K t → Value K u
  | _, _, _, .scalars, x, y => (x * y : K)
  | _, _, _, .matrices _ _ _, x, y => Mat.mul x y
  | _, _, _, .scalarMatrix _ _, x, y => Mat.scale y x
  | _, _, _, .matrixScalar _ _, x, y => Mat.scale x y
  | _, _, _, .inner .scalar, x, y => (x * y : K)
  | _, _, _, .inner (.matrix _ _), x, y => Mat.inner x y

/-- The product of two values with `*`, if their shapes multiply. -/
def ofProduct? : (s t : Shape) → Option ((u : Shape) × Pairing s t u)
  | .scalar, .scalar => some ⟨_, .scalars⟩
  | .scalar, .matrix r c => some ⟨_, .scalarMatrix r c⟩
  | .matrix r c, .scalar => some ⟨_, .matrixScalar r c⟩
  | .matrix r k, .matrix k' c =>
    if h : k' = k then some ⟨.matrix r c, h ▸ .matrices r k' c⟩ else none

end Pairing

end Directional
