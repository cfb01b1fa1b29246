import Directional.Term.Leibniz

namespace Directional.Square

variable {K : Type} [Scalar K] {s : Shape}

/-- Twice a term. -/
def double (x : Term K s) : Term K s :=
  x.scale (Scalar.int 2)

/-- The first derivative of the square of `f`. -/
def first (m : Pairing s s s) (f : Value K s) (df : Term K s) : Term K s :=
  double (.product m (some f) df)

/-- The second derivative of the square of `f`. Each pair of equal terms of the product rule is
computed once and doubled, so the derivatives of the value multiply in one order only. -/
def second (m : Pairing s s s) (f : Value K s) (df : Mixed₂ (Term K s)) : Term K s :=
  double (.sumAll [.product m (some f) df.xy, .product m df.x df.y])

/-- The third derivative of the square of `f`. -/
def third (m : Pairing s s s) (f : Value K s) (df : Mixed₃ (Term K s)) : Term K s :=
  double (.sumAll [
    .product m (some f) df.xyz,
    .product m df.z df.xy,
    .product m df.y df.xz,
    .product m df.yz df.x])

/-- When the second derivative of a square is present. -/
def hasSecond (df : Mixed₂ Bool) : Bool :=
  df.xy || (df.x && df.y)

/-- When the third derivative of a square is present. -/
def hasThird (df : Mixed₃ Bool) : Bool :=
  df.xyz || (df.z && df.xy) || (df.y && df.xz) || (df.yz && df.x)

/-- A square has the derivatives that a product of equal factors has. -/
theorem hasSecond_eq_leibniz (df : Mixed₂ Bool) : hasSecond df = Leibniz.hasSecond df df := by
  obtain ⟨x, y, xy⟩ := df
  revert x y xy
  decide

theorem hasThird_eq_leibniz (df : Mixed₃ Bool) : hasThird df = Leibniz.hasThird df df := by
  obtain ⟨x, y, z, xy, xz, yz, xyz⟩ := df
  revert x y z xy xz yz xyz
  decide

end Directional.Square
