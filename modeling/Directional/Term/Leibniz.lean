import Directional.Term

namespace Directional

/-- The mixed derivatives along two directions `x` and `y`. -/
structure Mixed₂ (α : Type) where
  x : α
  y : α
  xy : α

/-- The mixed derivatives along three directions `x`, `y` and `z`. -/
structure Mixed₃ (α : Type) where
  x : α
  y : α
  z : α
  xy : α
  xz : α
  yz : α
  xyz : α

namespace Leibniz

variable {K : Type} [Scalar K] {s t u : Shape}

/-- The first derivative of a product of values `f` and `g`. The rules are written over the
derivatives of the operands, whatever these are taken of. -/
def first (m : Pairing s t u) (f : Value K s) (df : Term K s) (g : Value K t) (dg : Term K t) :
    Term K u :=
  .sumAll [.product m df (some g), .product m (some f) dg]

def second (m : Pairing s t u) (f : Value K s) (df : Mixed₂ (Term K s))
    (g : Value K t) (dg : Mixed₂ (Term K t)) : Term K u :=
  .sumAll [
    .product m df.xy (some g),
    .product m df.x dg.y,
    .product m df.y dg.x,
    .product m (some f) dg.xy]

def third (m : Pairing s t u) (f : Value K s) (df : Mixed₃ (Term K s))
    (g : Value K t) (dg : Mixed₃ (Term K t)) : Term K u :=
  .sumAll [
    .product m df.xyz (some g),
    .product m df.xy dg.z,
    .product m df.xz dg.y,
    .product m df.x dg.yz,
    .product m df.yz dg.x,
    .product m df.y dg.xz,
    .product m df.z dg.xy,
    .product m (some f) dg.xyz]

/-- When the first derivative of a product is present. -/
def hasFirst (df dg : Bool) : Bool :=
  df || dg

/-- When the second derivative of a product is present. -/
def hasSecond (df dg : Mixed₂ Bool) : Bool :=
  df.xy || (df.x && dg.y) || (df.y && dg.x) || dg.xy

/-- When the third derivative of a product is present. -/
def hasThird (df dg : Mixed₃ Bool) : Bool :=
  df.xyz || (df.xy && dg.z) || (df.xz && dg.y) || (df.x && dg.yz) || (df.yz && dg.x) ||
    (df.y && dg.xz) || (df.z && dg.xy) || dg.xyz

end Leibniz

end Directional
