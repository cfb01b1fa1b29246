import Directional.Term.Leibniz

namespace Directional.Composition

variable {K : Type} [Scalar K] {s t : Shape}

/-- The first derivative of a composition. The derivatives of the outer function are multilinear
maps `f₁`, `f₂` and `f₃` of directions, and those of the inner function are the directions put into
them. -/
def first (f₁ : Value K t → Term K s) (dg : Term K t) : Term K s :=
  dg.bind f₁

/-- The outer second derivative in two inner derivatives that are both there. -/
def along (f₂ : Value K t → Value K t → Term K s) (a b : Term K t) : Term K s :=
  a.bind fun a => b.bind fun b => f₂ a b

def second (f₁ : Value K t → Term K s) (f₂ : Value K t → Value K t → Term K s)
    (dg : Mixed₂ (Term K t)) : Term K s :=
  .sum (along f₂ dg.x dg.y) (dg.xy.bind f₁)

def third (f₁ : Value K t → Term K s) (f₂ : Value K t → Value K t → Term K s)
    (f₃ : Value K t → Value K t → Value K t → Term K s) (dg : Mixed₃ (Term K t)) : Term K s :=
  .sumAll [
    dg.x.bind fun gx => dg.y.bind fun gy => dg.z.bind fun gz => f₃ gx gy gz,
    along f₂ dg.xz dg.y,
    along f₂ dg.x dg.yz,
    along f₂ dg.xy dg.z,
    dg.xyz.bind f₁]

/-- When the second derivative of a composition is present, for an outer function with the first
and second derivatives `f₁` and `f₂`. -/
def hasSecond (f₁ f₂ : Bool) (dg : Mixed₂ Bool) : Bool :=
  (f₂ && dg.x && dg.y) || (f₁ && dg.xy)

/-- When the third derivative of a composition is present. -/
def hasThird (f₁ f₂ f₃ : Bool) (dg : Mixed₃ Bool) : Bool :=
  (f₃ && dg.x && dg.y && dg.z) ||
    (f₂ && ((dg.xz && dg.y) || (dg.x && dg.yz) || (dg.xy && dg.z))) ||
    (f₁ && dg.xyz)

end Directional.Composition
