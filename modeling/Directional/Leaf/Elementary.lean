import Directional.DomainError
import Directional.Scalar.Power

namespace Directional

/-- The value and the first three derivatives of a function at a point. -/
structure Jet (K : Type) where
  value : K
  first : K
  second : K
  third : K

/-- The elementary functions. The exponent of a power is the quotient of two words. -/
inductive ElementaryFunction where
  | sin | cos | tan | asin | acos
  | exp | exp2
  | ln | log10 | log2
  | pow (numerator denominator : Int32)
  | sqrt | cbrt
  deriving DecidableEq

namespace ElementaryFunction

open Scalar (int)

/-- The name under which a function rejects an argument. -/
def name : ElementaryFunction → String
  | .sin => "sin"
  | .cos => "cos"
  | .tan => "tan"
  | .asin => "asin"
  | .acos => "acos"
  | .exp => "exp"
  | .exp2 => "exp2"
  | .ln => "ln"
  | .log10 => "log10"
  | .log2 => "log2"
  | .pow _ _ => "pow"
  | .sqrt => "sqrt"
  | .cbrt => "cbrt"

variable {K : Type} [Scalar K]

/-- The exponent of a power. -/
def exponent (k l : Int32) : K :=
  int k.toInt / int l.toInt

/-- The exponent that is left after `j` derivatives. -/
def loweredExponent (k l : Int32) (j : Nat) : K :=
  exponent k l - int j

/-- The factor that `j` derivatives put in front of a power: the product of the `j` exponents that
were lowered. -/
def powerFactor (k l : Int32) : Nat → K
  | 0 => 1
  | j + 1 => powerFactor k l j * loweredExponent k l j

/-- Whether the `j`-th derivative of a power vanishes because its factor does. -/
def powerVanishes (K : Type) [Scalar K] (k l : Int32) (j : Nat) : Bool :=
  Scalar.same (powerFactor k l j : K) 0

/-- The `j`-th derivative of a power. A whole exponent is raised by repeated multiplication, and a
vanishing derivative is not computed. Lowering a whole exponent wraps around at 32 bits, as it does
where overflow is not checked. Where it is, a power with an exponent of at most `-2 ^ 31 + 2` fails
at every argument but zero, which is outside of its domain. -/
def powerDerivative (k l : Int32) (x : K) (j : Nat) : K :=
  if powerVanishes K k l j then 0
  else if l = 1 then
    powerFactor k l j * Scalar.intPower x (k - Int32.ofNat j).toInt
  else
    powerFactor k l j * Scalar.pow x (loweredExponent k l j)

/-- Whether one of the first three derivatives of a power, or the power itself, has a negative
exponent and does not vanish. -/
def hasPole (K : Type) [Scalar K] (k l : Int32) : Bool :=
  (List.range 4).any fun j =>
    !powerVanishes K k l j && Scalar.lt (loweredExponent k l j : K) 0

/-- The domain of a function, in words, if the argument lies outside of it. -/
def domainLeft? (f : ElementaryFunction) (x : K) : Option String :=
  match f with
  | .tan =>
    if Scalar.lt (Scalar.abs (Scalar.cos x)) Scalar.epsilon then some "|cos(x)| >= eps" else none
  | .asin | .acos => if Scalar.le 1 (Scalar.abs x) then some "(-1, 1)" else none
  | .ln | .log10 | .log2 => if Scalar.le x 0 then some "(0, inf)" else none
  | .sqrt => if Scalar.lt x 0 then some "[0, inf)" else none
  | .pow k l =>
    if l ≠ 1 ∧ Scalar.lt x 0 then some "[0, inf)"
    else if Scalar.same x 0 && hasPole K k l then some "x != 0"
    else none
  | .sin | .cos | .exp | .exp2 | .cbrt => none

/-- A given value, followed by the derivatives of the arc sine. -/
def arcJet (value x : K) : Jet K :=
  let r := 1 - x * x
  let s := Scalar.sqrt r
  ⟨value, 1 / s, x / (r * s), (1 + int 2 * x * x) / (r * r * s)⟩

/-- A given value, followed by the derivatives of the natural logarithm divided by `base`. -/
def logJet (value x base : K) : Jet K :=
  let inv := 1 / x
  ⟨value, inv / base, -inv * inv / base, int 2 * inv * inv * inv / base⟩

/-- The value and the derivatives of a function inside of its domain. -/
def jet (f : ElementaryFunction) (x : K) : Jet K :=
  match f with
  | .sin =>
    let s := Scalar.sin x
    let c := Scalar.cos x
    ⟨s, c, -s, -c⟩
  | .cos =>
    let s := Scalar.sin x
    let c := Scalar.cos x
    ⟨c, -s, -c, s⟩
  | .tan =>
    let t := Scalar.tan x
    let sec2 := 1 + t * t
    ⟨t, sec2, int 2 * t * sec2, int 2 * sec2 * (sec2 + int 2 * t * t)⟩
  | .asin => arcJet (Scalar.asin x) x
  | .acos =>
    let arc := arcJet (Scalar.acos x) x
    ⟨arc.value, -arc.first, -arc.second, -arc.third⟩
  | .exp =>
    let e := Scalar.exp x
    ⟨e, e, e, e⟩
  | .exp2 =>
    let e := Scalar.exp2 x
    let b := Scalar.ln2
    ⟨e, b * e, b * b * e, b * b * b * e⟩
  | .ln => logJet (Scalar.ln x) x 1
  | .log10 => logJet (Scalar.log10 x) x Scalar.ln10
  | .log2 => logJet (Scalar.log2 x) x Scalar.ln2
  | .pow k l =>
    ⟨powerDerivative k l x 0, powerDerivative k l x 1, powerDerivative k l x 2,
      powerDerivative k l x 3⟩
  | .sqrt =>
    let s := Scalar.sqrt x
    ⟨s, (1 / int 2) / s, -(1 / int 4) / (x * s), (int 3 / int 8) / (x * x * s)⟩
  | .cbrt =>
    let c := Scalar.cbrt x
    let c2 := c * c
    let c4 := c2 * c2
    ⟨c, 1 / (int 3 * c2), -int 2 / (int 9 * c4 * c), int 10 / (int 27 * c4 * c4)⟩

/-- The value and the derivatives of a function at an argument that is finite and in its domain. -/
def jet? (f : ElementaryFunction) (x : K) : Except (DomainError K) (Jet K) := do
  DomainError.checkFinite f.name x
  match f.domainLeft? x with
  | some domain => .error (.outOfDomain f.name domain x)
  | none => .ok (f.jet x)

end ElementaryFunction

/-- An elementary function at its current argument. It keeps the value and the derivatives there, so
that a derivative in a direction costs a few multiplications. -/
structure Elementary (K : Type) where
  function : ElementaryFunction
  argument : K
  jet : Jet K

namespace Elementary

variable {K : Type} [Scalar K]

/-- The function `f` at the argument `x`. -/
def at? (f : ElementaryFunction) (x : K) : Except (DomainError K) (Elementary K) := do
  return ⟨f, x, ← f.jet? x⟩

/-- The first derivative along a direction. -/
def first (e : Elementary K) (dx : K) : K :=
  e.jet.first * dx

/-- The second derivative along two directions. -/
def second (e : Elementary K) (dx dy : K) : K :=
  e.jet.second * dx * dy

/-- The third derivative along three directions. -/
def third (e : Elementary K) (dx dy dz : K) : K :=
  e.jet.third * dx * dy * dz

end Elementary

end Directional
