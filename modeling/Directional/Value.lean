import Directional.Shape
import Directional.Matrix.Basic

namespace Directional

/-- The values of a shape over the numbers `K`: numbers and matrices under one name. -/
abbrev Value (K : Type) : Shape → Type
  | .scalar => K
  | .matrix r c => Mat K r c

namespace Value

variable {K : Type} {s t : Shape}

/-- A value of a shape seen as a value of an equal shape. -/
def cast (h : s = t) (x : Value K s) : Value K t :=
  h ▸ x

/-- The value in the shape `t`, if that is the shape it has. -/
def extract? (t : Shape) (x : Value K s) : Option (Value K t) :=
  if h : s = t then some (x.cast h) else none

/-- A shape is equal to itself, where nothing is recast. -/
@[simp] theorem cast_rfl (x : Value K s) : x.cast rfl = x :=
  rfl

/-- A value is found in its own shape. -/
@[simp] theorem extract?_self (x : Value K s) : x.extract? s = some x := by
  simp [extract?]

/-- A value is found in no shape but its own. -/
theorem extract?_eq_none (h : s ≠ t) (x : Value K s) : x.extract? t = none := by
  simp [extract?, h]

/-- Whether `p` holds of the two numbers, or of the two entries in every place. -/
def all₂ (p : K → K → Bool) : {s : Shape} → Value K s → Value K s → Bool
  | .scalar, x, y => p x y
  | .matrix _ _, x, y => Mat.all₂ p x y

section Arithmetic

variable [Arithmetic K]

/-- The value all of whose numbers are zero. -/
def zero : {s : Shape} → Value K s
  | .scalar => (0 : K)
  | .matrix r c => (0 : Mat K r c)

/-- The neutral element of multiplication: the number one, or the identity matrix. Other shapes
have none. -/
def unit? : {s : Shape} → Option (Value K s)
  | .scalar => some (1 : K)
  | .matrix r c => if h : c = r then some (h ▸ (1 : Mat K r r)) else none

/-- The sum of two values. -/
def add : {s : Shape} → Value K s → Value K s → Value K s
  | .scalar, x, y => (x + y : K)
  | .matrix r c, x, y => (x + y : Mat K r c)

/-- The value times a number, with the number on the right. -/
def scale : {s : Shape} → Value K s → K → Value K s
  | .scalar, x, a => (x * a : K)
  | .matrix _ _, x, a => Mat.scale x a

end Arithmetic

section Comparison

variable [Scalar K]

/-- Whether every number of the first value is below or equal to its counterpart. -/
def le (x y : Value K s) : Bool :=
  all₂ Scalar.le x y

/-- Whether every number of the first value is above or equal to its counterpart. -/
def ge (x y : Value K s) : Bool :=
  all₂ (fun a b => Scalar.le b a) x y

/-- Whether the two values have the same numbers. -/
def same (x y : Value K s) : Bool :=
  all₂ Scalar.same x y

end Comparison

end Value

end Directional
