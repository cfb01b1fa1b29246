import Directional.Leaf.Determinant
import Directional.Leaf.Elementary
import Directional.Leaf.Invariant
import Directional.Leaf.Protocol

namespace Directional

/-- The leaves that the library provides, over variables of the shapes `Γ`, for an argument of the
shape `a` and with values of the shape `s`. -/
inductive Builtin (K : Type) (Γ : Nat → Shape) : (a s : Shape) → Type where
  /-- A value that depends on nothing. -/
  | constant {a s : Shape} (value : Value K s) : Builtin K Γ a s
  /-- The argument itself. -/
  | identity {s : Shape} (argument : Value K s) : Builtin K Γ s s
  /-- The variable with number `i`. -/
  | var {a s : Shape} (i : Nat) (shape : Γ i = s) (value : Value K s) : Builtin K Γ a s
  | elementary (e : Elementary K) : Builtin K Γ .scalar .scalar
  | trace {n : Nat} (l : Trace K n) : Builtin K Γ (.square n) .scalar
  | det {n : Nat} (d : Dimension n) (l : Determinant K n) : Builtin K Γ (.square n) .scalar
  | secondInvariant {n : Nat} (l : SecondInvariant K n) : Builtin K Γ (.square n) .scalar
  | strain {n : Nat} (l : Strain K n) : Builtin K Γ (.square n) (.square n)
  | squaredNorm {r c : Nat} (l : SquaredNorm K r c) : Builtin K Γ (.matrix r c) .scalar

namespace Builtin

variable {K : Type} {Γ : Nat → Shape} {a s : Shape}

/-- The current value. -/
def value : {a s : Shape} → Builtin K Γ a s → Value K s
  | _, _, constant v => v
  | _, _, identity x => x
  | _, _, var _ _ v => v
  | _, _, elementary e => e.jet.value
  | _, _, trace l => l.value
  | _, _, det _ l => l.value
  | _, _, secondInvariant l => l.value
  | _, _, strain l => l.value
  | _, _, squaredNorm l => l.value

/-- The variables that a leaf holds: a variable holds itself. -/
def slots : Builtin K Γ a s → SlotSet
  | var i _ _ => .single i
  | _ => ∅

/-- The highest order of a derivative in the argument, or zero for a leaf without an argument. -/
def order : Builtin K Γ a s → Nat
  | constant _ | var _ _ _ => 0
  | identity _ | trace _ => 1
  | det .plane _ | secondInvariant _ | strain _ | squaredNorm _ => 2
  | det .space _ | elementary _ => 3

/-- Whether a leaf depends on the argument. -/
def reacts (l : Builtin K Γ a s) : Bool :=
  0 < l.order

/-- Whether a leaf depends on the variable with number `i`. -/
def reactsTo : Builtin K Γ a s → Nat → Bool
  | var j _ _, i => i == j
  | _, _ => false

/-- Whether there is a first derivative in a slot: in the argument, or in the variable itself. -/
def has₁ (l : Builtin K Γ a s) : Slot → Bool
  | .argument => 1 ≤ l.order
  | .var i => l.reactsTo i

/-- Whether there is a second derivative in two slots: both of them are the argument. -/
def has₂ (l : Builtin K Γ a s) (X Y : Slot) : Bool :=
  2 ≤ l.order && X = .argument && Y = .argument

/-- Whether there is a third derivative in three slots: all of them are the argument. -/
def has₃ (l : Builtin K Γ a s) (X Y Z : Slot) : Bool :=
  3 ≤ l.order && X = .argument && Y = .argument && Z = .argument

variable [Scalar K]

/-- Moves a leaf to a new argument. A leaf that rejects it keeps the old one. -/
def update : {a s : Shape} → Builtin K Γ a s → Value K a → Outcome (DomainError K) (Builtin K Γ a s)
  | _, _, constant v, _ => .accepted (constant v)
  | _, _, identity _, x => .accepted (identity x)
  | _, _, var i h v, _ => .accepted (var i h v)
  | _, _, elementary e, x => .map elementary (.ofExcept e (Elementary.at? e.function x))
  | _, _, trace l, x => .map trace (.ofExcept l (Trace.at? x))
  | _, _, det d l, x => .map (det d) (.ofExcept l (Determinant.at? d x))
  | _, _, secondInvariant l, x => .map secondInvariant (.ofExcept l (SecondInvariant.at? x))
  | _, _, strain l, x => .map strain (.ofExcept l (Strain.at? x))
  | _, _, squaredNorm l, x => .map squaredNorm (.ofExcept l (SquaredNorm.at? x))

/-- Writes a new value into the variable with number `i`. -/
def write : Builtin K Γ a s → (i : Nat) → Value K (Γ i) → Outcome (DomainError K) (Builtin K Γ a s)
  | var j h v, i, x =>
    if e : i = j then .accepted (var j h (x.cast (e ▸ h))) else .accepted (var j h v)
  | l, _, _ => .accepted l

/-- The first derivative in a slot along a direction. -/
def answer₁ : {a s : Shape} → Builtin K Γ a s → (X : Slot) → Value K (X.shape Γ a) → Term K s
  | _, _, identity _, .argument, dx => some dx
  | _, _, var i h _, .var j, dx => if e : j = i then some (Value.cast (e ▸ h) dx) else none
  | _, _, elementary e, .argument, dx => some (e.first dx)
  | _, _, trace _, .argument, da => some (Mat.trace da)
  | _, _, det d l, .argument, da => some (d.detFirst l.matrix da)
  | _, _, secondInvariant l, .argument, da => some (l.first da)
  | _, _, strain l, .argument, df => some (l.first df)
  | _, _, squaredNorm l, .argument, da => some (l.first da)
  | _, _, _, _, _ => none

/-- The second derivative in two slots along two directions. -/
def answer₂ : {a s : Shape} → Builtin K Γ a s → (X Y : Slot) → Value K (X.shape Γ a) →
    Value K (Y.shape Γ a) → Term K s
  | _, _, elementary e, .argument, .argument, dx, dy => some (e.second dx dy)
  | _, _, det d l, .argument, .argument, da, db => some (d.detSecond l.matrix da db)
  | _, _, secondInvariant _, .argument, .argument, da, db => some (SecondInvariant.second da db)
  | _, _, strain _, .argument, .argument, df, dg => some (Strain.second df dg)
  | _, _, squaredNorm _, .argument, .argument, da, db => some (SquaredNorm.second da db)
  | _, _, _, _, _, _, _ => none

/-- The third derivative in three slots along three directions. -/
def answer₃ : {a s : Shape} → Builtin K Γ a s → (X Y Z : Slot) → Value K (X.shape Γ a) →
    Value K (Y.shape Γ a) → Value K (Z.shape Γ a) → Term K s
  | _, _, elementary e, .argument, .argument, .argument, dx, dy, dz => some (e.third dx dy dz)
  | _, _, det .space _, .argument, .argument, .argument, da, db, dc => some (Mat.det₃Third da db dc)
  | _, _, _, _, _, _, _, _, _ => none

end Builtin

instance {K : Type} [Scalar K] {Γ : Nat → Shape} : Leaf K Γ (Builtin K Γ) where
  value := Builtin.value
  slots := Builtin.slots
  reacts := Builtin.reacts
  update := Builtin.update
  reactsTo := Builtin.reactsTo
  write := Builtin.write
  has₁ := Builtin.has₁
  answer₁ := Builtin.answer₁
  has₂ := Builtin.has₂
  answer₂ := Builtin.answer₂
  has₃ := Builtin.has₃
  answer₃ := Builtin.answer₃

end Directional
