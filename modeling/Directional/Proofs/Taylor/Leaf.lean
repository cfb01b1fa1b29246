import Directional.Proofs.Exact.Derivative
import Directional.Leaf.Builtin

namespace Directional

/-- The direction `dx` in the slot `X` as one in the slot `Y`: the same direction in the same slot,
and zero in any other. -/
def Slot.along {K : Type} [Arithmetic K] {Γ : Nat → Shape} {a : Shape} (X Y : Slot)
    (dx : Value K (X.shape Γ a)) : Value K (Y.shape Γ a) :=
  if h : X = Y then h ▸ dx else .zero

namespace Slot

variable {K : Type} [Field K] [Primitives K] {Γ : Nat → Shape} {a : Shape}

@[simp] theorem along_self (X : Slot) (dx : Value K (X.shape Γ a)) : X.along X dx = dx := by
  simp [along]

/-- A direction in one slot moves nothing in another one. -/
theorem along_of_ne {X Y : Slot} (h : X ≠ Y) (dx : Value K (X.shape Γ a)) :
    (X.along Y dx : Value K (Y.shape Γ a)) = .zero := by
  simp [along, h]

/-- The argument and the variables are different slots. -/
@[simp] theorem along_argument_var (i : Nat) (dx : Value K (Slot.argument.shape Γ a)) :
    (argument.along (var i) dx : Value K ((var i).shape Γ a)) = .zero :=
  along_of_ne (by simp) dx

@[simp] theorem along_var_argument (i : Nat) (dx : Value K ((var i).shape Γ a)) :
    ((var i).along argument dx : Value K (Slot.argument.shape Γ a)) = .zero :=
  along_of_ne (by simp) dx

/-- A sum of directions, seen from another slot, is a sum. -/
theorem along_add (X Y : Slot) (u v : Value K (X.shape Γ a)) :
    X.along Y (u.add v) = (X.along Y u).add (X.along Y v) := by
  by_cases h : X = Y
  · subst h
    simp
  · simp [along_of_ne h]

end Slot

namespace Builtin

/-- The leaves that are expanded: constants, arguments, variables and elementary functions. -/
def Expandable {K : Type} {Γ : Nat → Shape} {a s : Shape} : Builtin K Γ a s → Prop
  | constant _ | identity _ | var _ _ _ | elementary _ => True
  | _ => False

end Builtin

namespace Tree

variable {K : Type} [Field K] [Primitives K] {Γ : Nat → Shape} {a s : Shape}

section Constant

variable (v : Value K s)

/-- A constant has no derivatives. -/
theorem d₁_constant (X : Slot) (dx : Value K (X.shape Γ a)) :
    (leaf (.constant v : Builtin K Γ a s)).d₁ X dx = .zero := by
  cases X <;> rfl

theorem d₂_constant (X Y : Slot) (dx : Value K (X.shape Γ a)) (dy : Value K (Y.shape Γ a)) :
    (leaf (.constant v : Builtin K Γ a s)).d₂ X Y dx dy = .zero := by
  cases X <;> cases Y <;> rfl

/-- No derivative of a constant is there, of any order. -/
theorem d₃_constant (X Y Z : Slot) (dx : Value K (X.shape Γ a)) (dy : Value K (Y.shape Γ a))
    (dz : Value K (Z.shape Γ a)) :
    (leaf (.constant v : Builtin K Γ a s)).d₃ X Y Z dx dy dz = .zero := by
  cases X <;> cases Y <;> cases Z <;> rfl

end Constant

section Identity

variable (p : Value K a)

/-- The derivative of the argument is the direction, if that is one in the argument. -/
theorem d₁_identity (X : Slot) (dx : Value K (X.shape Γ a)) :
    (leaf (.identity p : Builtin K Γ a a)).d₁ X dx = X.along .argument dx := by
  cases X with
  | argument => exact (Slot.along_self .argument dx).symm
  | var i => exact (Slot.along_var_argument i dx).symm

/-- The argument has no second derivative. -/
theorem d₂_identity (X Y : Slot) (dx : Value K (X.shape Γ a)) (dy : Value K (Y.shape Γ a)) :
    (leaf (.identity p : Builtin K Γ a a)).d₂ X Y dx dy = .zero := by
  cases X <;> cases Y <;> rfl

theorem d₃_identity (X Y Z : Slot) (dx : Value K (X.shape Γ a)) (dy : Value K (Y.shape Γ a))
    (dz : Value K (Z.shape Γ a)) :
    (leaf (.identity p : Builtin K Γ a a)).d₃ X Y Z dx dy dz = .zero := by
  cases X <;> cases Y <;> cases Z <;> rfl

end Identity

section Variable

variable (i : Nat) (v : Value K (Γ i))

/-- The derivative of a variable is the direction, if that is one in the variable. -/
theorem d₁_var (X : Slot) (dx : Value K (X.shape Γ a)) :
    (leaf (.var i rfl v : Builtin K Γ a (Γ i))).d₁ X dx =
      (X.along (.var i) dx : Value K (Slot.shape Γ a (.var i))) := by
  cases X with
  | argument => exact (Slot.along_argument_var i dx).symm
  | var j =>
    by_cases h : j = i
    · subst h
      simp [d₁, d₁?, has₁, answer₁, Leaf.has₁, Leaf.answer₁, Builtin.has₁, Builtin.answer₁,
        Builtin.reactsTo]
    · have hpresent : (leaf (.var i rfl v : Builtin K Γ a (Γ i))).has₁ (.var j) = false := by
        simpa [has₁, Leaf.has₁, Builtin.has₁, Builtin.reactsTo] using h
      rw [d₁, d₁?, hpresent, Slot.along_of_ne (by simpa using h)]
      rfl

/-- A variable has no second derivative. -/
theorem d₂_var (X Y : Slot) (dx : Value K (X.shape Γ a)) (dy : Value K (Y.shape Γ a)) :
    (leaf (.var i rfl v : Builtin K Γ a (Γ i))).d₂ X Y dx dy = .zero := by
  cases X <;> cases Y <;> rfl

theorem d₃_var (X Y Z : Slot) (dx : Value K (X.shape Γ a)) (dy : Value K (Y.shape Γ a))
    (dz : Value K (Z.shape Γ a)) :
    (leaf (.var i rfl v : Builtin K Γ a (Γ i))).d₃ X Y Z dx dy dz = .zero := by
  cases X <;> cases Y <;> cases Z <;> rfl

end Variable

section Elementary

variable (e : Elementary K)

/-- An elementary function multiplies the direction by the derivative it keeps. -/
theorem d₁_elementary (X : Slot) (dx : Value K (X.shape Γ .scalar)) :
    (leaf (.elementary e : Builtin K Γ .scalar .scalar)).d₁ X dx =
      e.jet.first * X.along .argument dx := by
  cases X with
  | argument =>
    rw [Slot.along_self]
    rfl
  | var i =>
    rw [Slot.along_var_argument]
    exact (mul_zero _).symm

/-- Its second derivative multiplies both directions. -/
theorem d₂_elementary (X Y : Slot) (dx : Value K (X.shape Γ .scalar))
    (dy : Value K (Y.shape Γ .scalar)) :
    (leaf (.elementary e : Builtin K Γ .scalar .scalar)).d₂ X Y dx dy =
      e.jet.second * X.along .argument dx * Y.along .argument dy := by
  have hzero : (Value.zero : Value K .scalar) = (0 : K) := rfl
  cases X <;> cases Y <;>
    simp only [Slot.along_self, Slot.along_var_argument, hzero, mul_zero, zero_mul] <;> rfl

/-- Its third derivative multiplies all three directions. -/
theorem d₃_elementary (X Y Z : Slot) (dx : Value K (X.shape Γ .scalar))
    (dy : Value K (Y.shape Γ .scalar)) (dz : Value K (Z.shape Γ .scalar)) :
    (leaf (.elementary e : Builtin K Γ .scalar .scalar)).d₃ X Y Z dx dy dz =
      e.jet.third * X.along .argument dx * Y.along .argument dy * Z.along .argument dz := by
  have hzero : (Value.zero : Value K .scalar) = (0 : K) := rfl
  cases X <;> cases Y <;> cases Z <;>
    simp only [Slot.along_self, Slot.along_var_argument, hzero, mul_zero, zero_mul] <;> rfl

end Elementary

end Tree

end Directional
