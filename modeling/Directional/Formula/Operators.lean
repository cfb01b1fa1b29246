import Directional.Formula.Basic

namespace Directional

/-- A family of leaves yet to be built that has the leaves of the library among it. -/
class SeedFamily (K : outParam Type) (Γ : outParam (Nat → Shape)) (I : Shape → Shape → Type) where
  ofSeed {a s : Shape} : Seed K Γ a s → I a s

instance {K : Type} {Γ : Nat → Shape} : SeedFamily K Γ (Seed K Γ) :=
  ⟨id⟩

namespace Formula

variable {K : Type} {Γ : Nat → Shape} {I : Shape → Shape → Type} [SeedFamily K Γ I] {a s t u : Shape}

/-- The formula that is a leaf of the library. -/
def seed (l : Seed K Γ a s) : Formula K I a s :=
  .leaf (SeedFamily.ofSeed l)

/-- The formula of a constant. -/
def const (v : Value K s) : Formula K I a s :=
  seed (.constant v)

variable [Scalar K]

/-- The formula with its sign changed: its multiple by minus one. -/
def neg (f : Formula K I a s) : Formula K I a s :=
  .scale (-1) f

/-- The difference: the sum with the second operand's sign changed. -/
def sub (f g : Formula K I a s) : Formula K I a s :=
  .sum f g.neg

instance : Add (Formula K I a s) := ⟨.sum⟩
instance : Sub (Formula K I a s) := ⟨.sub⟩
instance : Neg (Formula K I a s) := ⟨.neg⟩
instance : Mul (Formula K I a .scalar) := ⟨.product .scalars⟩
instance : HMul K (Formula K I a s) (Formula K I a s) := ⟨.scale⟩
instance : HMul (Formula K I a s) K (Formula K I a s) := ⟨fun f c => .scale c f⟩
instance : HAdd (Formula K I a .scalar) K (Formula K I a .scalar) :=
  ⟨fun f c => f + (const c : Formula K I a .scalar)⟩
instance : HAdd K (Formula K I a .scalar) (Formula K I a .scalar) :=
  ⟨fun c f => (const c : Formula K I a .scalar) + f⟩
instance : HSub (Formula K I a .scalar) K (Formula K I a .scalar) :=
  ⟨fun f c => f + (const (-c : K) : Formula K I a .scalar)⟩
instance : HSub K (Formula K I a .scalar) (Formula K I a .scalar) :=
  ⟨fun c f => (const c : Formula K I a .scalar) - f⟩

end Formula

end Directional
