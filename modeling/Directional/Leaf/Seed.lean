import Directional.Leaf.Builtin

namespace Directional

/-- A leaf before it is built: what it is, and the value or argument it starts with. The variables
have the shapes `Γ`. -/
inductive Seed (K : Type) (Γ : Nat → Shape) : (a s : Shape) → Type where
  | constant {a s : Shape} (value : Value K s) : Seed K Γ a s
  | identity {s : Shape} (argument : Value K s) : Seed K Γ s s
  | var {a s : Shape} (i : Nat) (shape : Γ i = s) (value : Value K s) : Seed K Γ a s
  | elementary (f : ElementaryFunction) (argument : K) : Seed K Γ .scalar .scalar
  | trace {n : Nat} (argument : Mat K n n) : Seed K Γ (.square n) .scalar
  | det {n : Nat} (d : Dimension n) (argument : Mat K n n) : Seed K Γ (.square n) .scalar
  | secondInvariant {n : Nat} (argument : Mat K n n) : Seed K Γ (.square n) .scalar
  | strain {n : Nat} (gradient : Mat K n n) : Seed K Γ (.square n) (.square n)
  | squaredNorm {r c : Nat} (argument : Mat K r c) : Seed K Γ (.matrix r c) .scalar

namespace Seed

variable {K : Type} [Scalar K] {Γ : Nat → Shape}

/-- Builds the leaf, or rejects its argument. -/
def build : {a s : Shape} → Seed K Γ a s → Except (DomainError K) (Builtin K Γ a s)
  | _, _, constant v => .ok (.constant v)
  | _, _, identity x => .ok (.identity x)
  | _, _, var i h v => .ok (.var i h v)
  | _, _, elementary f x => .elementary <$> Elementary.at? f x
  | _, _, trace x => .trace <$> Trace.at? x
  | _, _, det d x => .det d <$> Determinant.at? d x
  | _, _, secondInvariant x => .secondInvariant <$> SecondInvariant.at? x
  | _, _, strain f => .strain <$> Strain.at? f
  | _, _, squaredNorm x => .squaredNorm <$> SquaredNorm.at? x

end Seed

end Directional
