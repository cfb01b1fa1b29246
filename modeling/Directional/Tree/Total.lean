import Directional.Tree.Derivative

namespace Directional.Tree

variable {K : Type} [Scalar K] {Γ : Nat → Shape} {L : Shape → Shape → Type} [Leaf K Γ L]
  {a s : Shape}

/-- The first derivative in a slot along a direction, zero if the tree has none. -/
def d₁ (f : Tree K L a s) (X : Slot) (dx : Value K (X.shape Γ a)) : Value K s :=
  (f.d₁? X dx).getD .zero

/-- The second derivative in two slots along two directions, zero if the tree has none. -/
def d₂ (f : Tree K L a s) (X Y : Slot) (dx : Value K (X.shape Γ a)) (dy : Value K (Y.shape Γ a)) :
    Value K s :=
  (f.d₂? X Y dx dy).getD .zero

/-- The third derivative in three slots along three directions, zero if the tree has none. -/
def d₃ (f : Tree K L a s) (X Y Z : Slot) (dx : Value K (X.shape Γ a))
    (dy : Value K (Y.shape Γ a)) (dz : Value K (Z.shape Γ a)) : Value K s :=
  (f.d₃? X Y Z dx dy dz).getD .zero

end Directional.Tree
