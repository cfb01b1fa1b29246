import Directional.DomainError
import Directional.Outcome
import Directional.Slot
import Directional.Term

namespace Directional

/-- A family of leaves, indexed by the shapes of argument and value, for variables of the shapes
`Γ`. Leaves may leave out any member but the value; a member that is left out is declared absent,
does nothing and has no derivative. Each member is declared separately from what it does: a tree
calls a leaf's member only where the leaf declares it. -/
class Leaf (K : outParam Type) (Γ : outParam (Nat → Shape)) (L : Shape → Shape → Type) where
  /-- The current value. -/
  value {a s : Shape} : L a s → Value K s
  /-- The variables that the leaf holds. -/
  slots {a s : Shape} : L a s → SlotSet := fun _ => ∅
  /-- Whether the leaf depends on the argument. -/
  reacts {a s : Shape} : L a s → Bool := fun _ => false
  /-- Moves the leaf to a new argument. -/
  update {a s : Shape} : L a s → Value K a → Outcome (DomainError K) (L a s) :=
    fun l _ => .accepted l
  /-- Whether the leaf depends on the variable with number `i`. -/
  reactsTo {a s : Shape} : L a s → Nat → Bool := fun _ _ => false
  /-- Writes a new value into the variable with number `i`. -/
  write {a s : Shape} : L a s → (i : Nat) → Value K (Γ i) → Outcome (DomainError K) (L a s) :=
    fun l _ _ => .accepted l
  /-- Whether there is a first derivative in a slot. -/
  has₁ {a s : Shape} : L a s → Slot → Bool := fun _ _ => false
  /-- The first derivative in a slot along a direction. -/
  answer₁ {a s : Shape} : L a s → (X : Slot) → Value K (X.shape Γ a) → Term K s :=
    fun _ _ _ => none
  /-- Whether there is a second derivative in two slots. -/
  has₂ {a s : Shape} : L a s → Slot → Slot → Bool := fun _ _ _ => false
  /-- The second derivative in two slots along two directions. -/
  answer₂ {a s : Shape} : L a s → (X Y : Slot) → Value K (X.shape Γ a) → Value K (Y.shape Γ a) →
      Term K s :=
    fun _ _ _ _ _ => none
  /-- Whether there is a third derivative in three slots. -/
  has₃ {a s : Shape} : L a s → Slot → Slot → Slot → Bool := fun _ _ _ _ => false
  /-- The third derivative in three slots along three directions. -/
  answer₃ {a s : Shape} : L a s → (X Y Z : Slot) → Value K (X.shape Γ a) → Value K (Y.shape Γ a) →
      Value K (Z.shape Γ a) → Term K s :=
    fun _ _ _ _ _ _ _ => none

end Directional
