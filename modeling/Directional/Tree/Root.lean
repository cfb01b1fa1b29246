import Directional.Tree.Basic

namespace Directional.Tree

variable {K : Type} {Γ : Nat → Shape} {L : Shape → Shape → Type} [Leaf K Γ L] {a s : Shape}

/-- The number by which a multiple is scaled. -/
def factor? : Tree K L a s → Option K
  | scale c _ _ => some c
  | _ => none

/-- Whether the first operand of a minimum or maximum is the active one. -/
def firstActive? : Tree K L a s → Option Bool
  | extremum _ _ _ _ firstActive => some firstActive
  | _ => none

/-- Whether the operands of a minimum or maximum have the same value, so that the choice between
them is arbitrary and its derivatives may jump. -/
def atKink? [Scalar K] : Tree K L a s → Option Bool
  | extremum _ f g _ _ => some (f.value.same g.value)
  | _ => none

/-- The value of the inner function of a composition, which is the argument of the outer one. -/
def innerValue? : Tree K L a s → Option ((b : Shape) × Value K b)
  | chain (b := b) _ g => some ⟨b, g.value⟩
  | _ => none

end Directional.Tree
