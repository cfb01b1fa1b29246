import Directional.Leaf.Seed
import Directional.Tree.Update

namespace Directional

/-- A function of an argument of the shape `a` with values of the shape `s`, over a family `I` of
leaves yet to be built: a function tree before it is built, with the leaves that it starts from. -/
inductive Formula (K : Type) (I : Shape → Shape → Type) : (a s : Shape) → Type where
  | leaf {a s : Shape} (l : I a s) : Formula K I a s
  | scale {a s : Shape} (factor : K) (f : Formula K I a s) : Formula K I a s
  | squared {a s : Shape} (m : Pairing s s s) (f : Formula K I a s) : Formula K I a s
  | sum {a s : Shape} (f g : Formula K I a s) : Formula K I a s
  | product {a s t u : Shape} (m : Pairing s t u) (f : Formula K I a s) (g : Formula K I a t) :
      Formula K I a u
  | extremum {a s : Shape} (e : Extremum) (f g : Formula K I a s) : Formula K I a s
  | chain {a b s : Shape} (outer : Formula K I b s) (inner : Formula K I a b) : Formula K I a s

namespace Formula

variable {K : Type} [Scalar K] {Γ : Nat → Shape} {I L : Shape → Shape → Type} [Leaf K Γ L]

/-- Builds a formula whose leaves `plant` builds, computes the values of its nodes, and moves the
outer function of every composition to the value of the inner one. Operands are built from left to
right, and the outer function of a composition before the inner one; the first rejection ends it. -/
def build (plant : {a s : Shape} → I a s → Except (DomainError K) (L a s)) :
    {a s : Shape} → Formula K I a s → Except (DomainError K) (Tree K L a s)
  | _, _, leaf l => return .leaf (← plant l)
  | _, _, scale c f => return .mkScale c (← f.build plant)
  | _, _, squared m f => return .mkSquared m (← f.build plant)
  | _, _, sum f g => return .mkSum (← f.build plant) (← g.build plant)
  | _, _, product m f g => return .mkProduct m (← f.build plant) (← g.build plant)
  | _, _, extremum e f g => return .mkExtremum e (← f.build plant) (← g.build plant)
  | _, _, chain f g => do
    let f ← f.build plant
    let g ← g.build plant
    Tree.mkChain f g

/-- The tree of a formula over the leaves of the library. -/
def tree? {a s : Shape} (f : Formula K (Seed K Γ) a s) :
    Except (DomainError K) (Tree K (Builtin K Γ) a s) :=
  f.build Seed.build

end Formula

end Directional
