import Directional.Leaf.Protocol

namespace Directional

/-- The choice between two values. -/
inductive Extremum where
  | min | max
  deriving DecidableEq

namespace Extremum

variable {K : Type} [Scalar K] {s : Shape}

/-- Whether the first of two values is chosen. It is if they are equal; values that do not compare
leave the choice to the second one. -/
def prefersFirst (e : Extremum) (x y : Value K s) : Bool :=
  match e with
  | min => x.le y
  | max => x.ge y

end Extremum

/-- A function of an argument of the shape `a` with values of the shape `s`, over a family `L` of
leaves. The nodes hold their current values, so that reading a value costs nothing and a derivative
needs no evaluation. A minimum or maximum also holds which operand is active, and a composition has
the value of its outer function. -/
inductive Tree (K : Type) (L : Shape → Shape → Type) : (a s : Shape) → Type where
  | leaf {a s : Shape} (l : L a s) : Tree K L a s
  /-- The multiple of `f` by `factor`. -/
  | scale {a s : Shape} (factor : K) (f : Tree K L a s) (value : Value K s) : Tree K L a s
  /-- The product of `f` with itself. -/
  | squared {a s : Shape} (m : Pairing s s s) (f : Tree K L a s) (value : Value K s) : Tree K L a s
  | sum {a s : Shape} (f g : Tree K L a s) (value : Value K s) : Tree K L a s
  | product {a s t u : Shape} (m : Pairing s t u) (f : Tree K L a s) (g : Tree K L a t)
      (value : Value K u) : Tree K L a u
  | extremum {a s : Shape} (e : Extremum) (f g : Tree K L a s) (value : Value K s)
      (firstActive : Bool) : Tree K L a s
  /-- The function `outer` of the value of `inner`, which is where `outer` is kept. -/
  | chain {a b s : Shape} (outer : Tree K L b s) (inner : Tree K L a b) : Tree K L a s

namespace Tree

variable {K : Type} {Γ : Nat → Shape} {L : Shape → Shape → Type} [Leaf K Γ L] {a s t u : Shape}

/-- The current value. -/
def value : {a s : Shape} → Tree K L a s → Value K s
  | _, _, leaf l => Leaf.value l
  | _, _, scale _ _ v => v
  | _, _, squared _ _ v => v
  | _, _, sum _ _ v => v
  | _, _, product _ _ _ v => v
  | _, _, extremum _ _ _ v _ => v
  | _, _, chain f _ => f.value

/-- The variables that a tree is a function of. The outer function of a composition contributes
none. -/
def slots : {a s : Shape} → Tree K L a s → SlotSet
  | _, _, leaf l => Leaf.slots l
  | _, _, scale _ f _ => f.slots
  | _, _, squared _ f _ => f.slots
  | _, _, sum f g _ => f.slots ∪ g.slots
  | _, _, product _ f g _ => f.slots ∪ g.slots
  | _, _, extremum _ f g _ _ => f.slots ∪ g.slots
  | _, _, chain _ g => g.slots

section Nodes

variable [Scalar K]

/-- The tree `f` times the number `c`, with its value computed. -/
def mkScale (c : K) (f : Tree K L a s) : Tree K L a s :=
  scale c f (f.value.scale c)

/-- The square of `f`. -/
def mkSquared (m : Pairing s s s) (f : Tree K L a s) : Tree K L a s :=
  squared m f (m.apply f.value f.value)

/-- The sum of `f` and `g`. -/
def mkSum (f g : Tree K L a s) : Tree K L a s :=
  sum f g (f.value.add g.value)

/-- The product of `f` and `g`. -/
def mkProduct (m : Pairing s t u) (f : Tree K L a s) (g : Tree K L a t) : Tree K L a u :=
  product m f g (m.apply f.value g.value)

/-- The minimum or maximum of `f` and `g`. -/
def mkExtremum (e : Extremum) (f g : Tree K L a s) : Tree K L a s :=
  let firstActive := e.prefersFirst f.value g.value
  extremum e f g (if firstActive then f.value else g.value) firstActive

@[simp] theorem value_mkScale (c : K) (f : Tree K L a s) :
    (mkScale c f).value = f.value.scale c := rfl

@[simp] theorem value_mkSquared (m : Pairing s s s) (f : Tree K L a s) :
    (mkSquared m f).value = m.apply f.value f.value := rfl

@[simp] theorem value_mkSum (f g : Tree K L a s) : (mkSum f g).value = f.value.add g.value := rfl

@[simp] theorem value_mkProduct (m : Pairing s t u) (f : Tree K L a s) (g : Tree K L a t) :
    (mkProduct m f g).value = m.apply f.value g.value := rfl

/-- A minimum or maximum has the value of one of its operands. -/
theorem value_mkExtremum (e : Extremum) (f g : Tree K L a s) :
    (mkExtremum e f g).value = f.value ∨ (mkExtremum e f g).value = g.value := by
  simp only [mkExtremum, value]
  split <;> simp

end Nodes

end Tree

end Directional
