import Directional.Term.Composition
import Directional.Term.Square
import Directional.Tree.Basic

namespace Directional.Tree

variable {K : Type} {Γ : Nat → Shape} {L : Shape → Shape → Type} [Leaf K Γ L]

/-- Whether a tree depends on its argument. A composition does if its inner function does. This is
known from the leaves' declarations and the shape of the tree alone, as are the other members. -/
def reacts : {a s : Shape} → Tree K L a s → Bool
  | _, _, leaf l => Leaf.reacts l
  | _, _, scale _ f _ => f.reacts
  | _, _, squared _ f _ => f.reacts
  | _, _, sum f g _ => f.reacts || g.reacts
  | _, _, product _ f g _ => f.reacts || g.reacts
  | _, _, extremum _ f g _ _ => f.reacts || g.reacts
  | _, _, chain _ g => g.reacts

/-- Whether a tree depends on the variable with number `i`. -/
def reactsTo (i : Nat) : {a s : Shape} → Tree K L a s → Bool
  | _, _, leaf l => Leaf.reactsTo l i
  | _, _, scale _ f _ => f.reactsTo i
  | _, _, squared _ f _ => f.reactsTo i
  | _, _, sum f g _ => f.reactsTo i || g.reactsTo i
  | _, _, product _ f g _ => f.reactsTo i || g.reactsTo i
  | _, _, extremum _ f g _ _ => f.reactsTo i || g.reactsTo i
  | _, _, chain _ g => g.reactsTo i

/-- Whether a tree has a first derivative in a slot. -/
def has₁ : {a s : Shape} → Tree K L a s → Slot → Bool
  | _, _, leaf l, X => Leaf.has₁ l X
  | _, _, scale _ f _, X => f.has₁ X
  | _, _, squared _ f _, X => f.has₁ X
  | _, _, sum f g _, X => f.has₁ X || g.has₁ X
  | _, _, product _ f g _, X => Leibniz.hasFirst (f.has₁ X) (g.has₁ X)
  | _, _, extremum _ f g _ _, X => f.has₁ X || g.has₁ X
  | _, _, chain f g, X => f.has₁ .argument && g.has₁ X

/-- Whether a tree has a second derivative in two slots. -/
def has₂ : {a s : Shape} → Tree K L a s → Slot → Slot → Bool
  | _, _, leaf l, X, Y => Leaf.has₂ l X Y
  | _, _, scale _ f _, X, Y => f.has₂ X Y
  | _, _, squared _ f _, X, Y => Square.hasSecond ⟨f.has₁ X, f.has₁ Y, f.has₂ X Y⟩
  | _, _, sum f g _, X, Y => f.has₂ X Y || g.has₂ X Y
  | _, _, product _ f g _, X, Y =>
    Leibniz.hasSecond ⟨f.has₁ X, f.has₁ Y, f.has₂ X Y⟩ ⟨g.has₁ X, g.has₁ Y, g.has₂ X Y⟩
  | _, _, extremum _ f g _ _, X, Y => f.has₂ X Y || g.has₂ X Y
  | _, _, chain f g, X, Y =>
    Composition.hasSecond (f.has₁ .argument) (f.has₂ .argument .argument)
      ⟨g.has₁ X, g.has₁ Y, g.has₂ X Y⟩

/-- Whether a tree has a third derivative in three slots. -/
def has₃ : {a s : Shape} → Tree K L a s → Slot → Slot → Slot → Bool
  | _, _, leaf l, X, Y, Z => Leaf.has₃ l X Y Z
  | _, _, scale _ f _, X, Y, Z => f.has₃ X Y Z
  | _, _, squared _ f _, X, Y, Z =>
    Square.hasThird
      ⟨f.has₁ X, f.has₁ Y, f.has₁ Z, f.has₂ X Y, f.has₂ X Z, f.has₂ Y Z, f.has₃ X Y Z⟩
  | _, _, sum f g _, X, Y, Z => f.has₃ X Y Z || g.has₃ X Y Z
  | _, _, product _ f g _, X, Y, Z =>
    Leibniz.hasThird
      ⟨f.has₁ X, f.has₁ Y, f.has₁ Z, f.has₂ X Y, f.has₂ X Z, f.has₂ Y Z, f.has₃ X Y Z⟩
      ⟨g.has₁ X, g.has₁ Y, g.has₁ Z, g.has₂ X Y, g.has₂ X Z, g.has₂ Y Z, g.has₃ X Y Z⟩
  | _, _, extremum _ f g _ _, X, Y, Z => f.has₃ X Y Z || g.has₃ X Y Z
  | _, _, chain f g, X, Y, Z =>
    Composition.hasThird (f.has₁ .argument) (f.has₂ .argument .argument)
      (f.has₃ .argument .argument .argument)
      ⟨g.has₁ X, g.has₁ Y, g.has₁ Z, g.has₂ X Y, g.has₂ X Z, g.has₂ Y Z, g.has₃ X Y Z⟩

variable {a s : Shape}

/-- Whether a first derivative comes with all that it builds on. It builds on the value, which
every tree has. -/
def consistent₁ (_f : Tree K L a s) (_X : Slot) : Bool :=
  true

/-- Whether a second derivative comes with the first derivatives in its slots. -/
def consistent₂ (f : Tree K L a s) (X Y : Slot) : Bool :=
  !f.has₂ X Y || (f.has₁ X && f.has₁ Y)

/-- Whether a third derivative comes with the second derivative in its first two slots, and that
one with the first derivatives. -/
def consistent₃ (f : Tree K L a s) (X Y Z : Slot) : Bool :=
  f.consistent₂ X Y && (!f.has₃ X Y Z || f.has₂ X Y)

end Directional.Tree
