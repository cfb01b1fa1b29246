import Directional.Tree.Presence

namespace Directional.Tree

variable {K : Type} [Scalar K] {Γ : Nat → Shape} {L : Shape → Shape → Type} [Leaf K Γ L]

/-- The first derivative in a slot along a direction, as the tree itself answers. It asks its
operands only for derivatives that they have. -/
def answer₁ : {a s : Shape} → Tree K L a s → (X : Slot) → Value K (X.shape Γ a) → Term K s
  | _, _, leaf l, X, dx => Leaf.answer₁ l X dx
  | _, _, scale c f _, X, dx => (Term.gate (f.has₁ X) (f.answer₁ X dx)).scale c
  | _, _, squared m f _, X, dx => Square.first m f.value (Term.gate (f.has₁ X) (f.answer₁ X dx))
  | _, _, sum f g _, X, dx =>
    .sum (Term.gate (f.has₁ X) (f.answer₁ X dx)) (Term.gate (g.has₁ X) (g.answer₁ X dx))
  | _, _, product m f g _, X, dx =>
    Leibniz.first m f.value (Term.gate (f.has₁ X) (f.answer₁ X dx))
      g.value (Term.gate (g.has₁ X) (g.answer₁ X dx))
  | _, _, extremum _ f g _ firstActive, X, dx =>
    if firstActive then Term.gate (f.has₁ X) (f.answer₁ X dx)
    else Term.gate (g.has₁ X) (g.answer₁ X dx)
  | _, _, chain f g, X, dx =>
    Composition.first (fun v => Term.gate (f.has₁ .argument) (f.answer₁ .argument v))
      (Term.gate (g.has₁ X) (g.answer₁ X dx))

/-- The first derivative, if the tree has one in the slot. -/
def d₁? {a s : Shape} (f : Tree K L a s) (X : Slot) (dx : Value K (X.shape Γ a)) : Term K s :=
  Term.gate (f.has₁ X) (f.answer₁ X dx)

/-- The second derivative in two slots along two directions. -/
def answer₂ : {a s : Shape} → Tree K L a s → (X Y : Slot) → Value K (X.shape Γ a) →
    Value K (Y.shape Γ a) → Term K s
  | _, _, leaf l, X, Y, dx, dy => Leaf.answer₂ l X Y dx dy
  | _, _, scale c f _, X, Y, dx, dy => (Term.gate (f.has₂ X Y) (f.answer₂ X Y dx dy)).scale c
  | _, _, squared m f _, X, Y, dx, dy =>
    Square.second m f.value
      ⟨f.d₁? X dx, f.d₁? Y dy, Term.gate (f.has₂ X Y) (f.answer₂ X Y dx dy)⟩
  | _, _, sum f g _, X, Y, dx, dy =>
    .sum (Term.gate (f.has₂ X Y) (f.answer₂ X Y dx dy))
      (Term.gate (g.has₂ X Y) (g.answer₂ X Y dx dy))
  | _, _, product m f g _, X, Y, dx, dy =>
    Leibniz.second m
      f.value ⟨f.d₁? X dx, f.d₁? Y dy, Term.gate (f.has₂ X Y) (f.answer₂ X Y dx dy)⟩
      g.value ⟨g.d₁? X dx, g.d₁? Y dy, Term.gate (g.has₂ X Y) (g.answer₂ X Y dx dy)⟩
  | _, _, extremum _ f g _ firstActive, X, Y, dx, dy =>
    if firstActive then Term.gate (f.has₂ X Y) (f.answer₂ X Y dx dy)
    else Term.gate (g.has₂ X Y) (g.answer₂ X Y dx dy)
  | _, _, chain f g, X, Y, dx, dy =>
    Composition.second (fun v => f.d₁? .argument v)
      (fun v w => Term.gate (f.has₂ .argument .argument) (f.answer₂ .argument .argument v w))
      ⟨g.d₁? X dx, g.d₁? Y dy, Term.gate (g.has₂ X Y) (g.answer₂ X Y dx dy)⟩

/-- The second derivative, if the tree has one in the slots. -/
def d₂? {a s : Shape} (f : Tree K L a s) (X Y : Slot) (dx : Value K (X.shape Γ a))
    (dy : Value K (Y.shape Γ a)) : Term K s :=
  Term.gate (f.has₂ X Y) (f.answer₂ X Y dx dy)

/-- The third derivative in three slots along three directions. -/
def answer₃ : {a s : Shape} → Tree K L a s → (X Y Z : Slot) → Value K (X.shape Γ a) →
    Value K (Y.shape Γ a) → Value K (Z.shape Γ a) → Term K s
  | _, _, leaf l, X, Y, Z, dx, dy, dz => Leaf.answer₃ l X Y Z dx dy dz
  | _, _, scale c f _, X, Y, Z, dx, dy, dz =>
    (Term.gate (f.has₃ X Y Z) (f.answer₃ X Y Z dx dy dz)).scale c
  | _, _, squared m f _, X, Y, Z, dx, dy, dz =>
    Square.third m f.value
      ⟨f.d₁? X dx, f.d₁? Y dy, f.d₁? Z dz, f.d₂? X Y dx dy, f.d₂? X Z dx dz, f.d₂? Y Z dy dz,
        Term.gate (f.has₃ X Y Z) (f.answer₃ X Y Z dx dy dz)⟩
  | _, _, sum f g _, X, Y, Z, dx, dy, dz =>
    .sum (Term.gate (f.has₃ X Y Z) (f.answer₃ X Y Z dx dy dz))
      (Term.gate (g.has₃ X Y Z) (g.answer₃ X Y Z dx dy dz))
  | _, _, product m f g _, X, Y, Z, dx, dy, dz =>
    Leibniz.third m
      f.value
      ⟨f.d₁? X dx, f.d₁? Y dy, f.d₁? Z dz, f.d₂? X Y dx dy, f.d₂? X Z dx dz, f.d₂? Y Z dy dz,
        Term.gate (f.has₃ X Y Z) (f.answer₃ X Y Z dx dy dz)⟩
      g.value
      ⟨g.d₁? X dx, g.d₁? Y dy, g.d₁? Z dz, g.d₂? X Y dx dy, g.d₂? X Z dx dz, g.d₂? Y Z dy dz,
        Term.gate (g.has₃ X Y Z) (g.answer₃ X Y Z dx dy dz)⟩
  | _, _, extremum _ f g _ firstActive, X, Y, Z, dx, dy, dz =>
    if firstActive then Term.gate (f.has₃ X Y Z) (f.answer₃ X Y Z dx dy dz)
    else Term.gate (g.has₃ X Y Z) (g.answer₃ X Y Z dx dy dz)
  | _, _, chain f g, X, Y, Z, dx, dy, dz =>
    Composition.third (fun v => f.d₁? .argument v) (fun v w => f.d₂? .argument .argument v w)
      (fun u v w =>
        Term.gate (f.has₃ .argument .argument .argument)
          (f.answer₃ .argument .argument .argument u v w))
      ⟨g.d₁? X dx, g.d₁? Y dy, g.d₁? Z dz, g.d₂? X Y dx dy, g.d₂? X Z dx dz, g.d₂? Y Z dy dz,
        Term.gate (g.has₃ X Y Z) (g.answer₃ X Y Z dx dy dz)⟩

/-- The third derivative, if the tree has one in the slots. -/
def d₃? {a s : Shape} (f : Tree K L a s) (X Y Z : Slot) (dx : Value K (X.shape Γ a))
    (dy : Value K (Y.shape Γ a)) (dz : Value K (Z.shape Γ a)) : Term K s :=
  Term.gate (f.has₃ X Y Z) (f.answer₃ X Y Z dx dy dz)

end Directional.Tree
