import Directional.Tree.Presence

namespace Directional

/-- What a tree can do in one slot: whether it depends on its argument, which derivatives it has
with all directions in the slot, and which variables it is a function of. -/
structure Capabilities where
  slot : Slot
  update : Bool
  d₁ : Bool
  d₂ : Bool
  d₃ : Bool
  slots : SlotSet
  deriving DecidableEq

/-- Colours of the printed form. -/
inductive Colour where
  | cyan | green | red

namespace Colour

/-- The number by which a terminal knows a colour. -/
def code : Colour → Nat
  | cyan => 36
  | green => 32
  | red => 31

/-- A text in a colour, if colours are wanted. -/
def paint (coloured : Bool) (c : Colour) (text : String) : String :=
  if coloured then "\x1b[" ++ toString c.code ++ "m" ++ text ++ "\x1b[0m" else text

end Colour

namespace Capabilities

/-- The capabilities of a tree in a slot. -/
def of {K : Type} {Γ : Nat → Shape} {L : Shape → Shape → Type} [Leaf K Γ L] {a s : Shape}
    (f : Tree K L a s) (X : Slot) : Capabilities where
  slot := X
  update := f.reacts
  d₁ := f.has₁ X
  d₂ := f.has₂ X X
  d₃ := f.has₃ X X X
  slots := f.slots

/-- The highest order of a derivative that is present. -/
def order (c : Capabilities) : Nat :=
  if c.d₃ then 3 else if c.d₂ then 2 else if c.d₁ then 1 else 0

/-- A line of the printed form. -/
def line (coloured : Bool) (label value : String) : String :=
  "    " ++ Colour.cyan.paint coloured label ++ ": " ++ value

/-- The word for a member that is there or not. -/
def mark (coloured present : Bool) : String :=
  if present then Colour.green.paint coloured "present" else Colour.red.paint coloured "absent"

/-- The name of a slot. -/
def slotName : Slot → String
  | .argument => "argument"
  | .var i => toString i

/-- A set of variables in binary, the variable with number zero last. -/
def binary (s : SlotSet) : String :=
  "0b" ++ String.ofList (Nat.toDigits 2 s.bits.toNat)

/-- The printed form, one line for each capability. -/
def text (c : Capabilities) (coloured : Bool) : String :=
  "\n".intercalate [
    "\x7b",
    line coloured "Slot" (slotName c.slot),
    line coloured "Variables" (binary c.slots),
    line coloured "Update" (mark coloured c.update),
    line coloured "d1" (mark coloured c.d₁),
    line coloured "d2" (mark coloured c.d₂),
    line coloured "d3" (mark coloured c.d₃),
    "\x7d"]

end Capabilities

end Directional
