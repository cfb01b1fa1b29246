import Directional.Shape

namespace Directional

/-- What a function can be differentiated and updated in: its argument, or the variable with a
number. -/
inductive Slot where
  | argument
  | var (i : Nat)
  deriving DecidableEq

/-- The shape of a slot, for variables of the shapes `Γ` and an argument of the shape `a`. -/
abbrev Slot.shape (Γ : Nat → Shape) (a : Shape) : Slot → Shape
  | .argument => a
  | .var i => Γ i

namespace Slot

/-- The number that stands for the argument where slots are given by number: the largest word of
sixty-four bits, which is no variable's number. -/
def argumentNumber : Nat :=
  UInt64.size - 1

/-- The slot with a number. -/
def ofNumber (n : Nat) : Slot :=
  if n = argumentNumber then .argument else .var n

@[simp] theorem ofNumber_argumentNumber : ofNumber argumentNumber = .argument := by
  simp [ofNumber]

/-- Every other number is that of a variable. -/
theorem ofNumber_of_ne {n : Nat} (h : n ≠ argumentNumber) : ofNumber n = .var n := by
  simp [ofNumber, h]

end Slot

/-- A set of variables with numbers below sixty-four, as the bits of a word. -/
structure SlotSet where
  bits : BitVec 64
  deriving DecidableEq

namespace SlotSet

instance : EmptyCollection SlotSet :=
  ⟨⟨0⟩⟩

instance : Union SlotSet :=
  ⟨fun s t => ⟨s.bits ||| t.bits⟩⟩

/-- The set of one variable. -/
def single (i : Nat) : SlotSet :=
  ⟨(1 : BitVec 64) <<< i⟩

/-- Whether the variable with number `i` is in the set. Numbers from sixty-four on never are. -/
def contains (s : SlotSet) (i : Nat) : Bool :=
  s.bits.getLsbD i

/-- No variable is in the empty set. -/
@[simp] theorem contains_empty (i : Nat) : (∅ : SlotSet).contains i = false := by
  simp [contains, EmptyCollection.emptyCollection]

/-- A variable is in a union if it is in one of the two sets. -/
@[simp] theorem contains_union (s t : SlotSet) (i : Nat) :
    (s ∪ t).contains i = (s.contains i || t.contains i) := by
  simp [contains, Union.union]

/-- A variable with a number below sixty-four is in its own set. -/
theorem contains_single (i j : Nat) : (single i).contains j = (decide (j < 64) && i == j) := by
  simp only [contains, single, BitVec.getLsbD_shiftLeft]
  by_cases h : j < i
  · simp [h, Nat.ne_of_gt h]
  · by_cases e : i = j
    · simp [e]
    · simp [h, e, show ¬j - i = 0 by omega]

/-- Whether the set has the slot as a variable; the argument is none. -/
def containsSlot (s : SlotSet) : Slot → Bool
  | .argument => false
  | .var i => s.contains i

/-- The numbers of the variables in the set, ascending. -/
def toList (s : SlotSet) : List Nat :=
  (List.range 64).filter s.contains

/-- How many variables the set has. -/
def size (s : SlotSet) : Nat :=
  s.toList.length

/-- Whether the set has a variable at all. -/
def hasAny (s : SlotSet) : Bool :=
  s.bits != 0

/-- Whether the set has two variables or more. -/
def hasMany (s : SlotSet) : Bool :=
  1 < s.size

end SlotSet

end Directional
