import Directional.Leaf.Builtin

namespace Directional

/-- A call that moves a function of an argument of the shape `a`: to a new argument, or to a new
value of the variable with number `i`. -/
inductive Call (K : Type) (Γ : Nat → Shape) (a : Shape) where
  | update (x : Value K a)
  | write (i : Nat) (x : Value K (Γ i))

/-- The slot that a call addresses. -/
def Call.slot {K : Type} {Γ : Nat → Shape} {a : Shape} : Call K Γ a → Slot
  | update _ => .argument
  | write i _ => .var i

namespace Leaf

variable {K : Type} {Γ : Nat → Shape} {L : Shape → Shape → Type} [Leaf K Γ L] {a s : Shape}

/-- Whether a leaf depends on a slot. -/
def dependsOn (l : L a s) : Slot → Bool
  | .argument => Leaf.reacts l
  | .var i => Leaf.reactsTo l i

/-- Moves a leaf. -/
def call (l : L a s) : Call K Γ a → Outcome (DomainError K) (L a s)
  | .update x => Leaf.update l x
  | .write i x => Leaf.write l i x

/-- Two leaves with the same declarations. -/
structure Alike (l l' : L a s) : Prop where
  slots : Leaf.slots l' = Leaf.slots l
  reacts : Leaf.reacts l' = Leaf.reacts l
  reactsTo (i : Nat) : Leaf.reactsTo l' i = Leaf.reactsTo l i
  has₁ (X : Slot) : Leaf.has₁ l' X = Leaf.has₁ l X
  has₂ (X Y : Slot) : Leaf.has₂ l' X Y = Leaf.has₂ l X Y
  has₃ (X Y Z : Slot) : Leaf.has₃ l' X Y Z = Leaf.has₃ l X Y Z

theorem Alike.refl (l : L a s) : Alike l l := by
  constructor <;> intros <;> rfl

theorem Alike.trans {l l' l'' : L a s} (h : Alike l l') (h' : Alike l' l'') : Alike l l'' where
  slots := h'.slots.trans h.slots
  reacts := h'.reacts.trans h.reacts
  reactsTo i := (h'.reactsTo i).trans (h.reactsTo i)
  has₁ X := (h'.has₁ X).trans (h.has₁ X)
  has₂ X Y := (h'.has₂ X Y).trans (h.has₂ X Y)
  has₃ X Y Z := (h'.has₃ X Y Z).trans (h.has₃ X Y Z)

/-- Alike leaves depend on the same slots. -/
theorem Alike.dependsOn_eq {l l' : L a s} (h : Alike l l') (X : Slot) :
    dependsOn l' X = dependsOn l X := by
  cases X with
  | argument => exact h.reacts
  | var i => exact h.reactsTo i

end Leaf

/-- Leaves whose state after a call is decided by the call. A leaf keeps its declarations through
every call, one that rejects a call stays as it is, and where it goes depends on where it is sent
and not on where it has been. -/
class LawfulLeaf {K : outParam Type} {Γ : outParam (Nat → Shape)} (L : Shape → Shape → Type)
    [Leaf K Γ L] : Prop where
  alike_call {a s : Shape} (l : L a s) (c : Call K Γ a) : Leaf.Alike l (Leaf.call l c).state
  /-- A leaf that rejects a call keeps its state. -/
  eq_of_call_rejected {a s : Shape} {l l' : L a s} {c : Call K Γ a} {e : DomainError K}
    (h : Leaf.call l c = .rejected e l') : l' = l
  /-- A call leaves no trace in a later one of the same slot. -/
  call_absorbs {a s : Shape} (l : L a s) {c d : Call K Γ a} (h : c.slot = d.slot) :
    (Leaf.call (Leaf.call l c).state d).toExcept = (Leaf.call l d).toExcept
  call_of_not_dependsOn {a s : Shape} {l : L a s} {c : Call K Γ a}
    (h : Leaf.dependsOn l c.slot = false) : Leaf.call l c = .accepted l

namespace Elementary

variable {K : Type} [Scalar K]

/-- An elementary function at an argument is the function that it was built from. -/
theorem function_of_at? {f : ElementaryFunction} {x : K} {e : Elementary K}
    (h : Elementary.at? f x = .ok e) : e.function = f := by
  unfold Elementary.at? at h
  cases hjet : f.jet? x with
  | error => simp [hjet, bind, Except.bind] at h
  | ok jet =>
    simp only [hjet, bind, Except.bind, pure, Except.pure, Except.ok.injEq] at h
    rw [← h]

/-- Moving an elementary function keeps the function. -/
theorem function_state_ofExcept (e : Elementary K) (x : K) :
    (Outcome.ofExcept e (Elementary.at? e.function x)).state.function = e.function := by
  cases h : Elementary.at? e.function x with
  | error => rfl
  | ok moved => exact function_of_at? h

end Elementary

namespace Builtin

variable {K : Type} [Scalar K] {Γ : Nat → Shape} {a s : Shape}

/-- A leaf of the library keeps its declarations when it moves. -/
theorem alike_update (l : Builtin K Γ a s) (x : Value K a) : Leaf.Alike l (l.update x).state := by
  cases l with
  | constant | identity | var => constructor <;> intros <;> rfl
  | det d l =>
    rw [update, Outcome.state_map]
    cases d <;> constructor <;> intros <;> rfl
  | _ =>
    rw [update, Outcome.state_map]
    constructor <;> intros <;> rfl

theorem alike_write (l : Builtin K Γ a s) (i : Nat) (x : Value K (Γ i)) :
    Leaf.Alike l (l.write i x).state := by
  cases l with
  | var j shape v =>
    rw [write]
    split <;> constructor <;> intros <;> rfl
  | _ => exact .refl _

/-- Writing a variable is never refused, and an argument is refused as a whole. -/
theorem eq_of_call_rejected {l l' : Builtin K Γ a s} {c : Call K Γ a} {e : DomainError K}
    (h : Leaf.call l c = .rejected e l') : l' = l := by
  cases c with
  | update x =>
    cases l with
    | constant | identity | var => cases h
    | _ => exact Outcome.eq_of_map_ofExcept_rejected h
  | write i x =>
    cases l with
    | var j shape v =>
      simp only [Leaf.call, Leaf.write, write] at h
      split at h <;> cases h
    | _ => cases h

/-- Where a leaf moves to depends on its function alone, which a move keeps. -/
theorem update_absorbs (l : Builtin K Γ a s) (x y : Value K a) :
    ((l.update x).state.update y).toExcept = (l.update y).toExcept := by
  cases l with
  | constant | identity | var => rfl
  | elementary e =>
    simp only [update, Outcome.state_map, Outcome.toExcept_map, Outcome.toExcept_ofExcept,
      Elementary.function_state_ofExcept]
  | _ =>
    simp only [update, Outcome.state_map, Outcome.toExcept_map, Outcome.toExcept_ofExcept]

omit [Scalar K] in
/-- A variable has the value that was written last. -/
theorem write_absorbs (l : Builtin K Γ a s) (i : Nat) (x y : Value K (Γ i)) :
    ((l.write i x).state.write i y).toExcept = (l.write i y).toExcept := by
  cases l with
  | var j shape v => by_cases h : i = j <;> simp [write, h]
  | _ => rfl

/-- A leaf that does not depend on the argument ignores it. -/
theorem update_of_not_reacts {l : Builtin K Γ a s} (h : l.reacts = false) (x : Value K a) :
    l.update x = .accepted l := by
  cases l with
  | constant | var => rfl
  | det d l => cases d <;> simp [reacts, order] at h
  | _ => simp [reacts, order] at h

omit [Scalar K] in
/-- A leaf that is not the variable ignores a write. -/
theorem write_of_not_reactsTo {l : Builtin K Γ a s} {i : Nat} (h : l.reactsTo i = false)
    (x : Value K (Γ i)) : l.write i x = .accepted l := by
  cases l with
  | var j shape v =>
    have hne : i ≠ j := by simpa [reactsTo] using h
    simp [write, hne]
  | _ => rfl

end Builtin

instance {K : Type} [Scalar K] {Γ : Nat → Shape} : LawfulLeaf (Builtin K Γ) where
  alike_call l c := by
    cases c with
    | update x => exact l.alike_update x
    | write i x => exact l.alike_write i x
  eq_of_call_rejected := Builtin.eq_of_call_rejected
  call_absorbs l c d h := by
    cases c <;> cases d
    case update.update x y => exact l.update_absorbs x y
    case write.write i x j y =>
      cases h
      exact l.write_absorbs i x y
    all_goals cases h
  call_of_not_dependsOn {_ _ _ c} h := by
    cases c with
    | update x => exact Builtin.update_of_not_reacts h x
    | write i x => exact Builtin.write_of_not_reactsTo h x

end Directional
