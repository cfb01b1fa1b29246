import Directional.Proofs.Exact.Field
import Directional.Proofs.Tree.Derivative
import Directional.Leaf.Builtin

namespace Directional

namespace Leaf

variable {K : Type} {Γ : Nat → Shape} {L : Shape → Shape → Type} [Leaf K Γ L] {a s : Shape}

/-- A leaf that answers exactly what it declares, in whatever directions it is asked. -/
structure AnswersAsDeclared (l : L a s) : Prop where
  first (X : Slot) (dx : Value K (X.shape Γ a)) : (Leaf.answer₁ l X dx).isSome = Leaf.has₁ l X
  second (X Y : Slot) (dx : Value K (X.shape Γ a)) (dy : Value K (Y.shape Γ a)) :
    (Leaf.answer₂ l X Y dx dy).isSome = Leaf.has₂ l X Y
  third (X Y Z : Slot) (dx : Value K (X.shape Γ a)) (dy : Value K (Y.shape Γ a))
      (dz : Value K (Z.shape Γ a)) :
    (Leaf.answer₃ l X Y Z dx dy dz).isSome = Leaf.has₃ l X Y Z

end Leaf

/-- The leaves of the library answer what they declare. -/
theorem Builtin.answersAsDeclared {K : Type} [Scalar K] {Γ : Nat → Shape} {a s : Shape}
    (l : Builtin K Γ a s) : Leaf.AnswersAsDeclared l := by
  constructor
  case first =>
    intro X dx
    cases X with
    | argument =>
      cases l with
      | det d => cases d <;> rfl
      | _ => rfl
    | var j =>
      cases l with
      | var i shape v =>
        change (if e : j = i then some (Value.cast (e ▸ shape) dx) else none).isSome = (j == i)
        by_cases h : j = i <;> simp [h]
      | _ => rfl
  case second =>
    intro X Y dx dy
    cases l with
    | det d => cases d <;> cases X <;> cases Y <;> rfl
    | _ => cases X <;> cases Y <;> rfl
  case third =>
    intro X Y Z dx dy dz
    cases l with
    | det d => cases d <;> cases X <;> cases Y <;> cases Z <;> rfl
    | _ => cases X <;> cases Y <;> cases Z <;> rfl

namespace Term

variable {K : Type} {s : Shape} {present : Bool} {x : Term K s}

/-- A declaration does not hide a term that it tells the truth about. -/
theorem gate_eq_self_of_isSome (h : x.isSome = present) : gate present x = x := by
  subst h
  cases x <;> rfl

/-- What is asked for only where it is declared is there only where it is declared. -/
theorem present_of_isSome_gate (h : (gate present x).isSome = true) : present = true := by
  cases present with
  | true => rfl
  | false => nomatch h

end Term

/-- Which terms of second order are there. -/
def Mixed₂.present {K : Type} {s : Shape} (d : Mixed₂ (Term K s)) : Mixed₂ Bool where
  x := d.x.isSome
  y := d.y.isSome
  xy := d.xy.isSome

/-- Which terms of third order are there. -/
def Mixed₃.present {K : Type} {s : Shape} (d : Mixed₃ (Term K s)) : Mixed₃ Bool where
  x := d.x.isSome
  y := d.y.isSome
  z := d.z.isSome
  xy := d.xy.isSome
  xz := d.xz.isSome
  yz := d.yz.isSome
  xyz := d.xyz.isSome

namespace Square

variable {K : Type} [Scalar K] {s : Shape} (m : Pairing s s s) (f : Value K s)

/-- A rule has a term if and only if its declaration, read over the terms that the operands have,
says so. That of a square does. -/
theorem isSome_first (d : Term K s) : (first m f d).isSome = d.isSome := by
  simp [first, double]

theorem isSome_second (d : Mixed₂ (Term K s)) :
    (second m f d).isSome = hasSecond d.present := by
  simp [second, double, Term.isSome_sumAll, hasSecond, Mixed₂.present]

theorem isSome_third (d : Mixed₃ (Term K s)) : (third m f d).isSome = hasThird d.present := by
  simp [third, double, Term.isSome_sumAll, hasThird, Mixed₃.present, Bool.or_assoc]

end Square

namespace Leibniz

variable {K : Type} [Scalar K] {s t u : Shape} (m : Pairing s t u) (f : Value K s) (g : Value K t)

/-- The rule of a product has a term if its declaration says so. -/
theorem isSome_first (d : Term K s) (e : Term K t) :
    (first m f d g e).isSome = hasFirst d.isSome e.isSome := by
  simp [first, Term.isSome_sumAll, hasFirst]

theorem isSome_second (d : Mixed₂ (Term K s)) (e : Mixed₂ (Term K t)) :
    (second m f d g e).isSome = hasSecond d.present e.present := by
  simp [second, Term.isSome_sumAll, hasSecond, Mixed₂.present, Bool.or_assoc]

theorem isSome_third (d : Mixed₃ (Term K s)) (e : Mixed₃ (Term K t)) :
    (third m f d g e).isSome = hasThird d.present e.present := by
  simp [third, Term.isSome_sumAll, hasThird, Mixed₃.present, Bool.or_assoc]

end Leibniz

namespace Composition

variable {K : Type} {s t : Shape} {f₁ : Value K t → Term K s}
  {f₂ : Value K t → Value K t → Term K s} {f₃ : Value K t → Value K t → Value K t → Term K s}
  {p₁ p₂ p₃ : Bool}

/-- A derivative that is there in all directions or in none is there at a term if the term is. -/
theorem isSome_first (h₁ : ∀ v, (f₁ v).isSome = p₁) (d : Term K t) :
    (d.bind f₁).isSome = (p₁ && d.isSome) := by
  cases d with
  | none => simp
  | some v => simp [h₁ v]

/-- The outer second derivative is there if both inner derivatives are. -/
theorem isSome_along (h₂ : ∀ v w, (f₂ v w).isSome = p₂) (d e : Term K t) :
    (along f₂ d e).isSome = (p₂ && d.isSome && e.isSome) := by
  cases d with
  | none => simp [along]
  | some v => simp [along, isSome_first (h₂ v)]

/-- The outer third derivative is there if all three inner derivatives are. -/
theorem isSome_along_three (h₃ : ∀ u v w, (f₃ u v w).isSome = p₃) (d e c : Term K t) :
    (d.bind fun u => e.bind fun v => c.bind fun w => f₃ u v w).isSome =
      (p₃ && d.isSome && e.isSome && c.isSome) := by
  cases d with
  | none => simp
  | some u =>
    have halong := isSome_along (h₃ u) e c
    simpa [along] using halong

variable [Scalar K]

/-- The rule of a composition has a term if its declaration says so. -/
theorem isSome_second (h₁ : ∀ v, (f₁ v).isSome = p₁) (h₂ : ∀ v w, (f₂ v w).isSome = p₂)
    (d : Mixed₂ (Term K t)) : (second f₁ f₂ d).isSome = hasSecond p₁ p₂ d.present := by
  simp only [second, Term.isSome_sum, isSome_along h₂, isSome_first h₁, hasSecond, Mixed₂.present]

theorem isSome_third (h₁ : ∀ v, (f₁ v).isSome = p₁) (h₂ : ∀ v w, (f₂ v w).isSome = p₂)
    (h₃ : ∀ u v w, (f₃ u v w).isSome = p₃) (d : Mixed₃ (Term K t)) :
    (third f₁ f₂ f₃ d).isSome = hasThird p₁ p₂ p₃ d.present := by
  simp only [third, Term.isSome_sumAll, List.any_cons, List.any_nil, isSome_along_three h₃,
    isSome_along h₂, isSome_first h₁, hasThird, Mixed₃.present, Bool.and_or_distrib_left,
    Bool.or_false, Bool.or_assoc, Bool.and_assoc]

end Composition

namespace Tree

section Nodes

variable {K : Type} {L : Shape → Shape → Type}

/-- Every leaf of a tree is in `P`, also those of the outer functions of compositions. -/
def EveryLeaf (P : {a s : Shape} → L a s → Prop) : {a s : Shape} → Tree K L a s → Prop
  | _, _, leaf l => P l
  | _, _, scale _ f _ => f.EveryLeaf P
  | _, _, squared _ f _ => f.EveryLeaf P
  | _, _, sum f g _ => f.EveryLeaf P ∧ g.EveryLeaf P
  | _, _, product _ f g _ => f.EveryLeaf P ∧ g.EveryLeaf P
  | _, _, extremum _ f g _ _ => f.EveryLeaf P ∧ g.EveryLeaf P
  | _, _, chain f g => f.EveryLeaf P ∧ g.EveryLeaf P

/-- A tree has no minimum and no maximum in it. -/
def ExtremumFree : {a s : Shape} → Tree K L a s → Prop
  | _, _, leaf _ => True
  | _, _, scale _ f _ => f.ExtremumFree
  | _, _, squared _ f _ => f.ExtremumFree
  | _, _, sum f g _ => f.ExtremumFree ∧ g.ExtremumFree
  | _, _, product _ f g _ => f.ExtremumFree ∧ g.ExtremumFree
  | _, _, extremum _ _ _ _ _ => False
  | _, _, chain f g => f.ExtremumFree ∧ g.ExtremumFree

/-- The tree with the active operand in the place of every minimum and maximum. The other nodes
keep what they hold. -/
def active : {a s : Shape} → Tree K L a s → Tree K L a s
  | _, _, leaf l => leaf l
  | _, _, scale c f v => scale c f.active v
  | _, _, squared m f v => squared m f.active v
  | _, _, sum f g v => sum f.active g.active v
  | _, _, product m f g v => product m f.active g.active v
  | _, _, extremum _ f g _ firstActive => if firstActive then f.active else g.active
  | _, _, chain f g => chain f.active g.active

variable {a s : Shape}

/-- What holds of all leaves of a family holds of those of a tree. -/
theorem everyLeaf_of_forall {P : {a s : Shape} → L a s → Prop} (h : ∀ {a s} (l : L a s), P l)
    (f : Tree K L a s) : f.EveryLeaf P := by
  induction f with
  | leaf l => exact h l
  | scale _ _ _ ih | squared _ _ _ ih => exact ih
  | sum _ _ _ ihf ihg | product _ _ _ _ ihf ihg | extremum _ _ _ _ _ ihf ihg | chain _ _ ihf ihg =>
    exact ⟨ihf, ihg⟩

/-- What follows for each leaf follows for all of them. -/
theorem EveryLeaf.mono {P Q : {a s : Shape} → L a s → Prop} {f : Tree K L a s} (h : f.EveryLeaf P)
    (hPQ : ∀ {a s} (l : L a s), P l → Q l) : f.EveryLeaf Q := by
  induction f with
  | leaf l => exact hPQ l h
  | scale _ _ _ ih | squared _ _ _ ih => exact ih h
  | sum _ _ _ ihf ihg | product _ _ _ _ ihf ihg | extremum _ _ _ _ _ ihf ihg | chain _ _ ihf ihg =>
    exact ⟨ihf h.1, ihg h.2⟩

/-- A tree that is a leaf is one of its leaves. -/
theorem EveryLeaf.root {P : {a s : Shape} → L a s → Prop} {f : Tree K L a s} (h : f.EveryLeaf P)
    (l : L a s) (hleaf : f = leaf l) : P l := by
  subst hleaf
  exact h

/-- Leaving out operands leaves no other leaves. -/
theorem EveryLeaf.active {P : {a s : Shape} → L a s → Prop} {f : Tree K L a s}
    (h : f.EveryLeaf P) : f.active.EveryLeaf P := by
  induction f with
  | leaf l => exact h
  | scale _ _ _ ih | squared _ _ _ ih => exact ih h
  | sum _ _ _ ihf ihg | product _ _ _ _ ihf ihg | chain _ _ ihf ihg => exact ⟨ihf h.1, ihg h.2⟩
  | extremum e f g v firstActive ihf ihg =>
    cases firstActive with
    | true => exact ihf h.1
    | false => exact ihg h.2

/-- Without minima and maxima every operand is active. -/
theorem ExtremumFree.active_eq {f : Tree K L a s} (h : f.ExtremumFree) : f.active = f := by
  induction f with
  | leaf l => rfl
  | scale c f v ih | squared m f v ih => rw [active, ih h]
  | sum f g v ihf ihg | product m f g v ihf ihg | chain f g ihf ihg =>
    rw [active, ihf h.1, ihg h.2]
  | extremum => exact h.elim

end Nodes

variable {K : Type} [Scalar K] {Γ : Nat → Shape} {L : Shape → Shape → Type} [Leaf K Γ L]
  {a s : Shape}

section Active

variable {f : Tree K L a s}

/-- A tree whose leaves answer what they declare answers what is declared by the tree of its active
operands. -/
theorem isSome_d₁? (h : f.EveryLeaf Leaf.AnswersAsDeclared) (X : Slot)
    (dx : Value K (X.shape Γ a)) : (f.d₁? X dx).isSome = f.active.has₁ X := by
  induction f generalizing X with
  | leaf l =>
    have hl := h.first X dx
    rw [d₁?, has₁, answer₁, Term.gate_eq_self_of_isSome hl, active, has₁, hl]
  | scale c f v ih => rw [d₁?_scale, Term.isSome_scale, ih h, active, has₁]
  | squared m f v ih => rw [d₁?_squared, Square.isSome_first, ih h, active, has₁]
  | sum f g v ihf ihg => rw [d₁?_sum, Term.isSome_sum, ihf h.1, ihg h.2, active, has₁]
  | product m f g v ihf ihg =>
    rw [d₁?_product, Leibniz.isSome_first, ihf h.1, ihg h.2, active, has₁]
  | extremum e f g v firstActive ihf ihg =>
    rw [d₁?_extremum, active]
    cases firstActive with
    | true => exact ihf h.1 X dx
    | false => exact ihg h.2 X dx
  | chain f g ihf ihg =>
    rw [d₁?_chain, Composition.first, Composition.isSome_first (ihf h.1 .argument), ihg h.2, active,
      has₁]

theorem isSome_d₂? (h : f.EveryLeaf Leaf.AnswersAsDeclared) (X Y : Slot)
    (dx : Value K (X.shape Γ a)) (dy : Value K (Y.shape Γ a)) :
    (f.d₂? X Y dx dy).isSome = f.active.has₂ X Y := by
  induction f generalizing X Y with
  | leaf l =>
    have hl := h.second X Y dx dy
    rw [d₂?, has₂, answer₂, Term.gate_eq_self_of_isSome hl, active, has₂, hl]
  | scale c f v ih => rw [d₂?_scale, Term.isSome_scale, ih h, active, has₂]
  | squared m f v ih =>
    -- The rules of higher order also read derivatives of lower order off the operands.
    have hf : f.EveryLeaf Leaf.AnswersAsDeclared := h
    simp only [d₂?_squared, Square.isSome_second, Mixed₂.present, isSome_d₁? hf, ih hf, active,
      has₂]
  | sum f g v ihf ihg => rw [d₂?_sum, Term.isSome_sum, ihf h.1, ihg h.2, active, has₂]
  | product m f g v ihf ihg =>
    simp only [d₂?_product, Leibniz.isSome_second, Mixed₂.present, isSome_d₁? h.1, isSome_d₁? h.2,
      ihf h.1, ihg h.2, active, has₂]
  | extremum e f g v firstActive ihf ihg =>
    rw [d₂?_extremum, active]
    cases firstActive with
    | true => exact ihf h.1 X Y dx dy
    | false => exact ihg h.2 X Y dx dy
  | chain f g ihf ihg =>
    rw [d₂?_chain, Composition.isSome_second (isSome_d₁? h.1 .argument)
      (ihf h.1 .argument .argument)]
    simp only [Mixed₂.present, isSome_d₁? h.2, ihg h.2, active, has₂]

theorem isSome_d₃? (h : f.EveryLeaf Leaf.AnswersAsDeclared) (X Y Z : Slot)
    (dx : Value K (X.shape Γ a)) (dy : Value K (Y.shape Γ a)) (dz : Value K (Z.shape Γ a)) :
    (f.d₃? X Y Z dx dy dz).isSome = f.active.has₃ X Y Z := by
  induction f generalizing X Y Z with
  | leaf l =>
    have hl := h.third X Y Z dx dy dz
    rw [d₃?, has₃, answer₃, Term.gate_eq_self_of_isSome hl, active, has₃, hl]
  | scale c f v ih => rw [d₃?_scale, Term.isSome_scale, ih h, active, has₃]
  | squared m f v ih =>
    have hf : f.EveryLeaf Leaf.AnswersAsDeclared := h
    simp only [d₃?_squared, Square.isSome_third, Mixed₃.present, isSome_d₁? hf, isSome_d₂? hf,
      ih hf, active, has₃]
  | sum f g v ihf ihg => rw [d₃?_sum, Term.isSome_sum, ihf h.1, ihg h.2, active, has₃]
  | product m f g v ihf ihg =>
    simp only [d₃?_product, Leibniz.isSome_third, Mixed₃.present, isSome_d₁? h.1, isSome_d₁? h.2,
      isSome_d₂? h.1, isSome_d₂? h.2, ihf h.1, ihg h.2, active, has₃]
  | extremum e f g v firstActive ihf ihg =>
    rw [d₃?_extremum, active]
    cases firstActive with
    | true => exact ihf h.1 X Y Z dx dy dz
    | false => exact ihg h.2 X Y Z dx dy dz
  | chain f g ihf ihg =>
    rw [d₃?_chain, Composition.isSome_third (isSome_d₁? h.1 .argument)
      (isSome_d₂? h.1 .argument .argument) (ihf h.1 .argument .argument .argument)]
    simp only [Mixed₃.present, isSome_d₁? h.2, isSome_d₂? h.2, ihg h.2, active, has₃]

end Active

section Direct

variable {f : Tree K L a s} {X Y Z : Slot} (dx : Value K (X.shape Γ a))
  (dy : Value K (Y.shape Γ a)) (dz : Value K (Z.shape Γ a))

/-- A node that is no leaf asks its operands only for what they have, so it has nothing more to
answer when it is asked directly. -/
theorem answer₁_eq_d₁? (h : ∀ l, f = leaf l → Leaf.AnswersAsDeclared l) :
    f.answer₁ X dx = f.d₁? X dx := by
  cases f with
  | leaf l => exact (Term.gate_eq_self_of_isSome ((h l rfl).first X dx)).symm
  | scale c f v => exact (d₁?_scale dx c f v).symm
  | squared m f v => exact (d₁?_squared dx m f v).symm
  | sum f g v => exact (d₁?_sum dx f g v).symm
  | product m f g v => exact (d₁?_product dx m f g v).symm
  | extremum e f g v b => exact (d₁?_extremum dx e f g v b).symm
  | chain f g => exact (d₁?_chain dx f g).symm

theorem answer₂_eq_d₂? (h : ∀ l, f = leaf l → Leaf.AnswersAsDeclared l) :
    f.answer₂ X Y dx dy = f.d₂? X Y dx dy := by
  cases f with
  | leaf l => exact (Term.gate_eq_self_of_isSome ((h l rfl).second X Y dx dy)).symm
  | scale c f v => exact (d₂?_scale dx dy c f v).symm
  | squared m f v => exact (d₂?_squared dx dy m f v).symm
  | sum f g v => exact (d₂?_sum dx dy f g v).symm
  | product m f g v => exact (d₂?_product dx dy m f g v).symm
  | extremum e f g v b => exact (d₂?_extremum dx dy e f g v b).symm
  | chain f g => exact (d₂?_chain dx dy f g).symm

theorem answer₃_eq_d₃? (h : ∀ l, f = leaf l → Leaf.AnswersAsDeclared l) :
    f.answer₃ X Y Z dx dy dz = f.d₃? X Y Z dx dy dz := by
  cases f with
  | leaf l => exact (Term.gate_eq_self_of_isSome ((h l rfl).third X Y Z dx dy dz)).symm
  | scale c f v => exact (d₃?_scale dx dy dz c f v).symm
  | squared m f v => exact (d₃?_squared dx dy dz m f v).symm
  | sum f g v => exact (d₃?_sum dx dy dz f g v).symm
  | product m f g v => exact (d₃?_product dx dy dz m f g v).symm
  | extremum e f g v b => exact (d₃?_extremum dx dy dz e f g v b).symm
  | chain f g => exact (d₃?_chain dx dy dz f g).symm

end Direct

/-- What a tree declares and what it answers agree, in every state and for all slots and directions,
whether the tree is asked directly or only for what it declares. If the leaves answer what they
declare and there is no minimum or maximum, each derivative is answered if and only if it is
declared. With minima and maxima a derivative that is answered is still declared, and so it is at
every node that is no leaf, whatever the leaves answer that they have not declared. -/
theorem answers_match_declarations (f : Tree K L a s) (X Y Z : Slot) (dx : Value K (X.shape Γ a))
    (dy : Value K (Y.shape Γ a)) (dz : Value K (Z.shape Γ a)) :
    (f.EveryLeaf Leaf.AnswersAsDeclared → f.ExtremumFree →
      ((f.answer₁ X dx).isSome = f.has₁ X ∧ (f.d₁? X dx).isSome = f.has₁ X) ∧
      ((f.answer₂ X Y dx dy).isSome = f.has₂ X Y ∧ (f.d₂? X Y dx dy).isSome = f.has₂ X Y) ∧
      ((f.answer₃ X Y Z dx dy dz).isSome = f.has₃ X Y Z ∧
        (f.d₃? X Y Z dx dy dz).isSome = f.has₃ X Y Z)) ∧
    (f.EveryLeaf Leaf.AnswersAsDeclared ∨ (∀ l, f ≠ leaf l) →
      ((f.answer₁ X dx).isSome ∨ (f.d₁? X dx).isSome → f.has₁ X) ∧
      ((f.answer₂ X Y dx dy).isSome ∨ (f.d₂? X Y dx dy).isSome → f.has₂ X Y) ∧
      ((f.answer₃ X Y Z dx dy dz).isSome ∨ (f.d₃? X Y Z dx dy dz).isSome → f.has₃ X Y Z)) := by
  constructor
  · intro hleaves hfree
    have hroot := hleaves.root
    rw [answer₁_eq_d₁? dx hroot, answer₂_eq_d₂? dx dy hroot, answer₃_eq_d₃? dx dy dz hroot,
      isSome_d₁? hleaves, isSome_d₂? hleaves, isSome_d₃? hleaves, hfree.active_eq]
    exact ⟨⟨rfl, rfl⟩, ⟨rfl, rfl⟩, rfl, rfl⟩
  · intro h
    have hroot : ∀ l, f = leaf l → Leaf.AnswersAsDeclared l := by
      obtain hleaves | hnode := h
      · exact hleaves.root
      · exact fun l hleaf => (hnode l hleaf).elim
    rw [answer₁_eq_d₁? dx hroot, answer₂_eq_d₂? dx dy hroot, answer₃_eq_d₃? dx dy dz hroot, or_self,
      or_self, or_self]
    exact ⟨Term.present_of_isSome_gate, Term.present_of_isSome_gate, Term.present_of_isSome_gate⟩

end Tree

/-- The square of the argument with no derivative but the first, which it answers with in whatever
slot it is asked. -/
inductive Unguarded (K : Type) : (a s : Shape) → Type where
  | square (x : K) : Unguarded K .scalar .scalar

instance {K : Type} [Scalar K] : Leaf K (fun _ => .scalar) (Unguarded K) where
  value
    | .square x => (x * x : K)
  reacts _ := true
  update
    | .square _, x => .accepted (.square x)
  has₁ _ X := X = .argument
  answer₁
    | .square x, .argument, dx => some (Scalar.int 2 * x * dx : K)
    | .square x, .var _, dx => some (Scalar.int 2 * x * dx : K)

/-- A variable times the argument has the second derivative that it declares. The sum of two
squares has none in a variable, though its operands would answer there. -/
theorem Tree.answers_match_declarations_product_and_squares :
    let f : Tree ℚ (Builtin ℚ fun _ => .scalar) .scalar .scalar :=
      .product .scalars (.leaf (.var 0 rfl 2)) (.leaf (.identity 3)) 6
    let square : Unguarded ℚ .scalar .scalar := .square 3
    let g : Tree ℚ (Unguarded ℚ) .scalar .scalar := .sum (.leaf square) (.leaf square) 18
    (f.EveryLeaf Leaf.AnswersAsDeclared ∧ f.ExtremumFree ∧
      (f.answer₂ (.var 0) .argument (1 : ℚ) (1 : ℚ)).isSome = f.has₂ (.var 0) .argument) ∧
    ((∀ l, g ≠ .leaf l) ∧ (Leaf.answer₁ square (.var 0) (1 : ℚ)).isSome ∧
      ((g.answer₁ (.var 0) (1 : ℚ)).isSome ∨ (g.d₁? (.var 0) (1 : ℚ)).isSome →
        g.has₁ (.var 0) = true)) := by
  intro f square g
  have hleaves : f.EveryLeaf Leaf.AnswersAsDeclared :=
    ⟨Builtin.answersAsDeclared _, Builtin.answersAsDeclared _⟩
  have hfree : f.ExtremumFree := ⟨trivial, trivial⟩
  have hnode : ∀ l, g ≠ .leaf l := fun l h => nomatch h
  have hf := (f.answers_match_declarations (.var 0) .argument .argument (1 : ℚ) (1 : ℚ) (1 : ℚ)).1
    hleaves hfree
  have hg := (g.answers_match_declarations (.var 0) .argument .argument (1 : ℚ) (1 : ℚ) (1 : ℚ)).2
    (.inr hnode)
  exact ⟨⟨hleaves, hfree, hf.2.1.1⟩, hnode, rfl, hg.1⟩

end Directional
