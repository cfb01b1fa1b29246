import Directional.Proofs.Exact.Multilinear
import Directional.Proofs.Tree.Consistency

namespace Directional

/-- A function of two arguments that does not depend on their order. -/
def Unordered₂ {α β : Type} (d : α → α → β) : Prop :=
  ∀ x y, d y x = d x y

/-- A function of three arguments that does not depend on their order. -/
structure Unordered₃ {α β : Type} (d : α → α → α → β) : Prop where
  yxz (x y z : α) : d y x z = d x y z
  xzy (x y z : α) : d x z y = d x y z
  yzx (x y z : α) : d y z x = d x y z
  zxy (x y z : α) : d z x y = d x y z
  zyx (x y z : α) : d z y x = d x y z

/-- Exchanging neighbours brings three arguments into any order. -/
theorem Unordered₃.of_swaps {α β : Type} {d : α → α → α → β}
    (swapFirst : ∀ x y z, d y x z = d x y z) (swapLast : ∀ x y z, d x z y = d x y z) :
    Unordered₃ d where
  yxz := swapFirst
  xzy := swapLast
  yzx x y z := (swapLast y x z).trans (swapFirst x y z)
  zxy x y z := (swapFirst x z y).trans (swapLast x y z)
  zyx x y z := (swapLast z x y).trans ((swapFirst x z y).trans (swapLast x y z))

/-- A slot and a direction in it. -/
structure Heading (K : Type) (Γ : Nat → Shape) (a : Shape) where
  slot : Slot
  direction : Value K (slot.shape Γ a)

/-- Numbers commute, in whichever way they are multiplied. -/
theorem Pairing.apply_comm {K : Type} [Field K] [Primitives K] {s : Shape} (h : s = .scalar)
    (m : Pairing s s s) (x y : Value K s) : m.apply y x = m.apply x y := by
  subst h
  cases m <;> exact mul_comm (G := K) y x

namespace Tree

/-- Only numbers are squared in a tree. -/
def SquaresNumbers {K : Type} {L : Shape → Shape → Type} : {a s : Shape} → Tree K L a s → Prop
  | _, _, leaf _ => True
  | _, _, scale _ f _ => f.SquaresNumbers
  | _, s, squared _ f _ => s = .scalar ∧ f.SquaresNumbers
  | _, _, sum f g _ => f.SquaresNumbers ∧ g.SquaresNumbers
  | _, _, product _ f g _ => f.SquaresNumbers ∧ g.SquaresNumbers
  | _, _, extremum _ f g _ _ => f.SquaresNumbers ∧ g.SquaresNumbers
  | _, _, chain f g => f.SquaresNumbers ∧ g.SquaresNumbers

variable {K : Type} [Field K] [Primitives K] {Γ : Nat → Shape} {a s : Shape}

section Leaf

variable (l : Builtin K Γ a s) (X Y Z : Slot) (dx : Value K (X.shape Γ a))
  (dy : Value K (Y.shape Γ a)) (dz : Value K (Z.shape Γ a))

/-- The second derivatives of a leaf of the library are symmetric. -/
theorem d₂_leaf_comm :
    (leaf l : Tree K (Builtin K Γ) a s).d₂ Y X dy dx = (leaf l).d₂ X Y dx dy := by
  cases h : (leaf l : Tree K (Builtin K Γ) a s).has₂ X Y with
  | false => rw [d₂_of_not_has₂ h, d₂_of_not_has₂ ((l.symmetric.second X Y).trans h)]
  | true =>
    obtain ⟨rfl, rfl⟩ := l.eq_argument_of_has₂ h
    cases l with
    | constant | identity | var | trace => cases h
    | elementary e => exact e.second_comm dx dy
    | det d l => cases d with
      | plane => exact Dimension.plane.detSecond_comm l.matrix dx dy
      | space => exact Dimension.space.detSecond_comm l.matrix dx dy
    | secondInvariant l => exact SecondInvariant.second_comm dx dy
    | strain l => exact Strain.mixed_comm dx dy
    | squaredNorm l => exact SquaredNorm.mixed_comm dx dy

/-- Its third derivatives are symmetric in the first two directions. -/
theorem d₃_leaf_swapFirst :
    (leaf l : Tree K (Builtin K Γ) a s).d₃ Y X Z dy dx dz = (leaf l).d₃ X Y Z dx dy dz := by
  cases h : (leaf l : Tree K (Builtin K Γ) a s).has₃ X Y Z with
  | false => rw [d₃_of_not_has₃ h, d₃_of_not_has₃ ((l.symmetric.swapFirst X Y Z).trans h)]
  | true =>
    obtain ⟨rfl, rfl, rfl⟩ := l.eq_argument_of_has₃ h
    cases l with
    | elementary e => exact e.third_swapFirst dx dy dz
    | det d l => cases d with
      | plane => cases h
      | space => exact Mat.det₃Third_swapFirst dx dy dz
    | _ => cases h

theorem d₃_leaf_swapLast :
    (leaf l : Tree K (Builtin K Γ) a s).d₃ X Z Y dx dz dy = (leaf l).d₃ X Y Z dx dy dz := by
  cases h : (leaf l : Tree K (Builtin K Γ) a s).has₃ X Y Z with
  | false => rw [d₃_of_not_has₃ h, d₃_of_not_has₃ ((l.symmetric.swapLast X Y Z).trans h)]
  | true =>
    obtain ⟨rfl, rfl, rfl⟩ := l.eq_argument_of_has₃ h
    cases l with
    | elementary e => exact e.third_swapLast dx dy dz
    | det d l => cases d with
      | plane => cases h
      | space => exact Mat.det₃Third_swapLast dx dy dz
    | _ => cases h

end Leaf

section Derivatives

variable {f : Tree K (Builtin K Γ) a s} (h : f.SquaresNumbers) (X Y Z : Slot)
  (dx : Value K (X.shape Γ a)) (dy : Value K (Y.shape Γ a)) (dz : Value K (Z.shape Γ a))

include h

/-- The rules list their terms in a fixed order of the slots, but exchanging two slots together with
their directions only exchanges terms. The square of a matrix is the exception: its rule multiplies
the derivatives of the matrix in one order only. -/
theorem d₂_comm : f.d₂ Y X dy dx = f.d₂ X Y dx dy := by
  induction f generalizing X Y with
  | leaf l => exact d₂_leaf_comm l X Y dx dy
  | scale c f v ih => rw [d₂_scale, d₂_scale, ih h]
  | squared m f v ih =>
    obtain ⟨hs, hf⟩ := h
    rw [d₂_squared, d₂_squared, ih hf, m.apply_comm hs (f.d₁ X dx)]
  | sum f g v ihf ihg => rw [d₂_sum, d₂_sum, ihf h.1, ihg h.2]
  | product m f g v ihf ihg =>
    rw [d₂_product, d₂_product, ihf h.1, ihg h.2]
    ac_rfl
  | extremum e f g v firstActive ihf ihg => rw [d₂_extremum, d₂_extremum, ihf h.1, ihg h.2]
  | chain f g ihf ihg =>
    rw [d₂_chain _ _ f.additive, d₂_chain _ _ f.additive, ihf h.1, ihg h.2]

theorem d₃_swapFirst : f.d₃ Y X Z dy dx dz = f.d₃ X Y Z dx dy dz := by
  induction f generalizing X Y Z with
  | leaf l => exact d₃_leaf_swapFirst l X Y Z dx dy dz
  | scale c f v ih => rw [d₃_scale, d₃_scale, ih h]
  | squared m f v ih =>
    obtain ⟨hs, hf⟩ := h
    rw [d₃_squared, d₃_squared, ih hf, d₂_comm hf X Y, m.apply_comm hs (f.d₂ Y Z dy dz),
      m.apply_comm hs (f.d₁ Y dy)]
    apply congrArg (Value.scale · (Scalar.int 2))
    ac_rfl
  | sum f g v ihf ihg => rw [d₃_sum, d₃_sum, ihf h.1, ihg h.2]
  | product m f g v ihf ihg =>
    rw [d₃_product, d₃_product, ihf h.1, ihg h.2, d₂_comm h.1 X Y, d₂_comm h.2 X Y]
    ac_rfl
  | extremum e f g v firstActive ihf ihg => rw [d₃_extremum, d₃_extremum, ihf h.1, ihg h.2]
  | chain f g ihf ihg =>
    -- The outer function is asked in the directions that the inner one answers with, of first and
    -- second order.
    rw [d₃_chain _ _ _ f.additive, d₃_chain _ _ _ f.additive, ihf h.1, ihg h.2, d₂_comm h.2 X Y,
      d₂_comm h.1 .argument .argument (g.d₁ X dx) (g.d₂ Y Z dy dz),
      d₂_comm h.1 .argument .argument (g.d₂ X Z dx dz) (g.d₁ Y dy)]
    ac_rfl

theorem d₃_swapLast : f.d₃ X Z Y dx dz dy = f.d₃ X Y Z dx dy dz := by
  induction f generalizing X Y Z with
  | leaf l => exact d₃_leaf_swapLast l X Y Z dx dy dz
  | scale c f v ih => rw [d₃_scale, d₃_scale, ih h]
  | squared m f v ih =>
    obtain ⟨-, hf⟩ := h
    rw [d₃_squared, d₃_squared, ih hf, d₂_comm hf Y Z]
    apply congrArg (Value.scale · (Scalar.int 2))
    ac_rfl
  | sum f g v ihf ihg => rw [d₃_sum, d₃_sum, ihf h.1, ihg h.2]
  | product m f g v ihf ihg =>
    rw [d₃_product, d₃_product, ihf h.1, ihg h.2, d₂_comm h.1 Y Z, d₂_comm h.2 Y Z]
    ac_rfl
  | extremum e f g v firstActive ihf ihg => rw [d₃_extremum, d₃_extremum, ihf h.1, ihg h.2]
  | chain f g ihf ihg =>
    rw [d₃_chain _ _ _ f.additive, d₃_chain _ _ _ f.additive, ihf h.1, ihg h.2, d₂_comm h.2 Y Z]
    ac_rfl

/-- With the order of the slots neither the value nor the presence of a term changes. -/
theorem d₂?_comm : f.d₂? Y X dy dx = f.d₂? X Y dx dy :=
  d₂?_eq_of_d₂_eq (f.active.symmetric.second X Y) (d₂_comm h X Y dx dy)

theorem d₃?_swapFirst : f.d₃? Y X Z dy dx dz = f.d₃? X Y Z dx dy dz :=
  d₃?_eq_of_d₃_eq (f.active.symmetric.swapFirst X Y Z) (d₃_swapFirst h X Y Z dx dy dz)

theorem d₃?_swapLast : f.d₃? X Z Y dx dz dy = f.d₃? X Y Z dx dy dz :=
  d₃?_eq_of_d₃_eq (f.active.symmetric.swapLast X Y Z) (d₃_swapLast h X Y Z dx dy dz)

end Derivatives

/-- Mixed derivatives of a tree over the leaves of the library are symmetric, in whatever state it
is. Which of them are declared does not depend on the order of the slots. Over exact arithmetic, if
only numbers are squared, a second derivative is the same in both orders of its slots and directions
and a third one in all six, and it is absent in one order if it is in another, whether the tree is
asked directly or only for what it declares. -/
theorem mixed_derivatives_unordered {Γ : Nat → Shape} :
    (∀ {K : Type} [Scalar K] {a s : Shape} (f : Tree K (Builtin K Γ) a s),
      Unordered₂ f.has₂ ∧ Unordered₃ f.has₃) ∧
    ∀ {K : Type} [Field K] [Primitives K] {a s : Shape} (f : Tree K (Builtin K Γ) a s),
      f.SquaresNumbers →
      (Unordered₂ fun u v : Heading K Γ a => f.answer₂ u.slot v.slot u.direction v.direction) ∧
      (Unordered₃ fun u v w : Heading K Γ a =>
        f.answer₃ u.slot v.slot w.slot u.direction v.direction w.direction) ∧
      (Unordered₂ fun u v : Heading K Γ a => f.d₂? u.slot v.slot u.direction v.direction) ∧
      (Unordered₃ fun u v w : Heading K Γ a =>
        f.d₃? u.slot v.slot w.slot u.direction v.direction w.direction) := by
  constructor
  · intro K _ a s f
    exact ⟨f.symmetric.second, .of_swaps f.symmetric.swapFirst f.symmetric.swapLast⟩
  · intro K _ _ a s f h
    have hroot := (everyLeaf_of_forall Builtin.answersAsDeclared f).root
    simp only [answer₂_eq_d₂? _ _ hroot, answer₃_eq_d₃? _ _ _ hroot]
    have hsecond : Unordered₂ fun u v : Heading K Γ a =>
        f.d₂? u.slot v.slot u.direction v.direction := by
      intro u v
      exact d₂?_comm h u.slot v.slot u.direction v.direction
    have hthird : Unordered₃ fun u v w : Heading K Γ a =>
        f.d₃? u.slot v.slot w.slot u.direction v.direction w.direction := by
      apply Unordered₃.of_swaps
      · intro u v w
        exact d₃?_swapFirst h u.slot v.slot w.slot u.direction v.direction w.direction
      · intro u v w
        exact d₃?_swapLast h u.slot v.slot w.slot u.direction v.direction w.direction
    exact ⟨hsecond, hthird, hsecond, hthird⟩

/-- The derivative of `(c * x) ^ 2 * d` in `c`, `x` and `d`, at `c = 2`, `x = 3` and `d = 5`. -/
theorem mixed_derivatives_unordered_square_and_variable :
    let f : Tree ℚ (Builtin ℚ fun _ => .scalar) .scalar .scalar :=
      .product .scalars
        (.squared .scalars
          (.product .scalars (.leaf (.var 0 rfl 2)) (.leaf (.identity 3)) 6) 36)
        (.leaf (.var 1 rfl 5)) 180
    f.SquaresNumbers ∧
      f.answer₃ (.var 0) .argument (.var 1) (1 : ℚ) (1 : ℚ) (1 : ℚ) = some (24 : ℚ) ∧
      f.answer₃ (.var 1) (.var 0) .argument (1 : ℚ) (1 : ℚ) (1 : ℚ) = some (24 : ℚ) := by
  intro f
  have hnumbers : f.SquaresNumbers := ⟨⟨rfl, trivial, trivial⟩, trivial⟩
  have hcxd : f.answer₃ (.var 0) .argument (.var 1) (1 : ℚ) (1 : ℚ) (1 : ℚ) = some (24 : ℚ) := by
    decide +kernel
  have hunordered := (mixed_derivatives_unordered.2 f hnumbers).2.1
  have hdcx := hunordered.zxy ⟨.var 0, (1 : ℚ)⟩ ⟨.argument, (1 : ℚ)⟩ ⟨.var 1, (1 : ℚ)⟩
  exact ⟨hnumbers, hcxd, hdcx.trans hcxd⟩

end Tree

end Directional
