import Directional.Proofs.Exact.Matrix
import Directional.Proofs.Taylor.Leaf
import Directional.Proofs.Tree.Answer

namespace Directional

variable {K : Type} [Field K] [Primitives K] {Γ : Nat → Shape} {a b s t u : Shape}

/-- A multiple of a direction, seen from another slot, is a multiple. -/
theorem Slot.along_scale (X Y : Slot) (dx : Value K (X.shape Γ a)) (k : K) :
    (X.along Y (dx.scale k) : Value K (Y.shape Γ a)) = (X.along Y dx).scale k := by
  by_cases h : X = Y
  · subst h
    simp
  · simp [along_of_ne h]

namespace Elementary

variable (e : Elementary K)

/-- The derivatives of an elementary function multiply their directions by a number, so they are
linear. -/
theorem linear_first : Value.Linear (s := .scalar) (t := .scalar) e.first where
  add x y := mul_add e.jet.first x y
  scale x k := (mul_assoc e.jet.first x k).symm

/-- The second derivative is symmetric, as numbers commute. -/
theorem second_comm (x y : K) : e.second y x = e.second x y :=
  mul_right_comm e.jet.second y x

/-- The second derivative is linear in both directions. -/
theorem bilinear_second :
    Value.Bilinear (s := .scalar) (t := .scalar) (u := .scalar) e.second :=
  .of_comm e.second_comm fun x =>
    { add := fun y z => mul_add (e.jet.second * x) y z
      scale := fun y k => (mul_assoc (e.jet.second * x) y k).symm }

/-- The third derivative is symmetric in its first two directions. -/
theorem third_swapFirst (x y z : K) : e.third y x z = e.third x y z :=
  congrArg (· * z) (mul_right_comm e.jet.third y x)

/-- The third derivative is symmetric in its last two directions. -/
theorem third_swapLast (x y z : K) : e.third x z y = e.third x y z :=
  mul_right_comm (e.jet.third * x) z y

/-- The third derivative is linear in all three directions. -/
theorem trilinear_third :
    Value.Trilinear (s := .scalar) (t := .scalar) (u := .scalar) (w := .scalar) e.third :=
  .of_comm e.third_swapFirst e.third_swapLast fun x y =>
    { add := fun z w => mul_add (e.jet.third * x * y) z w
      scale := fun z k => (mul_assoc (e.jet.third * x * y) z k).symm }

end Elementary

namespace Tree

variable {L : Shape → Shape → Type} [Leaf K Γ L] {f : Tree K L a s} {X Y Z : Slot}

/-- A second derivative that is not declared is zero. -/
theorem d₂_of_not_has₂ (h : f.has₂ X Y = false) : f.d₂ X Y = fun _ _ => .zero := by
  funext dx dy
  rw [d₂, d₂?, h]
  rfl

/-- A third derivative that is not declared is zero. -/
theorem d₃_of_not_has₃ (h : f.has₃ X Y Z = false) : f.d₃ X Y Z = fun _ _ _ => .zero := by
  funext dx dy dz
  rw [d₃, d₃?, h]
  rfl

end Tree

namespace Builtin

variable (l : Builtin K Γ a s)

omit [Field K] [Primitives K] in
/-- A leaf of the library has its second derivatives in the argument only. -/
theorem eq_argument_of_has₂ {X Y : Slot} (h : l.has₂ X Y = true) :
    X = .argument ∧ Y = .argument := by
  simp only [has₂, Bool.and_eq_true, decide_eq_true_eq] at h
  exact ⟨h.1.2, h.2⟩

omit [Field K] [Primitives K] in
/-- A leaf of the library has its third derivatives in the argument only. -/
theorem eq_argument_of_has₃ {X Y Z : Slot} (h : l.has₃ X Y Z = true) :
    X = .argument ∧ Y = .argument ∧ Z = .argument := by
  simp only [has₃, Bool.and_eq_true, decide_eq_true_eq] at h
  exact ⟨h.1.1.2, h.1.2, h.2⟩

/-- The leaves of the library answer with a linear map of the direction. -/
theorem linear_d₁ (X : Slot) :
    Value.Linear ((Tree.leaf l : Tree K (Builtin K Γ) a s).d₁ X) := by
  cases X with
  | var j =>
    cases l with
    | var i shape v =>
      subst shape
      constructor <;> intros <;> simp only [Tree.d₁_var, Slot.along_add, Slot.along_scale]
    | _ => exact Value.linear_zero
  | argument =>
    cases l with
    | constant v | var i shape v => exact Value.linear_zero
    | identity p => exact ⟨fun _ _ => rfl, fun _ _ => rfl⟩
    | elementary e => exact e.linear_first
    | trace l => exact Mat.linear_trace
    | det d l => cases d with
      | plane => exact Dimension.plane.linear_detFirst l.matrix
      | space => exact Dimension.space.linear_detFirst l.matrix
    | secondInvariant l => exact SecondInvariant.linear_mixed l.matrix l.trace
    | strain l => exact Strain.bilinear_mixed.left l.gradient
    | squaredNorm l => exact SquaredNorm.linear_mixed l.matrix

theorem bilinear_d₂ (X Y : Slot) :
    Value.Bilinear ((Tree.leaf l : Tree K (Builtin K Γ) a s).d₂ X Y) := by
  cases h : (Tree.leaf l : Tree K (Builtin K Γ) a s).has₂ X Y with
  | false =>
    rw [Tree.d₂_of_not_has₂ h]
    exact Value.bilinear_zero
  | true =>
    obtain ⟨rfl, rfl⟩ := l.eq_argument_of_has₂ h
    cases l with
    | constant | identity | var | trace => cases h
    | elementary e => exact e.bilinear_second
    | det d l => cases d with
      | plane => exact Dimension.plane.bilinear_detSecond l.matrix
      | space => exact Dimension.space.bilinear_detSecond l.matrix
    | secondInvariant l => exact SecondInvariant.bilinear_second
    | strain l => exact Strain.bilinear_mixed
    | squaredNorm l => exact SquaredNorm.bilinear_mixed

theorem trilinear_d₃ (X Y Z : Slot) :
    Value.Trilinear ((Tree.leaf l : Tree K (Builtin K Γ) a s).d₃ X Y Z) := by
  cases h : (Tree.leaf l : Tree K (Builtin K Γ) a s).has₃ X Y Z with
  | false =>
    rw [Tree.d₃_of_not_has₃ h]
    exact Value.trilinear_zero
  | true =>
    obtain ⟨rfl, rfl, rfl⟩ := l.eq_argument_of_has₃ h
    cases l with
    | elementary e => exact e.trilinear_third
    | det d l => cases d with
      | plane => cases h
      | space => exact Mat.trilinear_det₃Third
    | _ => cases h

end Builtin

namespace Tree

section Homogeneous

variable {L : Shape → Shape → Type} [Leaf K Γ L]

/-- A multiple of a direction gives the multiple of the derivative, in every direction. -/
structure Homogeneous (f : Tree K L a s) : Prop where
  first (X : Slot) (dx : Value K (X.shape Γ a)) (k : K) :
    f.d₁ X (dx.scale k) = (f.d₁ X dx).scale k
  second_left (X Y : Slot) (dx : Value K (X.shape Γ a)) (dy : Value K (Y.shape Γ a)) (k : K) :
    f.d₂ X Y (dx.scale k) dy = (f.d₂ X Y dx dy).scale k
  second_right (X Y : Slot) (dx : Value K (X.shape Γ a)) (dy : Value K (Y.shape Γ a)) (k : K) :
    f.d₂ X Y dx (dy.scale k) = (f.d₂ X Y dx dy).scale k
  third_left (X Y Z : Slot) (dx : Value K (X.shape Γ a)) (dy : Value K (Y.shape Γ a))
    (dz : Value K (Z.shape Γ a)) (k : K) :
    f.d₃ X Y Z (dx.scale k) dy dz = (f.d₃ X Y Z dx dy dz).scale k
  third_middle (X Y Z : Slot) (dx : Value K (X.shape Γ a)) (dy : Value K (Y.shape Γ a))
    (dz : Value K (Z.shape Γ a)) (k : K) :
    f.d₃ X Y Z dx (dy.scale k) dz = (f.d₃ X Y Z dx dy dz).scale k
  third_right (X Y Z : Slot) (dx : Value K (X.shape Γ a)) (dy : Value K (Y.shape Γ a))
    (dz : Value K (Z.shape Γ a)) (k : K) :
    f.d₃ X Y Z dx dy (dz.scale k) = (f.d₃ X Y Z dx dy dz).scale k

namespace Homogeneous

/-- Every rule of differentiation keeps multiples of directions. That of a multiple does since
factors may be exchanged. -/
theorem scale (c : K) {f : Tree K L a s} (hf : f.Homogeneous) (v : Value K s) :
    (Tree.scale c f v).Homogeneous := by
  constructor <;> intros <;>
    simp only [d₁_scale, d₂_scale, d₃_scale, hf.first, hf.second_left, hf.second_right,
      hf.third_left, hf.third_middle, hf.third_right, Value.scale_comm _ _ c]

/-- The rule of a square keeps multiples, since its pairing does. -/
theorem squared (m : Pairing s s s) {f : Tree K L a s} (hf : f.Homogeneous) (v : Value K s) :
    (Tree.squared m f v).Homogeneous := by
  constructor <;> intros <;>
    simp only [d₁_squared, d₂_squared, d₃_squared, hf.first, hf.second_left, hf.second_right,
      hf.third_left, hf.third_middle, hf.third_right, m.apply_scale_left, m.apply_scale_right,
      ← Value.add_scale, Value.scale_comm _ _ (Scalar.int 2)]

/-- The rule of a sum keeps multiples, as both of its terms have the same one. -/
theorem sum {f g : Tree K L a s} (hf : f.Homogeneous) (hg : g.Homogeneous) (v : Value K s) :
    (Tree.sum f g v).Homogeneous := by
  constructor <;> intros <;>
    simp only [d₁_sum, d₂_sum, d₃_sum, hf.first, hf.second_left, hf.second_right,
      hf.third_left, hf.third_middle, hf.third_right, hg.first, hg.second_left, hg.second_right,
      hg.third_left, hg.third_middle, hg.third_right, ← Value.add_scale]

/-- Each term of the product rule has every direction once. -/
theorem product (m : Pairing s t u) {f : Tree K L a s} {g : Tree K L a t} (hf : f.Homogeneous)
    (hg : g.Homogeneous) (v : Value K u) : (Tree.product m f g v).Homogeneous := by
  constructor <;> intros <;>
    simp only [d₁_product, d₂_product, d₃_product, hf.first, hf.second_left, hf.second_right,
      hf.third_left, hf.third_middle, hf.third_right, hg.first, hg.second_left, hg.second_right,
      hg.third_left, hg.third_middle, hg.third_right, m.apply_scale_left, m.apply_scale_right,
      ← Value.add_scale]

theorem extremum (e : Extremum) {f g : Tree K L a s} (hf : f.Homogeneous) (hg : g.Homogeneous)
    (v : Value K s) (firstActive : Bool) : (Tree.extremum e f g v firstActive).Homogeneous := by
  cases firstActive with
  | true =>
    constructor <;> intros <;>
      simp only [d₁_extremum, d₂_extremum, d₃_extremum, if_true, hf.first, hf.second_left,
        hf.second_right, hf.third_left, hf.third_middle, hf.third_right]
  | false =>
    constructor <;> intros <;>
      simp only [d₁_extremum, d₂_extremum, d₃_extremum, Bool.false_eq_true, if_false, hg.first,
        hg.second_left, hg.second_right, hg.third_left, hg.third_middle, hg.third_right]

/-- Multiples of a direction come to the outer function as multiples. That its derivatives are
additive makes them zero where the inner function has none. -/
theorem chain {f : Tree K L b s} {g : Tree K L a b} (additive : f.Additive) (hf : f.Homogeneous)
    (hg : g.Homogeneous) : (Tree.chain f g).Homogeneous := by
  constructor <;> intros <;>
    simp only [d₁_chain _ additive, d₂_chain _ _ additive, d₃_chain _ _ _ additive, hf.first,
      hf.second_left, hf.second_right, hf.third_left, hf.third_middle, hf.third_right, hg.first,
      hg.second_left, hg.second_right, hg.third_left, hg.third_middle, hg.third_right,
      ← Value.add_scale]

end Homogeneous

end Homogeneous

/-- The derivatives of a tree over the leaves of the library are additive in every direction. -/
theorem additive (f : Tree K (Builtin K Γ) a s) : f.Additive := by
  induction f with
  | leaf l =>
    exact {
      first := fun X => (l.linear_d₁ X).add
      second_left := fun X Y u v dy => ((l.bilinear_d₂ X Y).left dy).add u v
      second_right := fun X Y dx => ((l.bilinear_d₂ X Y).right dx).add
      third_left := fun X Y Z u v dy dz => ((l.trilinear_d₃ X Y Z).left dy dz).add u v
      third_middle := fun X Y Z dx u v dz => ((l.trilinear_d₃ X Y Z).middle dx dz).add u v
      third_right := fun X Y Z dx dy => ((l.trilinear_d₃ X Y Z).right dx dy).add }
  | scale c f v ih => exact .scale c ih v
  | squared m f v ih => exact .squared m ih v
  | sum f g v ihf ihg => exact .sum ihf ihg v
  | product m f g v ihf ihg => exact .product m ihf ihg v
  | extremum e f g v firstActive ihf ihg => exact .extremum e ihf ihg v firstActive
  | chain f g ihf ihg => exact .chain ihf ihg

/-- The derivatives of every tree over the leaves of the library keep multiples of directions. -/
theorem homogeneous (f : Tree K (Builtin K Γ) a s) : f.Homogeneous := by
  induction f with
  | leaf l =>
    exact {
      first := fun X => (l.linear_d₁ X).scale
      second_left := fun X Y dx dy => ((l.bilinear_d₂ X Y).left dy).scale dx
      second_right := fun X Y dx => ((l.bilinear_d₂ X Y).right dx).scale
      third_left := fun X Y Z dx dy dz => ((l.trilinear_d₃ X Y Z).left dy dz).scale dx
      third_middle := fun X Y Z dx dy dz => ((l.trilinear_d₃ X Y Z).middle dx dz).scale dy
      third_right := fun X Y Z dx dy => ((l.trilinear_d₃ X Y Z).right dx dy).scale }
  | scale c f v ih => exact .scale c ih v
  | squared m f v ih => exact .squared m ih v
  | sum f g v ihf ihg => exact .sum ihf ihg v
  | product m f g v ihf ihg => exact .product m ihf ihg v
  | extremum e f g v firstActive ihf ihg => exact .extremum e ihf ihg v firstActive
  | chain f g ihf ihg => exact .chain f.additive ihf ihg

/-- The derivatives of a tree over the leaves of the library are linear in each of their directions.
-/
theorem linear_d₁ (f : Tree K (Builtin K Γ) a s) (X : Slot) : Value.Linear (f.d₁ X) where
  add := f.additive.first X
  scale := f.homogeneous.first X

theorem bilinear_d₂ (f : Tree K (Builtin K Γ) a s) (X Y : Slot) : Value.Bilinear (f.d₂ X Y) where
  left dy :=
    { add := fun u v => f.additive.second_left X Y u v dy
      scale := fun dx => f.homogeneous.second_left X Y dx dy }
  right dx :=
    { add := f.additive.second_right X Y dx
      scale := f.homogeneous.second_right X Y dx }

section Equal

variable {a' : Shape} {f : Tree K (Builtin K Γ) a s} {f' : Tree K (Builtin K Γ) a' s}
  {X Y Z X' Y' Z' : Slot} {dx : Value K (X.shape Γ a)} {dy : Value K (Y.shape Γ a)}
  {dz : Value K (Z.shape Γ a)} {dx' : Value K (X'.shape Γ a')} {dy' : Value K (Y'.shape Γ a')}
  {dz' : Value K (Z'.shape Γ a')}

/-- Derivatives with the same values are the same, if both of them are there or absent according to
the trees of the active operands. -/
theorem d₁?_eq_of_d₁_eq (hactive : f.active.has₁ X = f'.active.has₁ X')
    (h : f.d₁ X dx = f'.d₁ X' dx') : f.d₁? X dx = f'.d₁? X' dx' := by
  have hleaves := everyLeaf_of_forall Builtin.answersAsDeclared f
  have hleaves' := everyLeaf_of_forall Builtin.answersAsDeclared f'
  apply Term.eq_of_isSome_of_total _ h
  rw [isSome_d₁? hleaves, isSome_d₁? hleaves', hactive]

theorem d₂?_eq_of_d₂_eq (hactive : f.active.has₂ X Y = f'.active.has₂ X' Y')
    (h : f.d₂ X Y dx dy = f'.d₂ X' Y' dx' dy') : f.d₂? X Y dx dy = f'.d₂? X' Y' dx' dy' := by
  have hleaves := everyLeaf_of_forall Builtin.answersAsDeclared f
  have hleaves' := everyLeaf_of_forall Builtin.answersAsDeclared f'
  apply Term.eq_of_isSome_of_total _ h
  rw [isSome_d₂? hleaves, isSome_d₂? hleaves', hactive]

theorem d₃?_eq_of_d₃_eq (hactive : f.active.has₃ X Y Z = f'.active.has₃ X' Y' Z')
    (h : f.d₃ X Y Z dx dy dz = f'.d₃ X' Y' Z' dx' dy' dz') :
    f.d₃? X Y Z dx dy dz = f'.d₃? X' Y' Z' dx' dy' dz' := by
  have hleaves := everyLeaf_of_forall Builtin.answersAsDeclared f
  have hleaves' := everyLeaf_of_forall Builtin.answersAsDeclared f'
  apply Term.eq_of_isSome_of_total _ h
  rw [isSome_d₃? hleaves, isSome_d₃? hleaves', hactive]

end Equal

end Tree

end Directional
