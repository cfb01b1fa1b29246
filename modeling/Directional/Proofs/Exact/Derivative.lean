import Directional.Proofs.Exact.Term
import Directional.Proofs.Tree.Derivative
import Directional.Tree.Total

namespace Directional

namespace Term

variable {K : Type} [Field K] [Primitives K] {s t : Shape}

/-- What is done with a term that is there may be done with its total, if it makes zero of zero. -/
theorem total_bind {f : Value K t → Term K s} (h : total (f .zero) = .zero) (x : Term K t) :
    total (x.bind f) = total (f x.total) := by
  cases x with
  | none => exact h.symm
  | some x => rfl

/-- A map that takes zero to zero on both sides passes over absent terms: they may stand for the
direction zero. -/
theorem total_along {f : Value K t → Value K t → Term K s} (hleft : ∀ v, total (f .zero v) = .zero)
    (hright : ∀ v, total (f v .zero) = .zero) (x y : Term K t) :
    total (Composition.along f x y) = total (f x.total y.total) := by
  have hinner (v : Value K t) : total (y.bind (f v)) = total (f v y.total) :=
    total_bind (hright v) y
  exact (total_bind ((hinner _).trans (hleft _)) x).trans (hinner _)

end Term

namespace Tree

variable {K : Type} [Field K] [Primitives K] {Γ : Nat → Shape} {L : Shape → Shape → Type}
  [Leaf K Γ L] {a b s t u : Shape}

/-- A derivative is the total of the optional one, in every order. -/
theorem total_d₁? (f : Tree K L a s) (X : Slot) (dx : Value K (X.shape Γ a)) :
    (f.d₁? X dx).total = f.d₁ X dx := rfl

theorem total_d₂? (f : Tree K L a s) (X Y : Slot) (dx : Value K (X.shape Γ a))
    (dy : Value K (Y.shape Γ a)) : (f.d₂? X Y dx dy).total = f.d₂ X Y dx dy := rfl

theorem total_d₃? (f : Tree K L a s) (X Y Z : Slot) (dx : Value K (X.shape Γ a))
    (dy : Value K (Y.shape Γ a)) (dz : Value K (Z.shape Γ a)) :
    (f.d₃? X Y Z dx dy dz).total = f.d₃ X Y Z dx dy dz := rfl

/-- The derivatives of the tree are additive in each of their directions, and so zero along the
direction zero. The rules of a composition need this of its outer function: a term that is absent
may then stand for a direction. -/
structure Additive (f : Tree K L a s) : Prop where
  first (X : Slot) (u v : Value K (X.shape Γ a)) : f.d₁ X (u.add v) = (f.d₁ X u).add (f.d₁ X v)
  second_left (X Y : Slot) (u v : Value K (X.shape Γ a)) (dy : Value K (Y.shape Γ a)) :
    f.d₂ X Y (u.add v) dy = (f.d₂ X Y u dy).add (f.d₂ X Y v dy)
  second_right (X Y : Slot) (dx : Value K (X.shape Γ a)) (u v : Value K (Y.shape Γ a)) :
    f.d₂ X Y dx (u.add v) = (f.d₂ X Y dx u).add (f.d₂ X Y dx v)
  third_left (X Y Z : Slot) (u v : Value K (X.shape Γ a)) (dy : Value K (Y.shape Γ a))
    (dz : Value K (Z.shape Γ a)) :
    f.d₃ X Y Z (u.add v) dy dz = (f.d₃ X Y Z u dy dz).add (f.d₃ X Y Z v dy dz)
  third_middle (X Y Z : Slot) (dx : Value K (X.shape Γ a)) (u v : Value K (Y.shape Γ a))
    (dz : Value K (Z.shape Γ a)) :
    f.d₃ X Y Z dx (u.add v) dz = (f.d₃ X Y Z dx u dz).add (f.d₃ X Y Z dx v dz)
  third_right (X Y Z : Slot) (dx : Value K (X.shape Γ a)) (dy : Value K (Y.shape Γ a))
    (u v : Value K (Z.shape Γ a)) :
    f.d₃ X Y Z dx dy (u.add v) = (f.d₃ X Y Z dx dy u).add (f.d₃ X Y Z dx dy v)

namespace Additive

variable {f : Tree K L a s} (h : f.Additive)
include h

/-- There is no change along the direction zero. -/
theorem first_zero (X : Slot) : f.d₁ X .zero = .zero :=
  Value.map_zero_of_add (h.first X)

theorem second_zero_left (X Y : Slot) (dy : Value K (Y.shape Γ a)) :
    f.d₂ X Y .zero dy = .zero :=
  Value.map_zero_of_add (φ := (f.d₂ X Y · dy)) fun u v => h.second_left X Y u v dy

theorem second_zero_right (X Y : Slot) (dx : Value K (X.shape Γ a)) :
    f.d₂ X Y dx .zero = .zero :=
  Value.map_zero_of_add (h.second_right X Y dx)

theorem third_zero_left (X Y Z : Slot) (dy : Value K (Y.shape Γ a)) (dz : Value K (Z.shape Γ a)) :
    f.d₃ X Y Z .zero dy dz = .zero :=
  Value.map_zero_of_add (φ := (f.d₃ X Y Z · dy dz)) fun u v => h.third_left X Y Z u v dy dz

theorem third_zero_middle (X Y Z : Slot) (dx : Value K (X.shape Γ a))
    (dz : Value K (Z.shape Γ a)) : f.d₃ X Y Z dx .zero dz = .zero :=
  Value.map_zero_of_add (φ := (f.d₃ X Y Z dx · dz))
    fun u v => h.third_middle X Y Z dx u v dz

theorem third_zero_right (X Y Z : Slot) (dx : Value K (X.shape Γ a)) (dy : Value K (Y.shape Γ a)) :
    f.d₃ X Y Z dx dy .zero = .zero :=
  Value.map_zero_of_add (h.third_right X Y Z dx dy)

/-- The derivatives of an additive function along a term that may be absent are those along its
total. -/
theorem total_bind_d₁? (x : Term K a) :
    Term.total (x.bind (f.d₁? .argument)) = f.d₁ .argument x.total :=
  Term.total_bind (f := f.d₁? .argument) (h.first_zero .argument) x

theorem total_along_d₂? (x y : Term K a) :
    Term.total (Composition.along (f.d₂? .argument .argument) x y) =
      f.d₂ .argument .argument x.total y.total :=
  Term.total_along (f := f.d₂? .argument .argument)
    (h.second_zero_left .argument .argument) (h.second_zero_right .argument .argument) x y

theorem total_bind_d₃? (x y z : Term K a) :
    Term.total (x.bind fun u => Composition.along (f.d₃? .argument .argument .argument u) y z) =
      f.d₃ .argument .argument .argument x.total y.total z.total := by
  have hinner (u : Value K a) :
      Term.total (Composition.along (f.d₃? .argument .argument .argument u) y z) =
        f.d₃ .argument .argument .argument u y.total z.total :=
    Term.total_along (f := f.d₃? .argument .argument .argument u)
      (h.third_zero_middle .argument .argument .argument u)
      (h.third_zero_right .argument .argument .argument u) y z
  have hzero := (hinner .zero).trans (h.third_zero_left .argument .argument .argument _ _)
  exact (Term.total_bind (f := fun u => Composition.along _ y z) hzero x).trans (hinner _)

end Additive

section First

variable {X : Slot} (dx : Value K (X.shape Γ a))

/-- The first derivatives of the nodes, where an absent one counts as zero. That of a multiple is a
multiple. -/
theorem d₁_scale (c : K) (f : Tree K L a s) (v : Value K s) :
    (scale c f v).d₁ X dx = (f.d₁ X dx).scale c := by
  rw [← total_d₁?, d₁?_scale, Term.total_scale, total_d₁?]

/-- The first derivative of a square is twice the product of the value with the derivative. -/
theorem d₁_squared (m : Pairing s s s) (f : Tree K L a s) (v : Value K s) :
    (squared m f v).d₁ X dx = (m.apply f.value (f.d₁ X dx)).scale (Scalar.int 2) := by
  rw [← total_d₁?, d₁?_squared, Square.first, Square.double, Term.total_scale, Term.total_product,
    Term.total_some, total_d₁?]

/-- The first derivative of a sum is the sum of the derivatives. -/
theorem d₁_sum (f g : Tree K L a s) (v : Value K s) :
    (sum f g v).d₁ X dx = (f.d₁ X dx).add (g.d₁ X dx) := by
  rw [← total_d₁?, d₁?_sum, Term.total_sum, total_d₁?, total_d₁?]

/-- The product rule of first order. -/
theorem d₁_product (m : Pairing s t u) (f : Tree K L a s) (g : Tree K L a t) (v : Value K u) :
    (product m f g v).d₁ X dx =
      (m.apply (f.d₁ X dx) g.value).add (m.apply f.value (g.d₁ X dx)) := by
  rw [← total_d₁?, d₁?_product, Leibniz.first, Term.total_sumAll]
  simp [total_d₁?]

/-- A minimum or maximum has the first derivative of its active operand. -/
theorem d₁_extremum (e : Extremum) (f g : Tree K L a s) (v : Value K s) (firstActive : Bool) :
    (extremum e f g v firstActive).d₁ X dx = if firstActive then f.d₁ X dx else g.d₁ X dx := by
  rw [← total_d₁?, d₁?_extremum]
  cases firstActive <;> rfl

/-- The chain rule of first order. -/
theorem d₁_chain {f : Tree K L b s} (hf : f.Additive) (g : Tree K L a b) :
    (chain f g).d₁ X dx = f.d₁ .argument (g.d₁ X dx) := by
  rw [← total_d₁?, d₁?_chain, Composition.first, hf.total_bind_d₁?, total_d₁?]

end First

section Second

variable {X Y : Slot} (dx : Value K (X.shape Γ a)) (dy : Value K (Y.shape Γ a))

/-- The second derivatives of the nodes. -/
theorem d₂_scale (c : K) (f : Tree K L a s) (v : Value K s) :
    (scale c f v).d₂ X Y dx dy = (f.d₂ X Y dx dy).scale c := by
  rw [← total_d₂?, d₂?_scale, Term.total_scale, total_d₂?]

theorem d₂_squared (m : Pairing s s s) (f : Tree K L a s) (v : Value K s) :
    (squared m f v).d₂ X Y dx dy =
      ((m.apply f.value (f.d₂ X Y dx dy)).add (m.apply (f.d₁ X dx) (f.d₁ Y dy))).scale
        (Scalar.int 2) := by
  rw [← total_d₂?, d₂?_squared, Square.second, Square.double, Term.total_scale, Term.total_sumAll]
  simp [total_d₁?, total_d₂?]

/-- The second derivative of a sum is the sum of the derivatives. -/
theorem d₂_sum (f g : Tree K L a s) (v : Value K s) :
    (sum f g v).d₂ X Y dx dy = (f.d₂ X Y dx dy).add (g.d₂ X Y dx dy) := by
  rw [← total_d₂?, d₂?_sum, Term.total_sum, total_d₂?, total_d₂?]

/-- The product rule of second order. The first factor stands on the left in all of its terms. -/
theorem d₂_product (m : Pairing s t u) (f : Tree K L a s) (g : Tree K L a t) (v : Value K u) :
    (product m f g v).d₂ X Y dx dy =
      (m.apply (f.d₂ X Y dx dy) g.value).add ((m.apply (f.d₁ X dx) (g.d₁ Y dy)).add
        ((m.apply (f.d₁ Y dy) (g.d₁ X dx)).add (m.apply f.value (g.d₂ X Y dx dy)))) := by
  rw [← total_d₂?, d₂?_product, Leibniz.second, Term.total_sumAll]
  simp [total_d₁?, total_d₂?]

/-- A minimum or maximum has the second derivative of its active operand. -/
theorem d₂_extremum (e : Extremum) (f g : Tree K L a s) (v : Value K s) (firstActive : Bool) :
    (extremum e f g v firstActive).d₂ X Y dx dy =
      if firstActive then f.d₂ X Y dx dy else g.d₂ X Y dx dy := by
  rw [← total_d₂?, d₂?_extremum]
  cases firstActive <;> rfl

/-- The chain rule of second order. -/
theorem d₂_chain {f : Tree K L b s} (hf : f.Additive) (g : Tree K L a b) :
    (chain f g).d₂ X Y dx dy =
      (f.d₂ .argument .argument (g.d₁ X dx) (g.d₁ Y dy)).add
        (f.d₁ .argument (g.d₂ X Y dx dy)) := by
  rw [← total_d₂?, d₂?_chain, Composition.second, Term.total_sum, hf.total_along_d₂?,
    hf.total_bind_d₁?, total_d₁?, total_d₁?, total_d₂?]

end Second

section Third

variable {X Y Z : Slot} (dx : Value K (X.shape Γ a)) (dy : Value K (Y.shape Γ a))
  (dz : Value K (Z.shape Γ a))

/-- The third derivatives of the nodes. -/
theorem d₃_scale (c : K) (f : Tree K L a s) (v : Value K s) :
    (scale c f v).d₃ X Y Z dx dy dz = (f.d₃ X Y Z dx dy dz).scale c := by
  rw [← total_d₃?, d₃?_scale, Term.total_scale, total_d₃?]

theorem d₃_squared (m : Pairing s s s) (f : Tree K L a s) (v : Value K s) :
    (squared m f v).d₃ X Y Z dx dy dz =
      ((m.apply f.value (f.d₃ X Y Z dx dy dz)).add
        ((m.apply (f.d₁ Z dz) (f.d₂ X Y dx dy)).add
          ((m.apply (f.d₁ Y dy) (f.d₂ X Z dx dz)).add
            (m.apply (f.d₂ Y Z dy dz) (f.d₁ X dx))))).scale (Scalar.int 2) := by
  rw [← total_d₃?, d₃?_squared, Square.third, Square.double, Term.total_scale, Term.total_sumAll]
  simp [total_d₁?, total_d₂?, total_d₃?]

/-- The third derivative of a sum is the sum of the derivatives. -/
theorem d₃_sum (f g : Tree K L a s) (v : Value K s) :
    (sum f g v).d₃ X Y Z dx dy dz = (f.d₃ X Y Z dx dy dz).add (g.d₃ X Y Z dx dy dz) := by
  rw [← total_d₃?, d₃?_sum, Term.total_sum, total_d₃?, total_d₃?]

/-- The product rule of third order: every subset of the directions goes to the first factor, and
the others to the second one. -/
theorem d₃_product (m : Pairing s t u) (f : Tree K L a s) (g : Tree K L a t) (v : Value K u) :
    (product m f g v).d₃ X Y Z dx dy dz =
      (m.apply (f.d₃ X Y Z dx dy dz) g.value).add
        ((m.apply (f.d₂ X Y dx dy) (g.d₁ Z dz)).add
          ((m.apply (f.d₂ X Z dx dz) (g.d₁ Y dy)).add
            ((m.apply (f.d₁ X dx) (g.d₂ Y Z dy dz)).add
              ((m.apply (f.d₂ Y Z dy dz) (g.d₁ X dx)).add
                ((m.apply (f.d₁ Y dy) (g.d₂ X Z dx dz)).add
                  ((m.apply (f.d₁ Z dz) (g.d₂ X Y dx dy)).add
                    (m.apply f.value (g.d₃ X Y Z dx dy dz)))))))) := by
  rw [← total_d₃?, d₃?_product, Leibniz.third, Term.total_sumAll]
  simp [total_d₁?, total_d₂?, total_d₃?]

/-- A minimum or maximum has the third derivative of its active operand. -/
theorem d₃_extremum (e : Extremum) (f g : Tree K L a s) (v : Value K s) (firstActive : Bool) :
    (extremum e f g v firstActive).d₃ X Y Z dx dy dz =
      if firstActive then f.d₃ X Y Z dx dy dz else g.d₃ X Y Z dx dy dz := by
  rw [← total_d₃?, d₃?_extremum]
  cases firstActive <;> rfl

/-- The chain rule of third order: a term for every partition of the directions. -/
theorem d₃_chain {f : Tree K L b s} (hf : f.Additive) (g : Tree K L a b) :
    (chain f g).d₃ X Y Z dx dy dz =
      (f.d₃ .argument .argument .argument (g.d₁ X dx) (g.d₁ Y dy) (g.d₁ Z dz)).add
        ((f.d₂ .argument .argument (g.d₂ X Z dx dz) (g.d₁ Y dy)).add
          ((f.d₂ .argument .argument (g.d₁ X dx) (g.d₂ Y Z dy dz)).add
            ((f.d₂ .argument .argument (g.d₂ X Y dx dy) (g.d₁ Z dz)).add
              (f.d₁ .argument (g.d₃ X Y Z dx dy dz))))) := by
  rw [← total_d₃?, d₃?_chain, Composition.third, Term.total_sumAll]
  change (Term.total ((g.d₁? X dx).bind fun u => Composition.along _ _ _)).add _ = _
  simp only [List.map, List.foldr, hf.total_bind_d₁?, hf.total_along_d₂?, hf.total_bind_d₃?,
    total_d₁?, total_d₂?, total_d₃?, Value.add_zero]

end Third

namespace Additive

/-- Additive operands make an additive node. -/
theorem scale (c : K) {f : Tree K L a s} (hf : f.Additive) (v : Value K s) :
    (Tree.scale c f v).Additive := by
  constructor <;> intros <;>
    simp only [d₁_scale, d₂_scale, d₃_scale, hf.first, hf.second_left, hf.second_right,
      hf.third_left, hf.third_middle, hf.third_right, Value.add_scale]

/-- A square is additive as its operand is, since its pairing is. -/
theorem squared (m : Pairing s s s) {f : Tree K L a s} (hf : f.Additive) (v : Value K s) :
    (Tree.squared m f v).Additive := by
  constructor <;> intros <;>
    simp only [d₁_squared, d₂_squared, d₃_squared, hf.first, hf.second_left, hf.second_right,
      hf.third_left, hf.third_middle, hf.third_right, m.apply_add_left, m.apply_add_right,
      Value.add_scale] <;>
    ac_rfl

/-- The terms of both operands are collected by direction. -/
theorem sum {f g : Tree K L a s} (hf : f.Additive) (hg : g.Additive) (v : Value K s) :
    (Tree.sum f g v).Additive := by
  constructor <;> intros <;>
    simp only [d₁_sum, d₂_sum, d₃_sum, hf.first, hf.second_left, hf.second_right,
      hf.third_left, hf.third_middle, hf.third_right, hg.first, hg.second_left, hg.second_right,
      hg.third_left, hg.third_middle, hg.third_right] <;>
    ac_rfl

/-- Every term of the product rule has each direction in one of its factors. -/
theorem product (m : Pairing s t u) {f : Tree K L a s} {g : Tree K L a t} (hf : f.Additive)
    (hg : g.Additive) (v : Value K u) : (Tree.product m f g v).Additive := by
  constructor <;> intros <;>
    simp only [d₁_product, d₂_product, d₃_product, hf.first, hf.second_left, hf.second_right,
      hf.third_left, hf.third_middle, hf.third_right, hg.first, hg.second_left, hg.second_right,
      hg.third_left, hg.third_middle, hg.third_right, m.apply_add_left, m.apply_add_right] <;>
    ac_rfl

theorem extremum (e : Extremum) {f g : Tree K L a s} (hf : f.Additive) (hg : g.Additive)
    (v : Value K s) (firstActive : Bool) : (Tree.extremum e f g v firstActive).Additive := by
  cases firstActive with
  | true =>
    constructor <;> intros <;>
      simp only [d₁_extremum, d₂_extremum, d₃_extremum, if_true, hf.first, hf.second_left,
        hf.second_right, hf.third_left, hf.third_middle, hf.third_right]
  | false =>
    constructor <;> intros <;>
      simp only [d₁_extremum, d₂_extremum, d₃_extremum, Bool.false_eq_true, if_false, hg.first,
        hg.second_left, hg.second_right, hg.third_left, hg.third_middle, hg.third_right]

/-- A direction comes to the outer function through a derivative of the inner one. -/
theorem chain {f : Tree K L b s} {g : Tree K L a b} (hf : f.Additive) (hg : g.Additive) :
    (Tree.chain f g).Additive := by
  constructor <;> intros <;>
    simp only [d₁_chain _ hf, d₂_chain _ _ hf, d₃_chain _ _ _ hf, hf.first, hf.second_left,
      hf.second_right, hf.third_left, hf.third_middle, hf.third_right, hg.first, hg.second_left,
      hg.second_right, hg.third_left, hg.third_middle, hg.third_right] <;>
    ac_rfl

end Additive

end Tree

end Directional
