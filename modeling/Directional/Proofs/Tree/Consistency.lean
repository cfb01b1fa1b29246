import Directional.Proofs.Tree.Answer

namespace Directional

/-- Of the derivatives along three directions, each second one comes with the first ones in its
directions, and the third one with the second one along `x` and `y`. -/
structure Mixed₃.Consistent (p : Mixed₃ Bool) : Prop where
  xy : p.xy = true → p.x = true ∧ p.y = true
  xz : p.xz = true → p.x = true ∧ p.z = true
  yz : p.yz = true → p.y = true ∧ p.z = true
  xyz : p.xyz = true → p.xy = true

/-- The derivatives along `x` and `y`. -/
def Mixed₃.xyPart {α : Type} (d : Mixed₃ α) : Mixed₂ α :=
  ⟨d.x, d.y, d.xy⟩

/-- The derivatives with the directions `x` and `y` exchanged. -/
def Mixed₂.swap {α : Type} (d : Mixed₂ α) : Mixed₂ α :=
  ⟨d.y, d.x, d.xy⟩

/-- The derivatives with the directions `x` and `y` exchanged. -/
def Mixed₃.swapFirst {α : Type} (d : Mixed₃ α) : Mixed₃ α :=
  ⟨d.y, d.x, d.z, d.xy, d.yz, d.xz, d.xyz⟩

/-- The derivatives with the directions `y` and `z` exchanged. -/
def Mixed₃.swapLast {α : Type} (d : Mixed₃ α) : Mixed₃ α :=
  ⟨d.x, d.z, d.y, d.xz, d.xy, d.yz, d.xyz⟩

namespace Leibniz

/-- The rule of a product keeps consistency in the second order. -/
theorem consistent_second {p q : Mixed₂ Bool} (hp : p.xy = true → p.x = true ∧ p.y = true)
    (hq : q.xy = true → q.x = true ∧ q.y = true) (h : hasSecond p q = true) :
    hasFirst p.x q.x = true ∧ hasFirst p.y q.y = true := by
  simp only [hasSecond, Bool.or_eq_true, Bool.and_eq_true] at h
  simp only [hasFirst, Bool.or_eq_true]
  obtain ((h | ⟨hx, hy⟩) | ⟨hy, hx⟩) | h := h
  · exact ⟨.inl (hp h).1, .inl (hp h).2⟩
  · exact ⟨.inl hx, .inr hy⟩
  · exact ⟨.inr hx, .inl hy⟩
  · exact ⟨.inr (hq h).1, .inr (hq h).2⟩

theorem consistent_third {p q : Mixed₃ Bool} (hp : p.Consistent) (hq : q.Consistent)
    (h : hasThird p q = true) : hasSecond p.xyPart q.xyPart = true := by
  simp only [hasThird, Bool.or_eq_true, Bool.and_eq_true] at h
  simp only [hasSecond, Mixed₃.xyPart, Bool.or_eq_true, Bool.and_eq_true, or_assoc]
  obtain ((((((h | ⟨h, -⟩) | ⟨h, hy⟩) | ⟨hx, h⟩) | ⟨h, hx⟩) | ⟨hy, h⟩) | ⟨-, h⟩) | h := h
  · exact .inl (hp.xyz h)
  · exact .inl h
  · exact .inr (.inl ⟨(hp.xz h).1, hy⟩)
  · exact .inr (.inl ⟨hx, (hq.yz h).1⟩)
  · exact .inr (.inr (.inl ⟨(hp.yz h).1, hx⟩))
  · exact .inr (.inr (.inl ⟨hy, (hq.xz h).1⟩))
  · exact .inr (.inr (.inr h))
  · exact .inr (.inr (.inr (hq.xyz h)))

/-- It declares the same if the directions are exchanged. -/
theorem hasSecond_swap (p q : Mixed₂ Bool) : hasSecond p.swap q.swap = hasSecond p q := by
  simp only [hasSecond, Mixed₂.swap]
  ac_rfl

theorem hasThird_swapFirst (p q : Mixed₃ Bool) :
    hasThird p.swapFirst q.swapFirst = hasThird p q := by
  simp only [hasThird, Mixed₃.swapFirst]
  ac_rfl

theorem hasThird_swapLast (p q : Mixed₃ Bool) :
    hasThird p.swapLast q.swapLast = hasThird p q := by
  simp only [hasThird, Mixed₃.swapLast]
  ac_rfl

end Leibniz

namespace Square

/-- The rule of a square keeps consistency in the second order. -/
theorem consistent_second {p : Mixed₂ Bool} (hp : p.xy = true → p.x = true ∧ p.y = true)
    (h : hasSecond p = true) : p.x = true ∧ p.y = true := by
  rw [hasSecond_eq_leibniz] at h
  simpa only [Leibniz.hasFirst, Bool.or_self] using Leibniz.consistent_second hp hp h

theorem consistent_third {p : Mixed₃ Bool} (hp : p.Consistent) (h : hasThird p = true) :
    hasSecond p.xyPart = true := by
  rw [hasThird_eq_leibniz] at h
  rw [hasSecond_eq_leibniz]
  exact Leibniz.consistent_third hp hp h

/-- It declares the same if the directions are exchanged. -/
theorem hasSecond_swap (p : Mixed₂ Bool) : hasSecond p.swap = hasSecond p := by
  simp only [hasSecond_eq_leibniz, Leibniz.hasSecond_swap]

theorem hasThird_swapFirst (p : Mixed₃ Bool) : hasThird p.swapFirst = hasThird p := by
  simp only [hasThird_eq_leibniz, Leibniz.hasThird_swapFirst]

theorem hasThird_swapLast (p : Mixed₃ Bool) : hasThird p.swapLast = hasThird p := by
  simp only [hasThird_eq_leibniz, Leibniz.hasThird_swapLast]

end Square

namespace Composition

variable {p₁ p₂ p₃ : Bool}

/-- The rule of a composition keeps consistency, if the outer function is consistent in its
argument. -/
theorem consistent_second {q : Mixed₂ Bool} (hp : p₂ = true → p₁ = true)
    (hq : q.xy = true → q.x = true ∧ q.y = true) (h : hasSecond p₁ p₂ q = true) :
    (p₁ && q.x) = true ∧ (p₁ && q.y) = true := by
  simp only [hasSecond, Bool.or_eq_true, Bool.and_eq_true] at h ⊢
  obtain ⟨⟨h₂, hx⟩, hy⟩ | ⟨h₁, h⟩ := h
  · exact ⟨⟨hp h₂, hx⟩, hp h₂, hy⟩
  · exact ⟨⟨h₁, (hq h).1⟩, h₁, (hq h).2⟩

theorem consistent_third {q : Mixed₃ Bool} (hp₂ : p₂ = true → p₁ = true)
    (hp₃ : p₃ = true → p₂ = true) (hq : q.Consistent) (h : hasThird p₁ p₂ p₃ q = true) :
    hasSecond p₁ p₂ q.xyPart = true := by
  simp only [hasThird, Bool.or_eq_true, Bool.and_eq_true] at h
  simp only [hasSecond, Mixed₃.xyPart, Bool.or_eq_true, Bool.and_eq_true]
  obtain (⟨⟨⟨h₃, hx⟩, hy⟩, -⟩ | ⟨h₂, (⟨h, hy⟩ | ⟨hx, h⟩) | ⟨h, -⟩⟩) | ⟨h₁, h⟩ := h
  · exact .inl ⟨⟨hp₃ h₃, hx⟩, hy⟩
  · exact .inl ⟨⟨h₂, (hq.xz h).1⟩, hy⟩
  · exact .inl ⟨⟨h₂, hx⟩, (hq.yz h).1⟩
  · exact .inr ⟨hp₂ h₂, h⟩
  · exact .inr ⟨h₁, hq.xyz h⟩

variable (p₁ p₂ p₃)

/-- It declares the same if the directions are exchanged. -/
theorem hasSecond_swap (q : Mixed₂ Bool) : hasSecond p₁ p₂ q.swap = hasSecond p₁ p₂ q := by
  simp only [hasSecond, Mixed₂.swap]
  ac_rfl

theorem hasThird_swapFirst (q : Mixed₃ Bool) :
    hasThird p₁ p₂ p₃ q.swapFirst = hasThird p₁ p₂ p₃ q := by
  simp only [hasThird, Mixed₃.swapFirst]
  ac_rfl

theorem hasThird_swapLast (q : Mixed₃ Bool) :
    hasThird p₁ p₂ p₃ q.swapLast = hasThird p₁ p₂ p₃ q := by
  simp only [hasThird, Mixed₃.swapLast]
  ac_rfl

end Composition

namespace Tree

variable {K : Type} {Γ : Nat → Shape} {L : Shape → Shape → Type} [Leaf K Γ L] {a s : Shape}

/-- Second derivatives come with the first ones in their slots, and third ones with the second one
in the first two slots. -/
structure Consistent (f : Tree K L a s) : Prop where
  second {X Y : Slot} : f.has₂ X Y = true → f.has₁ X = true ∧ f.has₁ Y = true
  third {X Y Z : Slot} : f.has₃ X Y Z = true → f.has₂ X Y = true

/-- Consistency is what the declarations that are computed say in all slots. -/
theorem consistent_iff {f : Tree K L a s} :
    f.Consistent ↔ ∀ X Y Z, f.consistent₂ X Y = true ∧ f.consistent₃ X Y Z = true := by
  constructor
  · intro h X Y Z
    have hsecond : f.consistent₂ X Y = true := by
      cases hhas : f.has₂ X Y with
      | false => simp [consistent₂, hhas]
      | true => simpa [consistent₂, hhas] using h.second hhas
    refine ⟨hsecond, ?_⟩
    cases hhas : f.has₃ X Y Z with
    | false => simp [consistent₃, hhas, hsecond]
    | true => simpa [consistent₃, hhas, hsecond] using h.third hhas
  · intro h
    constructor
    · intro X Y hhas
      simpa [consistent₂, hhas] using (h X Y X).1
    · intro X Y Z hhas
      have hthird := (h X Y Z).2
      simp only [consistent₃, hhas, Bool.not_true, Bool.false_or, Bool.and_eq_true] at hthird
      exact hthird.2

/-- What a tree declares of the derivatives in two slots. -/
def declared₂ (f : Tree K L a s) (X Y : Slot) : Mixed₂ Bool where
  x := f.has₁ X
  y := f.has₁ Y
  xy := f.has₂ X Y

/-- What a tree declares of the derivatives in three slots. -/
def declared₃ (f : Tree K L a s) (X Y Z : Slot) : Mixed₃ Bool where
  x := f.has₁ X
  y := f.has₁ Y
  z := f.has₁ Z
  xy := f.has₂ X Y
  xz := f.has₂ X Z
  yz := f.has₂ Y Z
  xyz := f.has₃ X Y Z

section Nodes

variable {t u : Shape} {X Y Z : Slot}

/-- The declarations of a node are its rule over those of its operands. -/
theorem has₂_squared (m : Pairing s s s) (f : Tree K L a s) (v : Value K s) :
    (squared m f v).has₂ X Y = Square.hasSecond (f.declared₂ X Y) := rfl

theorem has₃_squared (m : Pairing s s s) (f : Tree K L a s) (v : Value K s) :
    (squared m f v).has₃ X Y Z = Square.hasThird (f.declared₃ X Y Z) := rfl

/-- A product reads what both operands declare in two slots. -/
theorem has₂_product (m : Pairing s t u) (f : Tree K L a s) (g : Tree K L a t) (v : Value K u) :
    (product m f g v).has₂ X Y = Leibniz.hasSecond (f.declared₂ X Y) (g.declared₂ X Y) := rfl

theorem has₃_product (m : Pairing s t u) (f : Tree K L a s) (g : Tree K L a t) (v : Value K u) :
    (product m f g v).has₃ X Y Z = Leibniz.hasThird (f.declared₃ X Y Z) (g.declared₃ X Y Z) := rfl

/-- A composition asks its outer function for derivatives in the argument only. -/
theorem has₂_chain (f : Tree K L t s) (g : Tree K L a t) :
    (chain f g).has₂ X Y = Composition.hasSecond (f.has₁ .argument)
      (f.has₂ .argument .argument) (g.declared₂ X Y) := rfl

/-- The declarations of third order need all orders of the outer function. -/
theorem has₃_chain (f : Tree K L t s) (g : Tree K L a t) :
    (chain f g).has₃ X Y Z = Composition.hasThird (f.has₁ .argument)
      (f.has₂ .argument .argument) (f.has₃ .argument .argument .argument)
      (g.declared₃ X Y Z) := rfl

end Nodes

/-- The declarations of a consistent tree are consistent in all slots. -/
theorem Consistent.declared₃ {f : Tree K L a s} (h : f.Consistent) (X Y Z : Slot) :
    (f.declared₃ X Y Z).Consistent where
  xy := h.second
  xz := h.second
  yz := h.second
  xyz := h.third

/-- Every operation keeps consistency. -/
theorem consistent_of_everyLeaf {f : Tree K L a s}
    (h : f.EveryLeaf fun {a s} l => (leaf l : Tree K L a s).Consistent) : f.Consistent := by
  induction f with
  | leaf l => exact h
  | scale c f v ih => exact ⟨(ih h).second, (ih h).third⟩
  | squared m f v ih =>
    have hf : f.Consistent := ih h
    constructor
    · exact Square.consistent_second hf.second
    · intro X Y Z
      exact Square.consistent_third (hf.declared₃ X Y Z)
  | sum f g v ihf ihg | extremum e f g v b ihf ihg =>
    have hf : f.Consistent := ihf h.1
    have hg : g.Consistent := ihg h.2
    constructor
    · intro X Y hhas
      simp only [has₂, has₁, Bool.or_eq_true] at hhas ⊢
      obtain hhas | hhas := hhas
      · exact ⟨.inl (hf.second hhas).1, .inl (hf.second hhas).2⟩
      · exact ⟨.inr (hg.second hhas).1, .inr (hg.second hhas).2⟩
    · intro X Y Z hhas
      simp only [has₃, has₂, Bool.or_eq_true] at hhas ⊢
      exact hhas.imp hf.third hg.third
  | product m f g v ihf ihg =>
    have hf : f.Consistent := ihf h.1
    have hg : g.Consistent := ihg h.2
    constructor
    · exact Leibniz.consistent_second hf.second hg.second
    · intro X Y Z
      exact Leibniz.consistent_third (hf.declared₃ X Y Z) (hg.declared₃ X Y Z)
  | chain f g ihf ihg =>
    have hf : f.Consistent := ihf h.1
    have hg : g.Consistent := ihg h.2
    -- The outer function is asked for its derivatives in the argument only.
    have houter (hhas : f.has₂ .argument .argument = true) : f.has₁ .argument = true :=
      (hf.second hhas).1
    constructor
    · exact Composition.consistent_second houter hg.second
    · intro X Y Z
      exact Composition.consistent_third houter hf.third (hg.declared₃ X Y Z)

/-- Which derivatives there are does not depend on the order of their slots. -/
structure Symmetric (f : Tree K L a s) : Prop where
  second (X Y : Slot) : f.has₂ Y X = f.has₂ X Y
  swapFirst (X Y Z : Slot) : f.has₃ Y X Z = f.has₃ X Y Z
  swapLast (X Y Z : Slot) : f.has₃ X Z Y = f.has₃ X Y Z

namespace Symmetric

variable {f : Tree K L a s} (h : f.Symmetric) (X Y Z : Slot)

include h

/-- The declarations of a symmetric tree in exchanged slots are exchanged declarations. -/
theorem declared₂_swap : f.declared₂ Y X = (f.declared₂ X Y).swap := by
  rw [declared₂, h.second X Y]
  rfl

theorem declared₃_swapFirst : f.declared₃ Y X Z = (f.declared₃ X Y Z).swapFirst := by
  rw [Tree.declared₃, h.second X Y, h.swapFirst X Y Z]
  rfl

theorem declared₃_swapLast : f.declared₃ X Z Y = (f.declared₃ X Y Z).swapLast := by
  rw [Tree.declared₃, h.second Y Z, h.swapLast X Y Z]
  rfl

end Symmetric

/-- Every operation treats the slots alike. -/
theorem symmetric_of_everyLeaf {f : Tree K L a s}
    (h : f.EveryLeaf fun {a s} l => (leaf l : Tree K L a s).Symmetric) : f.Symmetric := by
  induction f with
  | leaf l => exact h
  | scale c f v ih =>
    have hf : f.Symmetric := ih h
    exact ⟨hf.second, hf.swapFirst, hf.swapLast⟩
  | squared m f v ih =>
    have hf : f.Symmetric := ih h
    constructor
    · intro X Y
      rw [has₂_squared, has₂_squared, hf.declared₂_swap, Square.hasSecond_swap]
    · intro X Y Z
      rw [has₃_squared, has₃_squared, hf.declared₃_swapFirst, Square.hasThird_swapFirst]
    · intro X Y Z
      rw [has₃_squared, has₃_squared, hf.declared₃_swapLast, Square.hasThird_swapLast]
  | sum f g v ihf ihg | extremum e f g v b ihf ihg =>
    have hf : f.Symmetric := ihf h.1
    have hg : g.Symmetric := ihg h.2
    constructor
    · intro X Y
      rw [has₂, has₂, hf.second, hg.second]
    · intro X Y Z
      rw [has₃, has₃, hf.swapFirst, hg.swapFirst]
    · intro X Y Z
      rw [has₃, has₃, hf.swapLast, hg.swapLast]
  | product m f g v ihf ihg =>
    have hf : f.Symmetric := ihf h.1
    have hg : g.Symmetric := ihg h.2
    constructor
    · intro X Y
      rw [has₂_product, has₂_product, hf.declared₂_swap, hg.declared₂_swap, Leibniz.hasSecond_swap]
    · intro X Y Z
      rw [has₃_product, has₃_product, hf.declared₃_swapFirst, hg.declared₃_swapFirst,
        Leibniz.hasThird_swapFirst]
    · intro X Y Z
      rw [has₃_product, has₃_product, hf.declared₃_swapLast, hg.declared₃_swapLast,
        Leibniz.hasThird_swapLast]
  | chain f g ihf ihg =>
    have hg : g.Symmetric := ihg h.2
    constructor
    · intro X Y
      rw [has₂_chain, has₂_chain, hg.declared₂_swap, Composition.hasSecond_swap]
    · intro X Y Z
      rw [has₃_chain, has₃_chain, hg.declared₃_swapFirst, Composition.hasThird_swapFirst]
    · intro X Y Z
      rw [has₃_chain, has₃_chain, hg.declared₃_swapLast, Composition.hasThird_swapLast]

/-- Each pair of slots of a third derivative can be brought to the front. -/
theorem Consistent.has₂_of_has₃ {f : Tree K L a s} (consistent : f.Consistent)
    (symmetric : f.Symmetric) {X Y Z : Slot} (h : f.has₃ X Y Z = true) :
    f.has₂ X Y = true ∧ f.has₂ X Z = true ∧ f.has₂ Y Z = true := by
  have hXZY : f.has₃ X Z Y = true := by rw [symmetric.swapLast, h]
  have hYZX : f.has₃ Y Z X = true := by rw [symmetric.swapLast, symmetric.swapFirst, h]
  exact ⟨consistent.third h, consistent.third hXZY, consistent.third hYZX⟩

end Tree

section Library

variable {K : Type} [Scalar K] {Γ : Nat → Shape} {a s : Shape}

/-- The leaves of the library are consistent. -/
theorem Builtin.consistent (l : Builtin K Γ a s) :
    (Tree.leaf l : Tree K (Builtin K Γ) a s).Consistent := by
  constructor
  · intro X Y h
    change (2 ≤ l.order && X = .argument && Y = .argument) = true at h
    simp only [Bool.and_eq_true, decide_eq_true_eq] at h
    obtain ⟨⟨horder, rfl⟩, rfl⟩ := h
    have hfirst : l.has₁ .argument = true := decide_eq_true (Nat.le_of_succ_le horder)
    exact ⟨hfirst, hfirst⟩
  · intro X Y Z h
    change (3 ≤ l.order && X = .argument && Y = .argument && Z = .argument) = true at h
    change (2 ≤ l.order && X = .argument && Y = .argument) = true
    simp only [Bool.and_eq_true, decide_eq_true_eq] at h ⊢
    exact ⟨⟨Nat.le_of_succ_le h.1.1.1, h.1.1.2⟩, h.1.2⟩

/-- Their declarations do not depend on the order of the slots. -/
theorem Builtin.symmetric (l : Builtin K Γ a s) :
    (Tree.leaf l : Tree K (Builtin K Γ) a s).Symmetric := by
  constructor
  · intro X Y
    exact Bool.and_right_comm _ _ _
  · intro X Y Z
    exact congrArg (· && decide (Z = Slot.argument)) (Bool.and_right_comm _ _ _)
  · intro X Y Z
    exact Bool.and_right_comm _ _ _

/-- So a tree of them is consistent, however it is nested. -/
theorem Tree.consistent (f : Tree K (Builtin K Γ) a s) : f.Consistent :=
  consistent_of_everyLeaf (everyLeaf_of_forall Builtin.consistent f)

theorem Tree.symmetric (f : Tree K (Builtin K Γ) a s) : f.Symmetric :=
  symmetric_of_everyLeaf (everyLeaf_of_forall Builtin.symmetric f)

end Library

/-- If all leaves of a tree are consistent in all slots, so is the tree, whatever the leaves are and
however they are nested. Of a tree over the leaves of the library a third derivative comes moreover
with all three second ones, not just the first, and so it is with what the tree answers, whatever
state it is in: a third derivative that is there comes with the three second ones, and a second one
with the two first ones. -/
theorem Tree.consistency_of_leaves {K : Type} [Scalar K] {Γ : Nat → Shape} :
    (∀ {L : Shape → Shape → Type} [Leaf K Γ L] {a s : Shape} (f : Tree K L a s),
      (f.EveryLeaf fun {a s} l => ∀ X Y Z, (leaf l : Tree K L a s).consistent₂ X Y = true ∧
        (leaf l : Tree K L a s).consistent₃ X Y Z = true) →
      ∀ X Y Z, f.consistent₂ X Y = true ∧ f.consistent₃ X Y Z = true) ∧
    ∀ {a s : Shape} (f : Tree K (Builtin K Γ) a s) (X Y Z : Slot),
      (f.has₃ X Y Z = true → f.has₂ X Y = true ∧ f.has₂ X Z = true ∧ f.has₂ Y Z = true) ∧
      ∀ dx dy dz,
        ((f.answer₃ X Y Z dx dy dz).isSome → (f.answer₂ X Y dx dy).isSome ∧
          (f.answer₂ X Z dx dz).isSome ∧ (f.answer₂ Y Z dy dz).isSome) ∧
        ((f.answer₂ X Y dx dy).isSome → (f.answer₁ X dx).isSome ∧ (f.answer₁ Y dy).isSome) ∧
        ((f.d₃? X Y Z dx dy dz).isSome → (f.d₂? X Y dx dy).isSome ∧
          (f.d₂? X Z dx dz).isSome ∧ (f.d₂? Y Z dy dz).isSome) ∧
        ((f.d₂? X Y dx dy).isSome → (f.d₁? X dx).isSome ∧ (f.d₁? Y dy).isSome) := by
  constructor
  · intro L _ a s f h
    rw [← consistent_iff]
    apply consistent_of_everyLeaf
    apply h.mono
    intro a s l hl
    exact consistent_iff.2 hl
  · intro a s f X Y Z
    refine ⟨f.consistent.has₂_of_has₃ f.symmetric, ?_⟩
    intro dx dy dz
    have hleaves : f.EveryLeaf Leaf.AnswersAsDeclared :=
      everyLeaf_of_forall Builtin.answersAsDeclared f
    -- What the tree answers is what the tree of its active operands declares, which is one of the
    -- library as well.
    have hsecond := f.active.consistent.second (X := X) (Y := Y)
    have hthird := f.active.consistent.has₂_of_has₃ f.active.symmetric (X := X) (Y := Y) (Z := Z)
    simp only [answer₁_eq_d₁? _ hleaves.root, answer₂_eq_d₂? _ _ hleaves.root,
      answer₃_eq_d₃? _ _ _ hleaves.root, isSome_d₁? hleaves, isSome_d₂? hleaves, isSome_d₃? hleaves]
    exact ⟨hthird, hsecond, hthird, hsecond⟩

/-- The product of two squares that know their first derivatives only has a second one, and is
consistent. The smaller one of `c * ln x` and `x` answers with a third derivative where the product
is active. -/
theorem Tree.consistency_of_leaves_product_and_minimum :
    let square : Tree ℚ (Unguarded ℚ) .scalar .scalar := .leaf (.square 3)
    let f : Tree ℚ (Unguarded ℚ) .scalar .scalar := .product .scalars square square 81
    let product : Tree ℚ (Builtin ℚ fun _ => .scalar) .scalar .scalar :=
      .product .scalars (.leaf (.var 0 rfl 2))
        (.leaf (.elementary ⟨.ln, 1, ElementaryFunction.ln.jet 1⟩)) 0
    let g : Tree ℚ (Builtin ℚ fun _ => .scalar) .scalar .scalar :=
      .extremum .min product (.leaf (.identity 1)) 0 true
    (f.EveryLeaf fun {a s} l => ∀ X Y Z,
      (leaf l : Tree ℚ (Unguarded ℚ) a s).consistent₂ X Y = true ∧
        (leaf l : Tree ℚ (Unguarded ℚ) a s).consistent₃ X Y Z = true) ∧
      f.has₂ .argument .argument = true ∧
      (∀ X Y Z, f.consistent₂ X Y = true ∧ f.consistent₃ X Y Z = true) ∧
      (g.answer₃ (.var 0) .argument .argument (1 : ℚ) (1 : ℚ) (1 : ℚ)).isSome ∧
      (g.answer₂ .argument .argument (1 : ℚ) (1 : ℚ)).isSome := by
  intro square f product g
  have hleaves : f.EveryLeaf fun {a s} l => ∀ X Y Z,
      (leaf l : Tree ℚ (Unguarded ℚ) a s).consistent₂ X Y = true ∧
        (leaf l : Tree ℚ (Unguarded ℚ) a s).consistent₃ X Y Z = true :=
    ⟨fun X Y Z => ⟨rfl, rfl⟩, fun X Y Z => ⟨rfl, rfl⟩⟩
  have hthird : (g.answer₃ (.var 0) .argument .argument (1 : ℚ) (1 : ℚ) (1 : ℚ)).isSome := rfl
  have hg := (consistency_of_leaves.2 g (.var 0) .argument .argument).2 (1 : ℚ) (1 : ℚ) (1 : ℚ)
  exact ⟨hleaves, rfl, consistency_of_leaves.1 f hleaves, hthird, (hg.1 hthird).2.2⟩

end Directional
