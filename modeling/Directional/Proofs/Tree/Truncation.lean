import Directional.Proofs.Tree.Answer
import Directional.Proofs.Tree.Correspondence
import Directional.Tree.Gradient

namespace Directional

namespace Tree

variable {K : Type} [Scalar K] {Γ : Nat → Shape} {L L' : Shape → Shape → Type} [Leaf K Γ L]
  [Leaf K Γ L'] {a b s : Shape}

/-- Two trees with the same value that depend on the same slots, and that have the same derivatives
up to the order `n`. Nothing is said about derivatives of higher order. -/
structure AgreeUpTo (n : Nat) (f : Tree K L a s) (f' : Tree K L' a s) : Prop where
  value : f'.value = f.value
  slots : f'.slots = f.slots
  dependsOn (X : Slot) : f'.dependsOn X = f.dependsOn X
  has₁ (hn : 1 ≤ n) (X : Slot) : f'.has₁ X = f.has₁ X
  has₂ (hn : 2 ≤ n) (X Y : Slot) : f'.has₂ X Y = f.has₂ X Y
  has₃ (hn : 3 ≤ n) (X Y Z : Slot) : f'.has₃ X Y Z = f.has₃ X Y Z
  first (hn : 1 ≤ n) (X : Slot) (dx : Value K (X.shape Γ a)) : f'.d₁? X dx = f.d₁? X dx
  second (hn : 2 ≤ n) (X Y : Slot) (dx : Value K (X.shape Γ a)) (dy : Value K (Y.shape Γ a)) :
    f'.d₂? X Y dx dy = f.d₂? X Y dx dy
  third (hn : 3 ≤ n) (X Y Z : Slot) (dx : Value K (X.shape Γ a)) (dy : Value K (Y.shape Γ a))
    (dz : Value K (Z.shape Γ a)) : f'.d₃? X Y Z dx dy dz = f.d₃? X Y Z dx dy dz

/-- Leaves of which one can stand for the other as far as the order `n`: related leaves agree up to
that order, and after a call of both they are related again. -/
structure Interchangeable (n : Nat) (R : ⦃a s : Shape⦄ → L a s → L' a s → Prop) : Prop where
  agree {a s : Shape} {l : L a s} {l' : L' a s} (h : R l l') :
    (leaf l : Tree K L a s).AgreeUpTo n (leaf l')
  call {a s : Shape} {l : L a s} {l' : L' a s} (h : R l l') (c : Call K Γ a) :
    (Leaf.call l c).Corresponds (@R a s) (Leaf.call l' c)

variable {n : Nat} {R : ⦃a s : Shape⦄ → L a s → L' a s → Prop}

/-- Leaves that can stand for each other are moved alike. -/
theorem Interchangeable.movedAlike (h : Interchangeable n R) : MovedAlike R where
  value hl := (h.agree hl).value
  dependsOn hl X := by simpa only [dependsOn_leaf] using (h.agree hl).dependsOn X
  call hl c := h.call hl c

namespace Corresponds

variable {f : Tree K L a s} {f' : Tree K L' a s} (interchangeable : Interchangeable n R)

include interchangeable

/-- Trees that correspond have the same variables. -/
theorem slots_eq (h : Corresponds R f f') : f'.slots = f.slots := by
  induction h with
  | leaf h => exact (interchangeable.agree h).slots
  | scale _ _ _ ih | squared _ _ _ ih => exact ih
  | sum _ _ _ ihf ihg | product _ _ _ _ ihf ihg | extremum _ _ _ _ _ ihf ihg =>
    rw [slots, slots, ihf, ihg]
  | chain _ _ _ ihg => exact ihg

/-- A node's declaration of an order is made from the declarations of its operands up to that order,
so agreement up to the order is kept. -/
theorem has₁_eq (h : Corresponds R f f') (hn : 1 ≤ n) (X : Slot) : f'.has₁ X = f.has₁ X := by
  induction h generalizing X with
  | leaf h => exact (interchangeable.agree h).has₁ hn X
  | scale _ _ _ ih | squared _ _ _ ih => exact ih X
  | sum _ _ _ ihf ihg | product _ _ _ _ ihf ihg | extremum _ _ _ _ _ ihf ihg
  | chain _ _ ihf ihg => simp only [has₁, ihf, ihg]

theorem has₂_eq (h : Corresponds R f f') (hn : 2 ≤ n) (X Y : Slot) :
    f'.has₂ X Y = f.has₂ X Y := by
  have hone : 1 ≤ n := Nat.le_of_succ_le hn
  induction h generalizing X Y with
  | leaf h => exact (interchangeable.agree h).has₂ hn X Y
  | scale _ _ _ ih => exact ih X Y
  | squared _ _ hf ih => simp only [has₂, hf.has₁_eq interchangeable hone, ih]
  | sum _ _ _ ihf ihg | extremum _ _ _ _ _ ihf ihg => simp only [has₂, ihf, ihg]
  | product _ _ hf hg ihf ihg | chain hf hg ihf ihg =>
    simp only [has₂, hf.has₁_eq interchangeable hone, hg.has₁_eq interchangeable hone, ihf, ihg]

theorem has₃_eq (h : Corresponds R f f') (hn : 3 ≤ n) (X Y Z : Slot) :
    f'.has₃ X Y Z = f.has₃ X Y Z := by
  have htwo : 2 ≤ n := Nat.le_of_succ_le hn
  have hone : 1 ≤ n := Nat.le_of_succ_le htwo
  induction h generalizing X Y Z with
  | leaf h => exact (interchangeable.agree h).has₃ hn X Y Z
  | scale _ _ _ ih => exact ih X Y Z
  | squared _ _ hf ih =>
    simp only [has₃, hf.has₁_eq interchangeable hone, hf.has₂_eq interchangeable htwo, ih]
  | sum _ _ _ ihf ihg | extremum _ _ _ _ _ ihf ihg => simp only [has₃, ihf, ihg]
  | product _ _ hf hg ihf ihg | chain hf hg ihf ihg =>
    simp only [has₃, hf.has₁_eq interchangeable hone, hf.has₂_eq interchangeable htwo,
      hg.has₁_eq interchangeable hone, hg.has₂_eq interchangeable htwo, ihf, ihg]

/-- A node's derivative of an order is made from the values of its operands and from their
derivatives up to that order. No arithmetic law is used. -/
theorem d₁?_eq (h : Corresponds R f f') (hn : 1 ≤ n) (X : Slot) (dx : Value K (X.shape Γ a)) :
    f'.d₁? X dx = f.d₁? X dx := by
  induction h generalizing X with
  | leaf h => exact (interchangeable.agree h).first hn X dx
  | scale _ _ _ ih => rw [d₁?_scale, d₁?_scale, ih]
  | squared _ _ hf ih =>
    rw [d₁?_squared, d₁?_squared, hf.value_eq interchangeable.movedAlike, ih]
  | sum _ _ _ ihf ihg => rw [d₁?_sum, d₁?_sum, ihf, ihg]
  | product _ _ hf hg ihf ihg =>
    rw [d₁?_product, d₁?_product, hf.value_eq interchangeable.movedAlike,
      hg.value_eq interchangeable.movedAlike, ihf, ihg]
  | extremum _ _ _ _ _ ihf ihg => rw [d₁?_extremum, d₁?_extremum, ihf, ihg]
  | chain _ _ ihf ihg =>
    rw [d₁?_chain, d₁?_chain, ihg]
    exact congrArg (Composition.first · _) (funext (ihf .argument))

theorem d₂?_eq (h : Corresponds R f f') (hn : 2 ≤ n) (X Y : Slot) (dx : Value K (X.shape Γ a))
    (dy : Value K (Y.shape Γ a)) : f'.d₂? X Y dx dy = f.d₂? X Y dx dy := by
  have hone : 1 ≤ n := Nat.le_of_succ_le hn
  induction h generalizing X Y with
  | leaf h => exact (interchangeable.agree h).second hn X Y dx dy
  | scale _ _ _ ih => rw [d₂?_scale, d₂?_scale, ih]
  | squared _ _ hf ih =>
    simp only [d₂?_squared, hf.value_eq interchangeable.movedAlike,
      hf.d₁?_eq interchangeable hone, ih]
  | sum _ _ _ ihf ihg => rw [d₂?_sum, d₂?_sum, ihf, ihg]
  | product _ _ hf hg ihf ihg =>
    simp only [d₂?_product, hf.value_eq interchangeable.movedAlike,
      hg.value_eq interchangeable.movedAlike, hf.d₁?_eq interchangeable hone,
      hg.d₁?_eq interchangeable hone, ihf, ihg]
  | extremum _ _ _ _ _ ihf ihg => rw [d₂?_extremum, d₂?_extremum, ihf, ihg]
  | chain hf hg ihf ihg =>
    have houter₁ := funext (hf.d₁?_eq interchangeable hone .argument)
    have houter₂ := funext fun v => funext fun w => ihf .argument .argument v w
    simp only [d₂?_chain, hg.d₁?_eq interchangeable hone, ihg]
    rw [houter₁, houter₂]

theorem d₃?_eq (h : Corresponds R f f') (hn : 3 ≤ n) (X Y Z : Slot) (dx : Value K (X.shape Γ a))
    (dy : Value K (Y.shape Γ a)) (dz : Value K (Z.shape Γ a)) :
    f'.d₃? X Y Z dx dy dz = f.d₃? X Y Z dx dy dz := by
  have htwo : 2 ≤ n := Nat.le_of_succ_le hn
  have hone : 1 ≤ n := Nat.le_of_succ_le htwo
  induction h generalizing X Y Z with
  | leaf h => exact (interchangeable.agree h).third hn X Y Z dx dy dz
  | scale _ _ _ ih => rw [d₃?_scale, d₃?_scale, ih]
  | squared _ _ hf ih =>
    simp only [d₃?_squared, hf.value_eq interchangeable.movedAlike,
      hf.d₁?_eq interchangeable hone, hf.d₂?_eq interchangeable htwo, ih]
  | sum _ _ _ ihf ihg => rw [d₃?_sum, d₃?_sum, ihf, ihg]
  | product _ _ hf hg ihf ihg =>
    simp only [d₃?_product, hf.value_eq interchangeable.movedAlike,
      hg.value_eq interchangeable.movedAlike, hf.d₁?_eq interchangeable hone,
      hg.d₁?_eq interchangeable hone, hf.d₂?_eq interchangeable htwo,
      hg.d₂?_eq interchangeable htwo, ihf, ihg]
  | extremum _ _ _ _ _ ihf ihg => rw [d₃?_extremum, d₃?_extremum, ihf, ihg]
  | chain hf hg ihf ihg =>
    have houter₁ := funext (hf.d₁?_eq interchangeable hone .argument)
    have houter₂ := funext fun v => funext fun w =>
      hf.d₂?_eq interchangeable htwo .argument .argument v w
    have houter₃ := funext fun u => funext fun v => funext fun w =>
      ihf .argument .argument .argument u v w
    simp only [d₃?_chain, hg.d₁?_eq interchangeable hone, hg.d₂?_eq interchangeable htwo, ihg]
    rw [houter₁, houter₂, houter₃]

/-- Leaves that agree up to an order make trees that agree up to that order. -/
theorem agreeUpTo (h : Corresponds R f f') : f.AgreeUpTo n f' where
  value := h.value_eq interchangeable.movedAlike
  slots := h.slots_eq interchangeable
  dependsOn := h.dependsOn_eq interchangeable.movedAlike
  has₁ := h.has₁_eq interchangeable
  has₂ := h.has₂_eq interchangeable
  has₃ := h.has₃_eq interchangeable
  first := h.d₁?_eq interchangeable
  second := h.d₂?_eq interchangeable
  third := h.d₃?_eq interchangeable

end Corresponds

/-- Two trees that give the same answers up to the order `n`: where an absent derivative counts as
zero, and in whether a derivative may be asked for at all. Trees that are not single leaves also
answer the same when they are asked directly, whether the derivative is declared or not. -/
structure AnswerAlikeUpTo (n : Nat) (f : Tree K L a s) (f' : Tree K L' a s) : Prop where
  d₁ (hn : 1 ≤ n) (X : Slot) (dx : Value K (X.shape Γ a)) : f'.d₁ X dx = f.d₁ X dx
  d₂ (hn : 2 ≤ n) (X Y : Slot) (dx : Value K (X.shape Γ a)) (dy : Value K (Y.shape Γ a)) :
    f'.d₂ X Y dx dy = f.d₂ X Y dx dy
  d₃ (hn : 3 ≤ n) (X Y Z : Slot) (dx : Value K (X.shape Γ a)) (dy : Value K (Y.shape Γ a))
    (dz : Value K (Z.shape Γ a)) : f'.d₃ X Y Z dx dy dz = f.d₃ X Y Z dx dy dz
  consistent₂ (hn : 2 ≤ n) (X Y : Slot) : f'.consistent₂ X Y = f.consistent₂ X Y
  consistent₃ (hn : 3 ≤ n) (X Y Z : Slot) : f'.consistent₃ X Y Z = f.consistent₃ X Y Z
  answer₁ (hnode : ∀ l, f ≠ leaf l) (hn : 1 ≤ n) (X : Slot) (dx : Value K (X.shape Γ a)) :
    f'.answer₁ X dx = f.answer₁ X dx
  answer₂ (hnode : ∀ l, f ≠ leaf l) (hn : 2 ≤ n) (X Y : Slot) (dx : Value K (X.shape Γ a))
    (dy : Value K (Y.shape Γ a)) : f'.answer₂ X Y dx dy = f.answer₂ X Y dx dy
  answer₃ (hnode : ∀ l, f ≠ leaf l) (hn : 3 ≤ n) (X Y Z : Slot) (dx : Value K (X.shape Γ a))
    (dy : Value K (Y.shape Γ a)) (dz : Value K (Z.shape Γ a)) :
    f'.answer₃ X Y Z dx dy dz = f.answer₃ X Y Z dx dy dz

/-- Trees whose leaves can stand for each other give the same answers up to the order. -/
theorem Corresponds.answerAlikeUpTo {f : Tree K L a s} {f' : Tree K L' a s}
    (interchangeable : Interchangeable n R) (h : Corresponds R f f') : f.AnswerAlikeUpTo n f' := by
  have hagree := h.agreeUpTo interchangeable
  have root (hnode : ∀ l, f ≠ .leaf l) (l : L a s) (hl : f = .leaf l) : Leaf.AnswersAsDeclared l :=
    absurd hl (hnode l)
  have root' (hnode : ∀ l, f ≠ .leaf l) (l' : L' a s) (hl : f' = .leaf l') :
      Leaf.AnswersAsDeclared l' :=
    absurd hl (h.ne_leaf hnode l')
  constructor
  case d₁ =>
    intro hn X dx
    rw [d₁, d₁, hagree.first hn]
  case d₂ =>
    intro hn X Y dx dy
    rw [d₂, d₂, hagree.second hn]
  case d₃ =>
    intro hn X Y Z dx dy dz
    rw [d₃, d₃, hagree.third hn]
  case consistent₂ =>
    intro hn X Y
    have hone : 1 ≤ n := Nat.le_of_succ_le hn
    simp only [consistent₂, hagree.has₁ hone, hagree.has₂ hn]
  case consistent₃ =>
    intro hn X Y Z
    have htwo : 2 ≤ n := Nat.le_of_succ_le hn
    have hone : 1 ≤ n := Nat.le_of_succ_le htwo
    simp only [consistent₃, consistent₂, hagree.has₁ hone, hagree.has₂ htwo, hagree.has₃ hn]
  case answer₁ =>
    intro hnode hn X dx
    rw [answer₁_eq_d₁? dx (root' hnode), answer₁_eq_d₁? dx (root hnode), hagree.first hn]
  case answer₂ =>
    intro hnode hn X Y dx dy
    rw [answer₂_eq_d₂? dx dy (root' hnode), answer₂_eq_d₂? dx dy (root hnode), hagree.second hn]
  case answer₃ =>
    intro hnode hn X Y Z dx dy dz
    rw [answer₃_eq_d₃? dx dy dz (root' hnode), answer₃_eq_d₃? dx dy dz (root hnode),
      hagree.third hn]

end Tree

/-- A leaf that is cut off above an order: it keeps its derivatives up to there and has no
others. -/
structure Truncated (L : Shape → Shape → Type) (a s : Shape) where
  leaf : L a s
  order : Nat

namespace Truncated

variable {K : Type} {Γ : Nat → Shape} {L : Shape → Shape → Type} [Leaf K Γ L] {a s : Shape}

instance : Leaf K Γ (Truncated L) where
  value l := Leaf.value l.leaf
  slots l := Leaf.slots l.leaf
  reacts l := Leaf.reacts l.leaf
  update l x := (Leaf.update l.leaf x).map ({ l with leaf := · })
  reactsTo l i := Leaf.reactsTo l.leaf i
  write l i x := (Leaf.write l.leaf i x).map ({ l with leaf := · })
  has₁ l X := decide (1 ≤ l.order) && Leaf.has₁ l.leaf X
  answer₁ l X dx := Term.gate (decide (1 ≤ l.order)) (Leaf.answer₁ l.leaf X dx)
  has₂ l X Y := decide (2 ≤ l.order) && Leaf.has₂ l.leaf X Y
  answer₂ l X Y dx dy := Term.gate (decide (2 ≤ l.order)) (Leaf.answer₂ l.leaf X Y dx dy)
  has₃ l X Y Z := decide (3 ≤ l.order) && Leaf.has₃ l.leaf X Y Z
  answer₃ l X Y Z dx dy dz := Term.gate (decide (3 ≤ l.order)) (Leaf.answer₃ l.leaf X Y Z dx dy dz)

/-- A leaf, and the same leaf cut off above an order that is at least `n`. -/
def Keeps (n : Nat) ⦃a s : Shape⦄ (l : L a s) (l' : Truncated L a s) : Prop :=
  l'.leaf = l ∧ n ≤ l'.order

/-- A leaf that is cut off is called like the whole leaf. -/
theorem call_eq (l : Truncated L a s) (c : Call K Γ a) :
    Leaf.call l c = (Leaf.call l.leaf c).map ({ l with leaf := · }) := by
  cases c <;> rfl

/-- A leaf that is cut off above `n` or a higher order can stand for the whole leaf up to the order
`n`, whichever leaf it is. -/
theorem interchangeable [Scalar K] (n : Nat) : Tree.Interchangeable n (@Keeps L n) where
  agree := by
    rintro a s l ⟨l', m⟩ ⟨rfl, hm⟩
    have keeps {k : Nat} (hk : k ≤ n) : decide (k ≤ m) = true := decide_eq_true (hk.trans hm)
    constructor
    case value => rfl
    case slots => rfl
    case dependsOn => intro X; cases X <;> rfl
    case has₁ => intro hn X; exact congrArg (· && _) (keeps hn)
    case has₂ => intro hn X Y; exact congrArg (· && _) (keeps hn)
    case has₃ => intro hn X Y Z; exact congrArg (· && _) (keeps hn)
    case first =>
      intro hn X dx
      change Term.gate (decide (1 ≤ m) && _) (Term.gate (decide (1 ≤ m)) _) = _
      rw [keeps hn]
      rfl
    case second =>
      intro hn X Y dx dy
      change Term.gate (decide (2 ≤ m) && _) (Term.gate (decide (2 ≤ m)) _) = _
      rw [keeps hn]
      rfl
    case third =>
      intro hn X Y Z dx dy dz
      change Term.gate (decide (3 ≤ m) && _) (Term.gate (decide (3 ≤ m)) _) = _
      rw [keeps hn]
      rfl
  call := by
    rintro a s l l' ⟨rfl, hm⟩ c
    rw [call_eq]
    cases Leaf.call l'.leaf c with
    | accepted moved => exact .accepted ⟨rfl, hm⟩
    | rejected e moved => exact .rejected e ⟨rfl, hm⟩

end Truncated

/-- Truncating a leaf does not disturb lower orders. Let one leaf stand for another as far as the
order `n`, such as one that has no derivative above it. Whatever the arithmetic, a formula with the
one is built if and only if it is with the other. Two trees that differ in such leaves, wherever in
them these stand, return the same from every sequence of calls; after it they have the same value
and the same derivatives up to the order `n` for all slots and directions, and so they give the same
answers up to that order. -/
theorem Tree.lower_orders_ignore_truncation {K : Type} [Scalar K] {Γ : Nat → Shape}
    {L L' : Shape → Shape → Type} [Leaf K Γ L] [Leaf K Γ L'] {n : Nat}
    {R : ⦃a s : Shape⦄ → L a s → L' a s → Prop} (interchangeable : Interchangeable n R) :
    (∀ {I : Shape → Shape → Type} {plant : {a s : Shape} → I a s → Except (DomainError K) (L a s)}
        {plant' : {a s : Shape} → I a s → Except (DomainError K) (L' a s)},
      (∀ {a s : Shape} (i : I a s), CorrespondingResults (@R a s) (plant i) (plant' i)) →
      ∀ {a s : Shape} (f : Formula K I a s),
        CorrespondingResults (Tree.Corresponds R) (f.build plant) (f.build plant')) ∧
    (∀ {a s : Shape} {f : Tree K L a s} {f' : Tree K L' a s}, Tree.Corresponds R f f' →
      ∀ calls : List (Call K Γ a),
        f.results calls = f'.results calls ∧
        (f.after calls).AgreeUpTo n (f'.after calls) ∧
        (f.after calls).AnswerAlikeUpTo n (f'.after calls)) := by
  constructor
  · intro I plant plant' planted a s f
    exact f.build_corresponds interchangeable.movedAlike planted
  · intro a s f f' h calls
    obtain ⟨hresults, hafter⟩ := h.after interchangeable.movedAlike calls
    exact ⟨hresults, hafter.agreeUpTo interchangeable, hafter.answerAlikeUpTo interchangeable⟩

/-- The cube of the square of the argument, plus that square. With the cube cut off above its first
derivative the sum still has the right first derivative, also after a call, while a part of its
second one is missing. -/
theorem Tree.lower_orders_ignore_truncation_cube_of_square :
    let square (x : ℚ) : Builtin ℚ (fun _ => .scalar) .scalar .scalar :=
      .elementary ⟨.pow 2 1, x, ⟨x * x, 2 * x, 2, 0⟩⟩
    let cube (x : ℚ) : Builtin ℚ (fun _ => .scalar) .scalar .scalar :=
      .elementary ⟨.pow 3 1, x, ⟨x * x * x, 3 * (x * x), 6 * x, 6⟩⟩
    let f := sum (chain (leaf (cube 9)) (leaf (square 3))) (leaf (square 3)) (738 : ℚ)
    let f' : Tree ℚ (Truncated (Builtin ℚ fun _ => .scalar)) .scalar .scalar :=
      sum (chain (leaf ⟨cube 9, 1⟩) (leaf ⟨square 3, 3⟩)) (leaf ⟨square 3, 2⟩) (738 : ℚ)
    let calls : List (Call ℚ (fun _ => .scalar) .scalar) := [.update (2 : ℚ)]
    Interchangeable 1 (@Truncated.Keeps (Builtin ℚ fun _ => .scalar) 1) ∧
    Tree.Corresponds (@Truncated.Keeps (Builtin ℚ fun _ => .scalar) 1) f f' ∧
    f.results calls = f'.results calls ∧
    (f.after calls).d₁ .argument (1 : ℚ) = (196 : ℚ) ∧
    (f'.after calls).d₁ .argument (1 : ℚ) = (196 : ℚ) ∧
    (f.after calls).d₂ .argument .argument (1 : ℚ) (1 : ℚ) = (482 : ℚ) ∧
    (f'.after calls).d₂ .argument .argument (1 : ℚ) (1 : ℚ) = (98 : ℚ) := by
  intro square cube f f' calls
  have interchangeable := Truncated.interchangeable (L := Builtin ℚ fun _ => .scalar) 1
  have corresponds : Tree.Corresponds (@Truncated.Keeps (Builtin ℚ fun _ => .scalar) 1) f f' :=
    .sum _ (.chain (.leaf ⟨rfl, by decide⟩) (.leaf ⟨rfl, by decide⟩)) (.leaf ⟨rfl, by decide⟩)
  obtain ⟨hresults, hagree, halike⟩ :=
    (lower_orders_ignore_truncation interchangeable).2 corresponds calls
  have hfirst : (f.after calls).d₁ .argument (1 : ℚ) = (196 : ℚ) := by decide +kernel
  refine ⟨interchangeable, corresponds, hresults, hfirst, ?_, by decide +kernel, by decide +kernel⟩
  rw [halike.d₁ (by decide), hfirst]

end Directional
