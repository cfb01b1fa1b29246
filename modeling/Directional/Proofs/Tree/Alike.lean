import Directional.Proofs.Tree.Call
import Directional.Tree.Capabilities

namespace Directional.Tree

variable {K : Type} {Γ : Nat → Shape} {L : Shape → Shape → Type} [Leaf K Γ L] {a s : Shape}

/-- Two trees that differ at most in the states of their leaves and the values of their nodes. The
nodes stay where they are, and the leaves keep their declarations. -/
inductive Alike : {a s : Shape} → Tree K L a s → Tree K L a s → Prop where
  | leaf {a s : Shape} {l l' : L a s} (h : Leaf.Alike l l') : Alike (leaf l) (leaf l')
  | scale {a s : Shape} {c : K} {f f' : Tree K L a s} {v v' : Value K s} (hf : Alike f f') :
      Alike (scale c f v) (scale c f' v')
  | squared {a s : Shape} {m : Pairing s s s} {f f' : Tree K L a s} {v v' : Value K s}
      (hf : Alike f f') : Alike (squared m f v) (squared m f' v')
  | sum {a s : Shape} {f f' g g' : Tree K L a s} {v v' : Value K s} (hf : Alike f f')
      (hg : Alike g g') : Alike (sum f g v) (sum f' g' v')
  | product {a s t u : Shape} {m : Pairing s t u} {f f' : Tree K L a s} {g g' : Tree K L a t}
      {v v' : Value K u} (hf : Alike f f') (hg : Alike g g') :
      Alike (product m f g v) (product m f' g' v')
  | extremum {a s : Shape} {e : Extremum} {f f' g g' : Tree K L a s} {v v' : Value K s}
      {b b' : Bool} (hf : Alike f f') (hg : Alike g g') :
      Alike (extremum e f g v b) (extremum e f' g' v' b')
  | chain {a b s : Shape} {f f' : Tree K L b s} {g g' : Tree K L a b} (hf : Alike f f')
      (hg : Alike g g') : Alike (chain f g) (chain f' g')

namespace Alike

theorem refl (f : Tree K L a s) : Alike f f := by
  induction f with
  | leaf l => exact .leaf (.refl l)
  | scale _ _ _ ih => exact .scale ih
  | squared _ _ _ ih => exact .squared ih
  | sum _ _ _ ihf ihg => exact .sum ihf ihg
  | product _ _ _ _ ihf ihg => exact .product ihf ihg
  | extremum _ _ _ _ _ ihf ihg => exact .extremum ihf ihg
  | chain _ _ ihf ihg => exact .chain ihf ihg

variable {f f' f'' : Tree K L a s}

theorem trans (h : Alike f f') (h' : Alike f' f'') : Alike f f'' := by
  induction h with
  | leaf h =>
    obtain ⟨h'⟩ := h'
    exact .leaf (h.trans h')
  | scale _ ih =>
    cases h' with
    | scale hf => exact .scale (ih hf)
  | squared _ ih =>
    cases h' with
    | squared hf => exact .squared (ih hf)
  | sum _ _ ihf ihg =>
    cases h' with
    | sum hf hg => exact .sum (ihf hf) (ihg hg)
  | product _ _ ihf ihg =>
    cases h' with
    | product hf hg => exact .product (ihf hf) (ihg hg)
  | extremum _ _ ihf ihg =>
    cases h' with
    | extremum hf hg => exact .extremum (ihf hf) (ihg hg)
  | chain _ _ ihf ihg =>
    cases h' with
    | chain hf hg => exact .chain (ihf hf) (ihg hg)

/-- Alike trees have the same members: first of all the same variables. -/
theorem slots_eq (h : Alike f f') : f'.slots = f.slots := by
  induction h with
  | leaf h => exact h.slots
  | _ => simp only [Tree.slots, *]

/-- They depend on the argument or do not. -/
theorem reacts_eq (h : Alike f f') : f'.reacts = f.reacts := by
  induction h with
  | leaf h => exact h.reacts
  | _ => simp only [Tree.reacts, *]

/-- They depend on the same variables. -/
theorem reactsTo_eq (h : Alike f f') (i : Nat) : f'.reactsTo i = f.reactsTo i := by
  induction h with
  | leaf h => exact h.reactsTo i
  | _ => simp only [Tree.reactsTo, *]

/-- So they depend on the same slots. -/
theorem dependsOn_eq (h : Alike f f') (X : Slot) : f'.dependsOn X = f.dependsOn X := by
  cases X with
  | argument => exact h.reacts_eq
  | var i => exact h.reactsTo_eq i

/-- Their roots leave the same calls alone. -/
theorem skips_eq (h : Alike f f') (X : Slot) : f'.skips X = f.skips X := by
  cases X with
  | argument => rfl
  | var i => simp only [skips, h.reactsTo_eq i]

/-- They declare the same first derivatives. -/
theorem has₁_eq (h : Alike f f') (X : Slot) : f'.has₁ X = f.has₁ X := by
  induction h generalizing X with
  | leaf h => exact h.has₁ X
  | _ => simp only [Tree.has₁, *]

theorem has₂_eq (h : Alike f f') (X Y : Slot) : f'.has₂ X Y = f.has₂ X Y := by
  induction h generalizing X Y with
  | leaf h => exact h.has₂ X Y
  | scale hf ih => simp only [Tree.has₂, ih]
  | squared hf ih => simp only [Tree.has₂, hf.has₁_eq, ih]
  | sum hf hg ihf ihg | extremum hf hg ihf ihg => simp only [Tree.has₂, ihf, ihg]
  | product hf hg ihf ihg | chain hf hg ihf ihg =>
    simp only [Tree.has₂, hf.has₁_eq, hg.has₁_eq, ihf, ihg]

theorem has₃_eq (h : Alike f f') (X Y Z : Slot) : f'.has₃ X Y Z = f.has₃ X Y Z := by
  induction h generalizing X Y Z with
  | leaf h => exact h.has₃ X Y Z
  | scale hf ih => simp only [Tree.has₃, ih]
  | squared hf ih => simp only [Tree.has₃, hf.has₁_eq, hf.has₂_eq, ih]
  | sum hf hg ihf ihg | extremum hf hg ihf ihg => simp only [Tree.has₃, ihf, ihg]
  | product hf hg ihf ihg | chain hf hg ihf ihg =>
    simp only [Tree.has₃, hf.has₁_eq, hf.has₂_eq, hg.has₁_eq, hg.has₂_eq, ihf, ihg]

/-- Alike trees have the same capabilities in every slot. -/
theorem capabilities_eq (h : Alike f f') (X : Slot) : Capabilities.of f' X = Capabilities.of f X := by
  simp only [Capabilities.of, h.reacts_eq, h.has₁_eq, h.has₂_eq, h.has₃_eq, h.slots_eq]

end Alike

variable [Scalar K] [LawfulLeaf L]

/-- A call keeps the nodes of a tree and the declarations of its leaves. -/
theorem alike_call (f : Tree K L a s) (c : Call K Γ a) : f.Alike (f.call c).state := by
  induction f with
  | leaf l =>
    rw [call_leaf, Outcome.state_map]
    exact .leaf (LawfulLeaf.alike_call l c)
  | scale k f v ih =>
    obtain ⟨v', h⟩ := state_call_scale k f v c
    rw [h]
    exact .scale (holds_call? _ (.refl _) (ih c))
  | squared m f v ih =>
    obtain ⟨v', h⟩ := state_call_squared m f v c
    rw [h]
    exact .squared (holds_call? _ (.refl _) (ih c))
  | sum f g v ihf ihg =>
    obtain ⟨g', v', hg', h⟩ := state_call_sum f g v c
    rw [h]
    exact .sum (holds_call? _ (.refl _) (ihf c)) (holds_of_eq_or_eq _ hg' (.refl _) (ihg c))
  | product m f g v ihf ihg =>
    obtain ⟨g', v', hg', h⟩ := state_call_product m f g v c
    rw [h]
    exact .product (holds_call? _ (.refl _) (ihf c)) (holds_of_eq_or_eq _ hg' (.refl _) (ihg c))
  | extremum e f g v firstActive ihf ihg =>
    obtain ⟨g', v', firstActive', hg', h⟩ := state_call_extremum e f g v firstActive c
    rw [h]
    exact .extremum (holds_call? _ (.refl _) (ihf c)) (holds_of_eq_or_eq _ hg' (.refl _) (ihg c))
  | chain f g ihf ihg =>
    obtain ⟨f', hf', h⟩ := state_call_chain f g c
    rw [h]
    have hf : f.Alike f' := by
      obtain rfl | ⟨y, rfl⟩ := hf'
      · exact .refl f'
      · exact ihf (.update y)
    exact .chain hf (holds_call? _ (.refl _) (ihg c))

/-- A call changes no capability of a tree. -/
theorem capabilities_call (f : Tree K L a s) (c : Call K Γ a) (X : Slot) :
    Capabilities.of (f.call c).state X = Capabilities.of f X :=
  (alike_call f c).capabilities_eq X

end Directional.Tree
