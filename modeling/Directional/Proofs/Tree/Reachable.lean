import Directional.Proofs.Tree.Alike

namespace Directional.Tree

variable {K : Type} [Scalar K] {Γ : Nat → Shape} {L : Shape → Shape → Type} [Leaf K Γ L]
  {a b s : Shape}

/-- A composition is built if its outer function accepts the value of the inner one. -/
theorem mkChain_eq_ok_iff {f : Tree K L b s} {g : Tree K L a b} {t : Tree K L a s} :
    mkChain f g = .ok t ↔ ∃ f', f.call (.update g.value) = .accepted f' ∧ chain f' g = t := by
  rw [mkChain, call]
  cases f.update g.value <;> simp

/-- A tree with whatever leaves, whose nodes have been built on top of each other, and which may
have been called before and after, also in vain. -/
inductive Reachable : {a s : Shape} → Tree K L a s → Prop where
  | leaf {a s : Shape} (l : L a s) : Reachable (leaf l)
  | scale {a s : Shape} (c : K) {f : Tree K L a s} (hf : Reachable f) : Reachable (mkScale c f)
  | squared {a s : Shape} (m : Pairing s s s) {f : Tree K L a s} (hf : Reachable f) :
      Reachable (mkSquared m f)
  | sum {a s : Shape} {f g : Tree K L a s} (hf : Reachable f) (hg : Reachable g) :
      Reachable (mkSum f g)
  | product {a s t u : Shape} (m : Pairing s t u) {f : Tree K L a s} {g : Tree K L a t}
      (hf : Reachable f) (hg : Reachable g) : Reachable (mkProduct m f g)
  | extremum {a s : Shape} (e : Extremum) {f g : Tree K L a s} (hf : Reachable f)
      (hg : Reachable g) : Reachable (mkExtremum e f g)
  | chain {a b s : Shape} {f : Tree K L b s} {g : Tree K L a b} {t : Tree K L a s}
      (hf : Reachable f) (hg : Reachable g) (h : mkChain f g = .ok t) : Reachable t
  | call {a s : Shape} {f : Tree K L a s} (hf : Reachable f) (c : Call K Γ a) :
      Reachable (f.call c).state

/-- A tree that is a function of no variables. -/
def VariableFree (f : Tree K L a s) : Prop :=
  ∀ i, f.reactsTo i = false

variable [LawfulLeaf L]

/-- Calls bring no variables in. -/
theorem VariableFree.call {f : Tree K L a s} (h : f.VariableFree) (c : Call K Γ a) :
    (f.call c).state.VariableFree := by
  intro i
  rw [(alike_call f c).reactsTo_eq, h i]

/-- The root of a tree that depends neither on its argument nor on a variable holds what its
operands give. A rejected call can leave a node with a value that its operands no longer give, but
not in such a tree. -/
theorem Reachable.refreshed_eq {f : Tree K L a s} (h : f.Reachable) (free : f.VariableFree)
    (constant : f.reacts = false) : f.refreshed = f := by
  induction h with
  | leaf | scale | squared | sum | product | extremum => rfl
  | chain hf hg h =>
    obtain ⟨f', -, rfl⟩ := mkChain_eq_ok_iff.1 h
    rfl
  | @call a s f hf c ih =>
    have hfree : f.VariableFree := by
      intro i
      rw [← (alike_call f c).reactsTo_eq, free i]
    have hconstant : f.reacts = false := by rw [← (alike_call f c).reacts_eq, constant]
    have hdep : f.dependsOn c.slot = false := by
      cases c with
      | update x => exact hconstant
      | write i x => exact hfree i
    -- Such a tree is not changed by any call.
    rw [call_of_not_dependsOn hdep (ih hfree hconstant)]
    exact ih hfree hconstant

end Directional.Tree
