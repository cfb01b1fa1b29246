import Directional.Proofs.Tree.Alike

namespace Directional.Tree

variable {K : Type} [Scalar K] {Γ : Nat → Shape} {L : Shape → Shape → Type} [Leaf K Γ L]
  [LawfulLeaf L] {a s : Shape}

section Operands

variable {f f' : Tree K L a s} {c d : Call K Γ a}

/-- An operand that does not depend on the slot is visited by neither call, and one that does is
visited by both. -/
private theorem call?_absorbs_of_call_absorbs (hslot : c.slot = d.slot)
    (h : ((f.call c).state.call d).toExcept = (f.call d).toExcept) :
    ((f.call? c).state.call? d).toExcept = (f.call? d).toExcept := by
  cases hdep : f.dependsOn d.slot with
  | false =>
    have hskip : f.call? c = .accepted f := call?_of_not_dependsOn (by rw [hslot, hdep])
    rw [hskip, Outcome.state_accepted]
  | true =>
    have hvisit : f.call? c = f.call c := call?_of_dependsOn (by rw [hslot, hdep])
    have hmoved : (f.call c).state.dependsOn d.slot = true := by
      rw [(alike_call f c).dependsOn_eq, hdep]
    rw [hvisit, call?_of_dependsOn hmoved, call?_of_dependsOn hdep, h]

/-- The earlier call may have stopped before it came to an operand. -/
private theorem toExcept_call?_of_eq_or_eq (hslot : c.slot = d.slot)
    (h : ((f.call c).state.call d).toExcept = (f.call d).toExcept)
    (hf' : f' = f ∨ f' = (f.call? c).state) : (f'.call? d).toExcept = (f.call? d).toExcept := by
  obtain rfl | rfl := hf'
  · rfl
  · exact call?_absorbs_of_call_absorbs hslot h

/-- A node that leaves calls of a slot alone leaves both of them alone. -/
private theorem call_absorbs_of_visits (hslot : c.slot = d.slot)
    (h : f.skips d.slot = false → (f.call c).state.skips d.slot = false →
      ((f.call c).state.call d).toExcept = (f.call d).toExcept) :
    ((f.call c).state.call d).toExcept = (f.call d).toExcept := by
  cases hskip : f.skips d.slot with
  | true =>
    have hcall : f.call c = .accepted f := call_of_skips (by rw [hslot, hskip])
    rw [hcall, Outcome.state_accepted]
  | false => exact h hskip (by rw [(alike_call f c).skips_eq, hskip])

end Operands

/-- Of two calls of one slot the second one alone decides what it returns, and the state if it is
accepted. Whatever the earlier call has done, up to its end or up to the leaf that rejected it, the
later one does over or has no part in. -/
theorem call_absorbs (f : Tree K L a s) {c d : Call K Γ a} (hslot : c.slot = d.slot) :
    ((f.call c).state.call d).toExcept = (f.call d).toExcept := by
  -- After the earlier call a node has operands that answer the later one as the old operands do.
  -- The value that the node itself holds meanwhile plays no part in that.
  induction f with
  | leaf l =>
    rw [call_leaf, Outcome.state_map, toExcept_call_leaf, toExcept_call_leaf,
      LawfulLeaf.call_absorbs l hslot]
  | scale k f v ih =>
    apply call_absorbs_of_visits hslot
    intro visits visits'
    obtain ⟨v', hstate⟩ := state_call_scale k f v c
    rw [hstate] at visits' ⊢
    have hf := call?_absorbs_of_call_absorbs hslot (ih hslot)
    rw [toExcept_call_scale visits, toExcept_call_scale visits', hf]
  | squared m f v ih =>
    apply call_absorbs_of_visits hslot
    intro visits visits'
    obtain ⟨v', hstate⟩ := state_call_squared m f v c
    rw [hstate] at visits' ⊢
    have hf := call?_absorbs_of_call_absorbs hslot (ih hslot)
    rw [toExcept_call_squared visits, toExcept_call_squared visits', hf]
  | sum f g v ihf ihg =>
    apply call_absorbs_of_visits hslot
    intro visits visits'
    obtain ⟨g', v', hg', hstate⟩ := state_call_sum f g v c
    rw [hstate] at visits' ⊢
    have hf := call?_absorbs_of_call_absorbs hslot (ihf hslot)
    have hg := toExcept_call?_of_eq_or_eq hslot (ihg hslot) hg'
    rw [toExcept_call_sum visits, toExcept_call_sum visits', hf, hg]
  | product m f g v ihf ihg =>
    apply call_absorbs_of_visits hslot
    intro visits visits'
    obtain ⟨g', v', hg', hstate⟩ := state_call_product m f g v c
    rw [hstate] at visits' ⊢
    have hf := call?_absorbs_of_call_absorbs hslot (ihf hslot)
    have hg := toExcept_call?_of_eq_or_eq hslot (ihg hslot) hg'
    rw [toExcept_call_product visits, toExcept_call_product visits', hf, hg]
  | extremum e f g v firstActive ihf ihg =>
    apply call_absorbs_of_visits hslot
    intro visits visits'
    obtain ⟨g', v', firstActive', hg', hstate⟩ := state_call_extremum e f g v firstActive c
    rw [hstate] at visits' ⊢
    have hf := call?_absorbs_of_call_absorbs hslot (ihf hslot)
    have hg := toExcept_call?_of_eq_or_eq hslot (ihg hslot) hg'
    rw [toExcept_call_extremum visits, toExcept_call_extremum visits', hf, hg]
  | chain f g ihf ihg =>
    cases hdep : g.dependsOn d.slot with
    | false =>
      have hcall : (chain f g).call c = .accepted (chain f g) := by simp [call_chain, hslot, hdep]
      rw [hcall, Outcome.state_accepted]
    | true =>
      obtain ⟨f', hf', hstate⟩ := state_call_chain f g c
      have houter (y : Value K _) :
          (f'.call (.update y)).toExcept = (f.call (.update y)).toExcept := by
        obtain rfl | ⟨x, rfl⟩ := hf'
        · rfl
        · exact ihf rfl
      have hmoved : (g.call c).state.dependsOn d.slot = true := by
        rw [(alike_call g c).dependsOn_eq, hdep]
      rw [hstate, call?_of_dependsOn (by rw [hslot, hdep]), toExcept_call_chain,
        toExcept_call_chain, if_pos hmoved, if_pos hdep, ihg hslot]
      simp only [houter]

/-- A later update absorbs an earlier one, accepted or rejected and from whatever state, and so
does a later write of a variable an earlier write of the same variable: it returns what it would
have returned without the earlier one and, if it is accepted, leaves the same tree behind. -/
theorem later_call_absorbs_earlier {a s : Shape} (f : Tree K (Builtin K Γ) a s) :
    (∀ x y, ((f.update x).state.update y).toExcept = (f.update y).toExcept) ∧
      ∀ i x y, ((f.write i x).state.write i y).toExcept = (f.write i y).toExcept := by
  constructor
  · intro x y
    exact f.call_absorbs (c := .update x) (d := .update y) rfl
  · intro i x y
    exact f.call_absorbs (c := .write i x) (d := .write i y) rfl

end Directional.Tree
