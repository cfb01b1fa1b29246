import Directional.Proofs.Leaf.Domain
import Directional.Proofs.Tree.Answer
import Directional.Proofs.Tree.Reachable

namespace Directional.Tree

section Leaves

variable {K : Type} [Scalar K] {Γ : Nat → Shape} {L : Shape → Shape → Type} [Leaf K Γ L]
  {a s : Shape} {P : {a s : Shape} → L a s → Prop}

/-- What every leaf keeps through a call, the leaves of a tree keep, whether the tree accepts its
call or rejects it. -/
theorem EveryLeaf.call (hP : ∀ {a s} {l : L a s} (c : Call K Γ a), P l → P (Leaf.call l c).state)
    {f : Tree K L a s} (h : f.EveryLeaf P) (c : Call K Γ a) : (f.call c).state.EveryLeaf P := by
  induction f with
  | leaf l =>
    rw [call_leaf, Outcome.state_map]
    exact hP c h
  | scale k f v ih =>
    obtain ⟨v', hstate⟩ := state_call_scale k f v c
    rw [hstate]
    exact holds_call? (EveryLeaf P) h (ih h c)
  | squared m f v ih =>
    obtain ⟨v', hstate⟩ := state_call_squared m f v c
    rw [hstate]
    exact holds_call? (EveryLeaf P) h (ih h c)
  | sum f g v ihf ihg =>
    obtain ⟨g', v', hg', hstate⟩ := state_call_sum f g v c
    rw [hstate]
    exact ⟨holds_call? (EveryLeaf P) h.1 (ihf h.1 c),
      holds_of_eq_or_eq (EveryLeaf P) hg' h.2 (ihg h.2 c)⟩
  | product m f g v ihf ihg =>
    obtain ⟨g', v', hg', hstate⟩ := state_call_product m f g v c
    rw [hstate]
    exact ⟨holds_call? (EveryLeaf P) h.1 (ihf h.1 c),
      holds_of_eq_or_eq (EveryLeaf P) hg' h.2 (ihg h.2 c)⟩
  | extremum e f g v firstActive ihf ihg =>
    obtain ⟨g', v', firstActive', hg', hstate⟩ := state_call_extremum e f g v firstActive c
    rw [hstate]
    exact ⟨holds_call? (EveryLeaf P) h.1 (ihf h.1 c),
      holds_of_eq_or_eq (EveryLeaf P) hg' h.2 (ihg h.2 c)⟩
  | chain f g ihf ihg =>
    obtain ⟨f', hf', hstate⟩ := state_call_chain f g c
    rw [hstate]
    refine ⟨?_, holds_call? (EveryLeaf P) h.2 (ihg h.2 c)⟩
    -- the outer function has been moved to whatever the inner one has come to, or not at all
    obtain rfl | ⟨y, rfl⟩ := hf'
    · exact h.1
    · exact ihf h.1 (.update y)

end Leaves

variable {K : Type} [Scalar K] {Γ : Nat → Shape} {a s : Shape}

/-- A tree that has been put together from leaves that were built, node by node, and may have been
called at any time before and after, whether the calls were accepted or rejected. -/
inductive Constructed : {a s : Shape} → Tree K (Builtin K Γ) a s → Prop where
  | leaf {a s : Shape} (seed : Seed K Γ a s) {l : Builtin K Γ a s} (h : seed.build = .ok l) :
      Constructed (leaf l)
  | scale {a s : Shape} (c : K) {f : Tree K (Builtin K Γ) a s} (hf : Constructed f) :
      Constructed (mkScale c f)
  | squared {a s : Shape} (m : Pairing s s s) {f : Tree K (Builtin K Γ) a s}
      (hf : Constructed f) : Constructed (mkSquared m f)
  | sum {a s : Shape} {f g : Tree K (Builtin K Γ) a s} (hf : Constructed f)
      (hg : Constructed g) : Constructed (mkSum f g)
  | product {a s t u : Shape} (m : Pairing s t u) {f : Tree K (Builtin K Γ) a s}
      {g : Tree K (Builtin K Γ) a t} (hf : Constructed f) (hg : Constructed g) :
      Constructed (mkProduct m f g)
  | extremum {a s : Shape} (e : Extremum) {f g : Tree K (Builtin K Γ) a s} (hf : Constructed f)
      (hg : Constructed g) : Constructed (mkExtremum e f g)
  | chain {a b s : Shape} {f : Tree K (Builtin K Γ) b s} {g : Tree K (Builtin K Γ) a b}
      {t : Tree K (Builtin K Γ) a s} (hf : Constructed f) (hg : Constructed g)
      (h : mkChain f g = .ok t) : Constructed t
  | call {a s : Shape} {f : Tree K (Builtin K Γ) a s} (hf : Constructed f) (c : Call K Γ a) :
      Constructed (f.call c).state

/-- The leaves of such a tree are valid, also those of outer functions, which are moved to values
that have been computed. -/
theorem Constructed.everyLeaf_valid {f : Tree K (Builtin K Γ) a s} (h : f.Constructed) :
    f.EveryLeaf Builtin.Valid := by
  induction h with
  | leaf seed h => exact Builtin.valid_of_build seed h
  | scale _ _ ih | squared _ _ ih => exact ih
  | sum _ _ ihf ihg | product _ _ _ ihf ihg | extremum _ _ _ ihf ihg => exact ⟨ihf, ihg⟩
  | @chain a b s f g t hf hg h ihf ihg =>
    obtain ⟨f', hcall, rfl⟩ := mkChain_eq_ok_iff.1 h
    have houter := ihf.call (fun c hl => Builtin.valid_call hl c) (.update g.value)
    rw [hcall] at houter
    exact ⟨houter, ihg⟩
  | call _ c ih => exact ih.call (fun c hl => Builtin.valid_call hl c) c

/-- However a tree has been put together and whatever calls it and its parts have had, accepted or
rejected, every leaf stands at an argument that it accepts: the argument of an elementary function
is finite and passes the check of its domain, and the entries of a matrix are finite. What the leaf
holds is computed from that argument. If finite numbers compare, the checks amount to the domains.
A leaf that rejects a call is as it was. -/
theorem leaves_stay_in_domain {f : Tree K (Builtin K Γ) a s} (h : f.Constructed) :
    f.EveryLeaf Builtin.Valid ∧
    (Scalar.FiniteCompare K → f.EveryLeaf Builtin.InDomain) ∧
    ∀ {b t : Shape} {l l' : Builtin K Γ b t} {c : Call K Γ b} {e : DomainError K},
      Leaf.call l c = .rejected e l' → l' = l := by
  have hvalid : f.EveryLeaf Builtin.Valid := h.everyLeaf_valid
  refine ⟨hvalid, ?_, Builtin.eq_of_call_rejected⟩
  intro
  exact hvalid.mono fun l hl => hl.inDomain

/-- A variable times the logarithm, after a call that the logarithm has rejected: the identity
inside of it has moved, and the logarithm has not. -/
theorem leaves_stay_in_domain_variable_times_logarithm :
    let x : Tree ℚ (Builtin ℚ fun _ => .scalar) .scalar .scalar := .leaf (.var 0 rfl 2)
    let logarithm (y z : ℚ) : Tree ℚ (Builtin ℚ fun _ => .scalar) .scalar .scalar :=
      .chain (.leaf (.elementary ⟨.ln, y, ElementaryFunction.ln.jet y⟩)) (.leaf (.identity z))
    let f := mkProduct .scalars x (logarithm 3 3)
    let f' := Tree.product .scalars x (logarithm 3 (-1)) f.value
    (f.call (.update (-1))).state = f' ∧ f'.Constructed ∧ f'.EveryLeaf Builtin.Valid ∧
      f'.EveryLeaf Builtin.InDomain := by
  intro x logarithm f f'
  have hx : x.Constructed := .leaf (.var 0 rfl 2) rfl
  have hidentity : (leaf (.identity (3 : ℚ)) :
      Tree ℚ (Builtin ℚ fun _ => .scalar) .scalar .scalar).Constructed :=
    .leaf (.identity (3 : ℚ)) rfl
  have hlogarithm : (leaf (.elementary ⟨.ln, 1, ElementaryFunction.ln.jet 1⟩) :
      Tree ℚ (Builtin ℚ fun _ => .scalar) .scalar .scalar).Constructed :=
    .leaf (.elementary .ln 1) rfl
  have hf : f.Constructed := .product .scalars hx (.chain hlogarithm hidentity rfl)
  have hstate : (f.call (.update (-1))).state = f' := rfl
  have hf' : f'.Constructed := hstate ▸ hf.call (.update (-1))
  obtain ⟨hvalid, hdomain, -⟩ := leaves_stay_in_domain hf'
  exact ⟨hstate, hf', hvalid, hdomain inferInstance⟩

end Directional.Tree
