import Directional.Proofs.Exact.Multilinear
import Directional.Proofs.Tree.Absorption
import Directional.Proofs.Tree.Answer
import Directional.Proofs.Tree.Reachable
import Directional.Proofs.Tree.Run

namespace Directional

namespace Composition

/-- A second derivative is declared alike by both groupings of three functions, of which the first
two are declared by `f₁`, `f₂` and `g₁`, `g₂` to be derivable in their arguments. -/
theorem hasSecond_assoc (f₁ f₂ g₁ g₂ : Bool) (h : Mixed₂ Bool) :
    hasSecond (f₁ && g₁) (hasSecond f₁ f₂ ⟨g₁, g₁, g₂⟩) h =
      hasSecond f₁ f₂ ⟨g₁ && h.x, g₁ && h.y, hasSecond g₁ g₂ h⟩ := by
  simp only [hasSecond]
  grind

theorem hasThird_assoc (f₁ f₂ f₃ g₁ g₂ g₃ : Bool) (h : Mixed₃ Bool) :
    hasThird (f₁ && g₁) (hasSecond f₁ f₂ ⟨g₁, g₁, g₂⟩)
        (hasThird f₁ f₂ f₃ ⟨g₁, g₁, g₁, g₂, g₂, g₂, g₃⟩) h =
      hasThird f₁ f₂ f₃
        ⟨g₁ && h.x, g₁ && h.y, g₁ && h.z, hasSecond g₁ g₂ ⟨h.x, h.y, h.xy⟩,
          hasSecond g₁ g₂ ⟨h.x, h.z, h.xz⟩, hasSecond g₁ g₂ ⟨h.y, h.z, h.yz⟩,
          hasThird g₁ g₂ g₃ h⟩ := by
  simp only [hasThird, hasSecond]
  grind

end Composition

namespace Tree

section Members

variable {K : Type} {Γ : Nat → Shape} {L : Shape → Shape → Type} [Leaf K Γ L] {a s : Shape}

/-- Two trees with the same value, that depend on the same slots and have the same derivatives. -/
structure SameMembers (f f' : Tree K L a s) : Prop where
  value : f'.value = f.value
  reacts : f'.reacts = f.reacts
  reactsTo (i : Nat) : f'.reactsTo i = f.reactsTo i
  has₁ (X : Slot) : f'.has₁ X = f.has₁ X
  has₂ (X Y : Slot) : f'.has₂ X Y = f.has₂ X Y
  has₃ (X Y Z : Slot) : f'.has₃ X Y Z = f.has₃ X Y Z

/-- Two trees that answer with the same derivatives, in all slots and directions. -/
structure SameAnswers [Scalar K] (f f' : Tree K L a s) : Prop where
  first (X : Slot) (dx : Value K (X.shape Γ a)) : f'.answer₁ X dx = f.answer₁ X dx
  second (X Y : Slot) (dx : Value K (X.shape Γ a)) (dy : Value K (Y.shape Γ a)) :
    f'.answer₂ X Y dx dy = f.answer₂ X Y dx dy
  third (X Y Z : Slot) (dx : Value K (X.shape Γ a)) (dy : Value K (Y.shape Γ a))
    (dz : Value K (Z.shape Γ a)) : f'.answer₃ X Y Z dx dy dz = f.answer₃ X Y Z dx dy dz

/-- Two groupings of the same three functions in the same states. -/
inductive Regrouped : Tree K L a s → Tree K L a s → Prop where
  | intro {b c : Shape} (f : Tree K L c s) (g : Tree K L b c) (h : Tree K L a b) :
      Regrouped (chain (chain f g) h) (chain f (chain g h))

/-- Two groupings have the same value and the same members. -/
theorem Regrouped.sameMembers {left right : Tree K L a s} (h : Regrouped left right) :
    SameMembers left right := by
  obtain ⟨f, g, h⟩ := h
  constructor
  · rfl
  · rfl
  · exact fun _ => rfl
  · exact fun X => (Bool.and_assoc _ _ _).symm
  · intro X Y
    exact (Composition.hasSecond_assoc _ _ _ _ ⟨h.has₁ X, h.has₁ Y, h.has₂ X Y⟩).symm
  · intro X Y Z
    exact (Composition.hasThird_assoc _ _ _ _ _ _ ⟨h.has₁ X, h.has₁ Y, h.has₁ Z, h.has₂ X Y,
      h.has₂ X Z, h.has₂ Y Z, h.has₃ X Y Z⟩).symm

end Members

/-- The leaves of the library answer what they declare, so a tree of them answers the same whether
it is asked directly or only for what it declares. -/
theorem SameAnswers.of_declared {K : Type} [Scalar K] {Γ : Nat → Shape} {a s : Shape}
    {f f' : Tree K (Builtin K Γ) a s}
    (first : ∀ X dx, f'.d₁? X dx = f.d₁? X dx)
    (second : ∀ X Y dx dy, f'.d₂? X Y dx dy = f.d₂? X Y dx dy)
    (third : ∀ X Y Z dx dy dz, f'.d₃? X Y Z dx dy dz = f.d₃? X Y Z dx dy dz) :
    SameAnswers f f' := by
  have hroot := (everyLeaf_of_forall Builtin.answersAsDeclared f).root
  have hroot' := (everyLeaf_of_forall Builtin.answersAsDeclared f').root
  constructor
  · intro X dx
    rw [answer₁_eq_d₁? dx hroot', answer₁_eq_d₁? dx hroot, first]
  · intro X Y dx dy
    rw [answer₂_eq_d₂? dx dy hroot', answer₂_eq_d₂? dx dy hroot, second]
  · intro X Y Z dx dy dz
    rw [answer₃_eq_d₃? dx dy dz hroot', answer₃_eq_d₃? dx dy dz hroot, third]

section Derivatives

variable {K : Type} [Field K] [Primitives K] {Γ : Nat → Shape} {a b c s : Shape}
  (f : Tree K (Builtin K Γ) c s) (g : Tree K (Builtin K Γ) b c) (h : Tree K (Builtin K Γ) a b)

/-- The rules of a composition, applied twice, give the same sums in both groupings: the derivatives
of each function are additive along the sums that the function inside of it answers with. -/
theorem d₁_regrouped {X : Slot} (dx : Value K (X.shape Γ a)) :
    (chain f (chain g h)).d₁ X dx = (chain (chain f g) h).d₁ X dx := by
  simp only [d₁_chain _ f.additive, d₁_chain _ g.additive, d₁_chain _ (chain f g).additive]

theorem d₂_regrouped {X Y : Slot} (dx : Value K (X.shape Γ a)) (dy : Value K (Y.shape Γ a)) :
    (chain f (chain g h)).d₂ X Y dx dy = (chain (chain f g) h).d₂ X Y dx dy := by
  simp only [d₁_chain _ f.additive, d₁_chain _ g.additive, d₂_chain _ _ f.additive,
    d₂_chain _ _ g.additive, d₂_chain _ _ (chain f g).additive, f.additive.first]
  ac_rfl

theorem d₃_regrouped {X Y Z : Slot} (dx : Value K (X.shape Γ a)) (dy : Value K (Y.shape Γ a))
    (dz : Value K (Z.shape Γ a)) :
    (chain f (chain g h)).d₃ X Y Z dx dy dz = (chain (chain f g) h).d₃ X Y Z dx dy dz := by
  simp only [d₁_chain _ f.additive, d₁_chain _ g.additive, d₂_chain _ _ f.additive,
    d₂_chain _ _ g.additive, d₃_chain _ _ _ f.additive, d₃_chain _ _ _ g.additive,
    d₃_chain _ _ _ (chain f g).additive, f.additive.first, f.additive.second_left,
    f.additive.second_right]
  ac_rfl

/-- Over exact arithmetic two groupings have the same derivatives. -/
theorem Regrouped.sameAnswers {left right : Tree K (Builtin K Γ) a s} (h : Regrouped left right) :
    SameAnswers left right := by
  obtain ⟨f, g, h⟩ := h
  -- Where minima and maxima make way for their active operands, the groupings stay what they are.
  have hactive := (Regrouped.intro f.active g.active h.active).sameMembers
  apply SameAnswers.of_declared
  · intro X dx
    exact d₁?_eq_of_d₁_eq (hactive.has₁ X) (d₁_regrouped f g h dx)
  · intro X Y dx dy
    exact d₂?_eq_of_d₂_eq (hactive.has₂ X Y) (d₂_regrouped f g h dx dy)
  · intro X Y Z dx dy dz
    exact d₃?_eq_of_d₃_eq (hactive.has₃ X Y Z) (d₃_regrouped f g h dx dy dz)

end Derivatives

section Calls

variable {K : Type} [Scalar K] {Γ : Nat → Shape} {L : Shape → Shape → Type} [Leaf K Γ L]
  {a b c s : Shape}

/-- Where `g` does not depend on its argument, moving it recomputes nothing new, and `f` stands at
its value already. -/
def AtRest (f : Tree K L c s) (g : Tree K L b c) : Prop :=
  g.reacts = false → g.refreshed = g ∧ f.call (.update g.value) = .accepted f

/-- A function in the middle that depends on its argument is moved in both groupings. -/
theorem atRest_of_reacts {f : Tree K L c s} {g : Tree K L b c} (h : g.reacts = true) :
    AtRest f g := by
  intro hconstant
  rw [h] at hconstant
  nomatch hconstant

variable [LawfulLeaf L]

/-- One call to each of two groupings has the same result, and leaves two groupings of the same
functions behind. They do not come to this in the same way: one of them asks the function in the
middle if it depends on its argument before it moves it, and the other one moves it in any case. -/
theorem call_regrouped {f : Tree K L c s} {g : Tree K L b c} {h : Tree K L a b}
    (rest : AtRest f g) (d : Call K Γ a) :
    ∃ (f' : Tree K L c s) (g' : Tree K L b c) (h' : Tree K L a b), AtRest f' g' ∧
      ∃ o : Outcome (DomainError K) Unit,
        (chain (chain f g) h).call d = o.map (fun _ => chain (chain f' g') h') ∧
        (chain f (chain g h)).call d = o.map (fun _ => chain f' (chain g' h')) := by
  cases hdep : h.dependsOn d.slot with
  | false =>
    exact ⟨f, g, h, rest, .accepted (), call_chain_of_not_dependsOn hdep,
      call_chain_of_not_dependsOn ((dependsOn_chain g h d.slot).trans hdep)⟩
  | true =>
    have hgh : (chain g h).dependsOn d.slot = true := (dependsOn_chain g h d.slot).trans hdep
    cases hh : h.call d with
    | rejected e h' =>
      exact ⟨f, g, h', rest, .rejected e (), call_chain_of_rejected hdep hh,
        call_chain_of_rejected hgh (call_chain_of_rejected hdep hh)⟩
    | accepted h' =>
      have hleft : (chain (chain f g) h).call d =
          ((chain f g).call (.update h'.value)).map (chain · h') := call_chain_of_accepted hdep hh
      have hinner : (chain g h).call d = (g.call (.update h'.value)).map (chain · h') :=
        call_chain_of_accepted hdep hh
      have hslot : g.dependsOn (Call.update h'.value : Call K Γ b).slot = g.reacts := rfl
      have hkept : (g.call (.update h'.value)).state.reacts = g.reacts := (alike_call g _).reacts_eq
      cases hreacts : g.reacts with
      | false =>
        -- The one grouping asks `g` and leaves it alone, the other one moves it to no effect.
        obtain ⟨hfresh, hstands⟩ := rest hreacts
        rw [call_chain_of_not_dependsOn (hslot.trans hreacts)] at hleft
        rw [call_update_of_not_reacts hreacts, hfresh] at hinner
        have hright := call_chain_of_accepted (f := f) hgh hinner
        refine ⟨f, g, h', rest, .accepted (), hleft, hright.trans ?_⟩
        exact congrArg (Outcome.map (chain · (chain g h'))) hstands
      | true =>
        have hdepg := hslot.trans hreacts
        rw [hreacts] at hkept
        cases hg : g.call (.update h'.value) with
        | rejected e g' =>
          rw [call_chain_of_rejected hdepg hg] at hleft
          rw [hg] at hinner hkept
          exact ⟨f, g', h', atRest_of_reacts hkept, .rejected e (), hleft,
            call_chain_of_rejected hgh hinner⟩
        | accepted g' =>
          rw [call_chain_of_accepted hdepg hg] at hleft
          rw [hg] at hinner hkept
          have hright := call_chain_of_accepted (f := f) hgh hinner
          refine ⟨(f.call (.update g'.value)).state, g', h', atRest_of_reacts hkept,
            (f.call (.update g'.value)).map fun _ => (), hleft.trans ?_, hright.trans ?_⟩
          · cases f.call (.update g'.value) <;> rfl
          · change (f.call (.update g'.value)).map _ = _
            cases f.call (.update g'.value) <;> rfl

/-- A call that a tree accepts leaves the same tree behind if another call of the slot has been
accepted before. -/
theorem call_of_accepted {f f' f'' : Tree K L a s} {d e : Call K Γ a} (hd : f.call d = .accepted f')
    (he : f.call e = .accepted f'') (hslot : d.slot = e.slot) : f'.call e = .accepted f'' := by
  have habsorbed := f.call_absorbs hslot
  rw [hd, he] at habsorbed
  exact Outcome.toExcept_eq_ok_iff.1 habsorbed

/-- If both groupings of three functions can be built, they hold the same functions in the same
states. -/
theorem regrouped_of_mkChain {f₀ : Tree K L c s} {g₀ : Tree K L b c} {h : Tree K L a b}
    {fg : Tree K L b s} {gh : Tree K L a c} {left right : Tree K L a s}
    (fresh : g₀.reacts = false → g₀.refreshed = g₀) (hfg : mkChain f₀ g₀ = .ok fg)
    (hleft : mkChain fg h = .ok left) (hgh : mkChain g₀ h = .ok gh)
    (hright : mkChain f₀ gh = .ok right) :
    ∃ (f : Tree K L c s) (g : Tree K L b c), AtRest f g ∧ left = chain (chain f g) h ∧
      right = chain f (chain g h) := by
  obtain ⟨f₁, hf₁, rfl⟩ := mkChain_eq_ok_iff.1 hfg
  obtain ⟨fg', hfg', rfl⟩ := mkChain_eq_ok_iff.1 hleft
  obtain ⟨g₁, hg₁, rfl⟩ := mkChain_eq_ok_iff.1 hgh
  obtain ⟨f₂, hf₂, rfl⟩ := mkChain_eq_ok_iff.1 hright
  have hslot : g₀.dependsOn (Call.update h.value : Call K Γ b).slot = g₀.reacts := rfl
  cases hreacts : g₀.reacts with
  | false =>
    rw [call_chain_of_not_dependsOn (hslot.trans hreacts)] at hfg'
    rw [call_update_of_not_reacts hreacts, fresh hreacts] at hg₁
    cases hfg'
    cases hg₁
    have hf : f₂ = f₁ := Outcome.accepted.inj (hf₂.symm.trans hf₁)
    subst hf
    exact ⟨f₂, g₀, fun _ => ⟨fresh hreacts, call_of_accepted hf₁ hf₁ rfl⟩, rfl, rfl⟩
  | true =>
    rw [call_chain_of_accepted (hslot.trans hreacts) hg₁] at hfg'
    have hkept : g₁.reacts = true := by
      rw [← hreacts, ← (alike_call g₀ (.update h.value)).reacts_eq, hg₁]
      rfl
    have hf : f₁.call (.update g₁.value) = .accepted f₂ := call_of_accepted hf₁ hf₂ rfl
    rw [hf] at hfg'
    cases hfg'
    exact ⟨f₂, g₁, atRest_of_reacts hkept, rfl, rfl⟩

/-- Two groupings return the same and stay groupings of the same functions through every sequence of
calls. -/
theorem regrouped_after {f : Tree K L c s} {g : Tree K L b c} (rest : AtRest f g)
    (h : Tree K L a b) (calls : List (Call K Γ a)) :
    (chain (chain f g) h).results calls = (chain f (chain g h)).results calls ∧
      Regrouped ((chain (chain f g) h).after calls) ((chain f (chain g h)).after calls) := by
  let R (left right : Tree K L a s) : Prop :=
    ∃ (b c : Shape) (f : Tree K L c s) (g : Tree K L b c) (h : Tree K L a b), AtRest f g ∧
      left = chain (chain f g) h ∧ right = chain f (chain g h)
  have hstep (left right : Tree K L a s) (d : Call K Γ a) (related : R left right) :
      (left.call d).result = (right.call d).result ∧
        R (left.call d).state (right.call d).state := by
    obtain ⟨b, c, f, g, h, rest, rfl, rfl⟩ := related
    obtain ⟨f', g', h', rest', o, hleft, hright⟩ := call_regrouped (h := h) rest d
    rw [hleft, hright, Outcome.result_map, Outcome.result_map, Outcome.state_map,
      Outcome.state_map]
    exact ⟨rfl, b, c, f', g', h', rest', rfl, rfl⟩
  obtain ⟨hresults, b, c, f', g', h', -, hleft, hright⟩ :=
    simulation_same hstep ⟨b, c, f, g, h, rest, rfl, rfl⟩ calls
  rw [hleft, hright]
  exact ⟨hresults, .intro f' g' h'⟩

end Calls

end Tree

end Directional
