import Directional.Proofs.Formula.Rebuild

namespace Directional

variable {K : Type} {Γ : Nat → Shape} {a s t u : Shape}

namespace Builtin

/-- The argument that a leaf keeps, if it keeps one, is in `P`. -/
def StandsIn : {a s : Shape} → (P : Value K a → Prop) → Builtin K Γ a s → Prop
  | _, _, _, constant _ | _, _, _, var _ _ _ | _, _, _, trace _ => True
  | _, _, P, identity x => P x
  | _, _, P, elementary e => P e.argument
  | _, _, P, det _ l => P l.matrix
  | _, _, P, secondInvariant l => P l.matrix
  | _, _, P, strain l => P l.gradient
  | _, _, P, squaredNorm l => P l.matrix

/-- A leaf that stands in a set stands in every larger one. -/
theorem StandsIn.mono {P Q : Value K a → Prop} {l : Builtin K Γ a s} (h : l.StandsIn P)
    (hPQ : ∀ p, P p → Q p) : l.StandsIn Q := by
  cases l with
  | constant | var | trace => trivial
  | identity | elementary | det | secondInvariant | strain | squaredNorm => exact hPQ _ h

/-- A leaf that has moved stands where it was told to go. -/
theorem standsIn_of_update [Scalar K] {l l' : Builtin K Γ a s} {x : Value K a}
    (h : l.update x = .accepted l') : l'.StandsIn (· = x) := by
  rw [← Outcome.toExcept_eq_ok_iff] at h
  cases l with
  | constant | var =>
    cases h
    trivial
  | identity =>
    cases h
    exact rfl
  | elementary | trace | det | secondInvariant | strain | squaredNorm =>
    rw [update, Outcome.toExcept_map, Outcome.toExcept_ofExcept] at h
    obtain ⟨moved, hmoved, rfl⟩ := map_eq_ok h
    obtain ⟨_, -, hpoint⟩ := bind_eq_ok hmoved
    cases hpoint
    first | exact rfl | trivial

end Builtin

namespace Tree

/-- The leaves that take the argument of the tree stand at points of `P`. Those of the outer
function of a composition take the value of the inner one. -/
def StandsIn (P : Value K a → Prop) : {s : Shape} → Tree K (Builtin K Γ) a s → Prop
  | _, leaf l => l.StandsIn P
  | _, scale _ f _ => f.StandsIn P
  | _, squared _ f _ => f.StandsIn P
  | _, sum f g _ => f.StandsIn P ∧ g.StandsIn P
  | _, product _ f g _ => f.StandsIn P ∧ g.StandsIn P
  | _, extremum _ f g _ _ => f.StandsIn P ∧ g.StandsIn P
  | _, chain _ g => g.StandsIn P

theorem StandsIn.mono {P Q : Value K a → Prop} {f : Tree K (Builtin K Γ) a s} (h : f.StandsIn P)
    (hPQ : ∀ p, P p → Q p) : f.StandsIn Q := by
  induction f with
  | leaf l => exact Builtin.StandsIn.mono h hPQ
  | scale _ _ _ ih | squared _ _ _ ih => exact ih h hPQ
  | sum _ _ _ ihf ihg | product _ _ _ _ ihf ihg | extremum _ _ _ _ _ ihf ihg =>
    exact ⟨ihf h.1 hPQ, ihg h.2 hPQ⟩
  | chain _ _ _ ihg => exact ihg h hPQ

theorem standsIn_of_forall {P : Value K a → Prop} (hP : ∀ p, P p) (f : Tree K (Builtin K Γ) a s) :
    f.StandsIn P := by
  induction f with
  | leaf l => cases l <;> first | exact hP _ | trivial
  | scale _ _ _ ih | squared _ _ _ ih => exact ih hP
  | sum _ _ _ ihf ihg | product _ _ _ _ ihf ihg | extremum _ _ _ _ _ ihf ihg =>
    exact ⟨ihf hP, ihg hP⟩
  | chain _ _ _ ihg => exact ihg hP

/-- Every node holds what its operands give, and every outer function stands at the value of the
inner one. -/
def Settled [Scalar K] : {a s : Shape} → Tree K (Builtin K Γ) a s → Prop
  | _, _, leaf _ => True
  | _, _, scale c f v => f.Settled ∧ v = f.value.scale c
  | _, _, squared m f v => f.Settled ∧ v = m.apply f.value f.value
  | _, _, sum f g v => f.Settled ∧ g.Settled ∧ v = f.value.add g.value
  | _, _, product m f g v => f.Settled ∧ g.Settled ∧ v = m.apply f.value g.value
  | _, _, extremum e f g v firstActive =>
    f.Settled ∧ g.Settled ∧ firstActive = e.prefersFirst f.value g.value ∧
      v = if firstActive then f.value else g.value
  | _, _, chain f g => f.Settled ∧ g.Settled ∧ f.StandsIn (· = g.value)

variable [Scalar K]

/-- A tree that does not depend on its argument has no leaf that keeps it. -/
theorem standsIn_of_not_reacts {f : Tree K (Builtin K Γ) a s} (h : f.reacts = false)
    (P : Value K a → Prop) : f.StandsIn P := by
  induction f with
  | leaf l =>
    cases l with
    | constant | var | trace => trivial
    | identity | elementary | secondInvariant | strain | squaredNorm => cases h
    | det d => cases d <;> cases h
  | scale c f v ih => exact ih h P
  | squared m f v ih => exact ih h P
  | sum f g v ihf ihg | product m f g v ihf ihg | extremum e f g v b ihf ihg =>
    rw [reacts, Bool.or_eq_false_iff] at h
    exact ⟨ihf h.1 P, ihg h.2 P⟩
  | chain f g _ ihg => exact ihg h P

/-- An operand that does not depend on the argument is not visited and need not be. -/
private theorem settled_of_call? {f f' : Tree K (Builtin K Γ) a s} {x : Value K a}
    (settled : f.Settled) (hcall : (f.call? (.update x)).toExcept = .ok f')
    (ih : (f.call (.update x)).toExcept = .ok f' → f'.Settled ∧ f'.StandsIn (· = x)) :
    f'.Settled ∧ f'.StandsIn (· = x) := by
  cases hdep : f.dependsOn (Call.update x : Call K Γ a).slot with
  | true =>
    rw [call?_of_dependsOn hdep] at hcall
    exact ih hcall
  | false =>
    rw [call?_of_not_dependsOn hdep] at hcall
    cases hcall
    exact ⟨settled, standsIn_of_not_reacts hdep _⟩

/-- The operands of a node that calls both of them, the first one first. -/
private theorem settled_of_both {f : Tree K (Builtin K Γ) a s} {g : Tree K (Builtin K Γ) a t}
    {h' : Tree K (Builtin K Γ) a u} {x : Value K a}
    {put : Tree K (Builtin K Γ) a s → Tree K (Builtin K Γ) a t → Tree K (Builtin K Γ) a u}
    (hf : f.Settled) (hg : g.Settled)
    (ihf : ∀ {f'}, (f.call (.update x)).toExcept = .ok f' → f'.Settled ∧ f'.StandsIn (· = x))
    (ihg : ∀ {g'}, (g.call (.update x)).toExcept = .ok g' → g'.Settled ∧ g'.StandsIn (· = x))
    (hcall : (do return put (← (f.call? (.update x)).toExcept) (← (g.call? (.update x)).toExcept)) =
      .ok h') :
    ∃ f' g', put f' g' = h' ∧ (f'.Settled ∧ f'.StandsIn (· = x)) ∧
      g'.Settled ∧ g'.StandsIn (· = x) := by
  obtain ⟨f', hf', hcall⟩ := bind_eq_ok hcall
  obtain ⟨g', hg', hcall⟩ := bind_eq_ok hcall
  exact ⟨f', g', Except.ok.inj hcall, settled_of_call? hf hf' ihf, settled_of_call? hg hg' ihg⟩

/-- A settled tree that has moved is settled again, and stands where it was told to go. -/
theorem settled_of_update {f f' : Tree K (Builtin K Γ) a s} {x : Value K a} (settled : f.Settled)
    (hcall : (f.call (.update x)).toExcept = .ok f') : f'.Settled ∧ f'.StandsIn (· = x) := by
  induction f with
  | leaf l =>
    rw [toExcept_call_leaf] at hcall
    obtain ⟨l', hl, rfl⟩ := map_eq_ok hcall
    exact ⟨trivial, Builtin.standsIn_of_update (Outcome.toExcept_eq_ok_iff.1 hl)⟩
  | scale c f v ih =>
    rw [toExcept_call_scale rfl] at hcall
    obtain ⟨f₁, hf, rfl⟩ := map_eq_ok hcall
    obtain ⟨hsettled, hstands⟩ := settled_of_call? settled.1 hf (ih settled.1)
    exact ⟨⟨hsettled, rfl⟩, hstands⟩
  | squared m f v ih =>
    rw [toExcept_call_squared rfl] at hcall
    obtain ⟨f₁, hf, rfl⟩ := map_eq_ok hcall
    obtain ⟨hsettled, hstands⟩ := settled_of_call? settled.1 hf (ih settled.1)
    exact ⟨⟨hsettled, rfl⟩, hstands⟩
  | sum f g v ihf ihg =>
    rw [toExcept_call_sum rfl] at hcall
    obtain ⟨f₁, g₁, rfl, ⟨hf, hfstands⟩, hg, hgstands⟩ :=
      settled_of_both settled.1 settled.2.1 (ihf settled.1) (ihg settled.2.1) hcall
    exact ⟨⟨hf, hg, rfl⟩, hfstands, hgstands⟩
  | product m f g v ihf ihg =>
    rw [toExcept_call_product rfl] at hcall
    obtain ⟨f₁, g₁, rfl, ⟨hf, hfstands⟩, hg, hgstands⟩ :=
      settled_of_both settled.1 settled.2.1 (ihf settled.1) (ihg settled.2.1) hcall
    exact ⟨⟨hf, hg, rfl⟩, hfstands, hgstands⟩
  | extremum e f g v firstActive ihf ihg =>
    rw [toExcept_call_extremum rfl] at hcall
    obtain ⟨f₁, g₁, rfl, ⟨hf, hfstands⟩, hg, hgstands⟩ :=
      settled_of_both settled.1 settled.2.1 (ihf settled.1) (ihg settled.2.1) hcall
    exact ⟨⟨hf, hg, rfl, rfl⟩, hfstands, hgstands⟩
  | chain f g ihf ihg =>
    rw [toExcept_call_chain] at hcall
    split at hcall
    case isTrue =>
      obtain ⟨g₁, hg, hcall⟩ := bind_eq_ok hcall
      obtain ⟨f₁, hf, hcall⟩ := bind_eq_ok hcall
      cases hcall
      obtain ⟨hgsettled, hgstands⟩ := ihg settled.2.1 hg
      obtain ⟨hfsettled, hfstands⟩ := ihf settled.1 hf
      exact ⟨⟨hfsettled, hgsettled, hfstands⟩, hgstands⟩
    case isFalse hdep =>
      cases hcall
      -- A composition whose inner function is constant is not called, and nothing in it stands at
      -- the argument.
      exact ⟨settled, standsIn_of_not_reacts (Bool.eq_false_of_not_eq_true hdep) _⟩

end Tree

namespace Formula

variable [Scalar K]

/-- A tree that has just been built is settled. -/
theorem settled_of_tree? {f : Formula K (Seed K Γ) a s} {t : Tree K (Builtin K Γ) a s}
    (h : f.tree? = .ok t) : t.Settled := by
  induction f with
  | leaf l =>
    obtain ⟨b, -, hb⟩ := bind_eq_ok h
    cases hb
    trivial
  | scale c f ih | squared m f ih =>
    obtain ⟨f', hf, ht⟩ := bind_eq_ok h
    cases ht
    exact ⟨ih hf, rfl⟩
  | sum f g ihf ihg | product m f g ihf ihg =>
    obtain ⟨f', hf, ht⟩ := bind_eq_ok h
    obtain ⟨g', hg, ht⟩ := bind_eq_ok ht
    cases ht
    exact ⟨ihf hf, ihg hg, rfl⟩
  | extremum e f g ihf ihg =>
    obtain ⟨f', hf, ht⟩ := bind_eq_ok h
    obtain ⟨g', hg, ht⟩ := bind_eq_ok ht
    cases ht
    exact ⟨ihf hf, ihg hg, rfl, rfl⟩
  | chain f g ihf ihg =>
    rw [tree?_chain] at h
    obtain ⟨f₀, hf, ht⟩ := bind_eq_ok h
    obtain ⟨g₀, hg, ht⟩ := bind_eq_ok ht
    rw [mkChain_eq_bind] at ht
    obtain ⟨f₁, hf₁, ht⟩ := bind_eq_ok ht
    cases ht
    obtain ⟨hsettled, hstands⟩ := Tree.settled_of_update (ihf hf) hf₁
    exact ⟨hsettled, ihg hg, hstands⟩

/-- A tree that has accepted a sequence of calls since it was built is settled. -/
theorem settled_of_run {f : Formula K (Seed K Γ) a s} {t₀ t : Tree K (Builtin K Γ) a s}
    {calls : List (Call K Γ a)} (built : f.tree? = .ok t₀) (accepted : t₀.run calls = .ok t) :
    t.Settled :=
  settled_of_tree? (tree?_moved_of_run built accepted)

end Formula

end Directional
