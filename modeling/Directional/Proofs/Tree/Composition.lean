import Directional.Proofs.Formula.Rebuild
import Directional.Proofs.Tree.Consistency
import Directional.Proofs.Tree.Regrouping

namespace Directional

namespace Composition

variable {K : Type} [Scalar K] {s t : Shape}

/-- After the identity the derivatives of the inner function are left. -/
theorem second_identity (dg : Mixed₂ (Term K s)) :
    second some (fun _ _ => none) dg = dg.xy := by
  simp [second, along]

theorem third_identity (dg : Mixed₃ (Term K s)) :
    third some (fun _ _ => none) (fun _ _ _ => none) dg = dg.xyz := by
  cases h : dg.xyz <;> simp [third, along, Term.sumAll, h]

variable (f₁ : Value K t → Term K s) (f₂ : Value K t → Value K t → Term K s)
  (f₃ : Value K t → Value K t → Value K t → Term K s) (x y z : Value K t)

/-- The identity has the directions themselves as its derivatives, and none of higher order. -/
theorem second_of_identity : second f₁ f₂ ⟨some x, some y, none⟩ = f₂ x y := by
  simp [second, along]

theorem third_of_identity :
    third f₁ f₂ f₃ ⟨some x, some y, some z, none, none, none, none⟩ = f₃ x y z := by
  cases h : f₃ x y z <;> simp [third, along, Term.sumAll, h]

theorem hasSecond_of_identity (p₁ p₂ : Bool) : hasSecond p₁ p₂ ⟨true, true, false⟩ = p₂ := by
  simp [hasSecond]

theorem hasThird_of_identity (p₁ p₂ p₃ : Bool) :
    hasThird p₁ p₂ p₃ ⟨true, true, true, false, false, false, false⟩ = p₃ := by
  simp [hasThird]

end Composition

namespace Tree

variable {K : Type} [Scalar K] {Γ : Nat → Shape} {a s : Shape}

/-- A tree is derivable only in what it depends on. -/
theorem dependsOn_of_has₁ {f : Tree K (Builtin K Γ) a s} {X : Slot} (h : f.has₁ X = true) :
    f.dependsOn X = true := by
  induction f with
  | leaf l => cases X <;> exact h
  | scale c f v ih | squared m f v ih => cases X <;> exact ih h
  | sum f g v ihf ihg | product m f g v ihf ihg | extremum e f g v b ihf ihg =>
    have hor := (Bool.or_eq_true _ _).mp h
    cases X <;> exact (Bool.or_eq_true _ _).mpr (hor.imp ihf ihg)
  | chain f g _ ihg =>
    rw [dependsOn_chain]
    exact ihg (Bool.and_eq_true_iff.1 h).2

namespace VariableFree

variable {f f' : Tree K (Builtin K Γ) a s} {X Y Z : Slot}

/-- A function of no variables is derivable in its argument only. -/
theorem eq_argument (free : f.VariableFree) (h : f.has₁ X = true) : X = .argument := by
  cases X with
  | argument => rfl
  | var i => nomatch (free i).symm.trans (dependsOn_of_has₁ h)

/-- It has no derivative in any other slot. -/
theorem has₁_eq_false (free : f.VariableFree) (hX : X ≠ .argument) : f.has₁ X = false :=
  Bool.eq_false_iff.2 fun h => hX (free.eq_argument h)

theorem has₂_eq_false (free : f.VariableFree) (h : ¬(X = .argument ∧ Y = .argument)) :
    f.has₂ X Y = false := by
  apply Bool.eq_false_iff.2
  intro hsecond
  obtain ⟨hX, hY⟩ := f.consistent.second hsecond
  exact h ⟨free.eq_argument hX, free.eq_argument hY⟩

theorem has₃_eq_false (free : f.VariableFree)
    (h : ¬(X = .argument ∧ Y = .argument ∧ Z = .argument)) : f.has₃ X Y Z = false := by
  apply Bool.eq_false_iff.2
  intro hthird
  obtain ⟨hXY, -, hYZ⟩ := f.consistent.has₂_of_has₃ f.symmetric hthird
  obtain ⟨hX, hY⟩ := f.consistent.second hXY
  obtain ⟨-, hZ⟩ := f.consistent.second hYZ
  exact h ⟨free.eq_argument hX, free.eq_argument hY, free.eq_argument hZ⟩

/-- Functions of no variables are compared in their argument. -/
theorem sameMembers (free : f.VariableFree) (free' : f'.VariableFree) (value : f'.value = f.value)
    (reacts : f'.reacts = f.reacts) (first : f'.has₁ .argument = f.has₁ .argument)
    (second : f'.has₂ .argument .argument = f.has₂ .argument .argument)
    (third : f'.has₃ .argument .argument .argument = f.has₃ .argument .argument .argument) :
    SameMembers f f' := by
  constructor
  · exact value
  · exact reacts
  · intro i
    rw [free i, free' i]
  · intro X
    by_cases h : X = .argument
    · rw [h, first]
    · rw [free.has₁_eq_false h, free'.has₁_eq_false h]
  · intro X Y
    by_cases h : X = .argument ∧ Y = .argument
    · rw [h.1, h.2, second]
    · rw [free.has₂_eq_false h, free'.has₂_eq_false h]
  · intro X Y Z
    by_cases h : X = .argument ∧ Y = .argument ∧ Z = .argument
    · rw [h.1, h.2.1, h.2.2, third]
    · rw [free.has₃_eq_false h, free'.has₃_eq_false h]

/-- They answer the same if they do in their argument. -/
theorem sameAnswers (free : f.VariableFree) (free' : f'.VariableFree)
    (first : ∀ dx, f'.d₁? .argument dx = f.d₁? .argument dx)
    (second : ∀ dx dy, f'.d₂? .argument .argument dx dy = f.d₂? .argument .argument dx dy)
    (third : ∀ dx dy dz, f'.d₃? .argument .argument .argument dx dy dz =
      f.d₃? .argument .argument .argument dx dy dz) :
    SameAnswers f f' := by
  apply SameAnswers.of_declared
  · intro X dx
    by_cases h : X = .argument
    · subst h
      exact first dx
    · simp only [d₁?, free.has₁_eq_false h, free'.has₁_eq_false h, Term.gate_false]
  · intro X Y dx dy
    by_cases h : X = .argument ∧ Y = .argument
    · obtain ⟨rfl, rfl⟩ := h
      exact second dx dy
    · simp only [d₂?, free.has₂_eq_false h, free'.has₂_eq_false h, Term.gate_false]
  · intro X Y Z dx dy dz
    by_cases h : X = .argument ∧ Y = .argument ∧ Z = .argument
    · obtain ⟨rfl, rfl, rfl⟩ := h
      exact third dx dy dz
    · simp only [d₃?, free.has₃_eq_false h, free'.has₃_eq_false h, Term.gate_false]

end VariableFree

/-- What a sequence of calls to each of two trees comes to: both are rejected with the same error,
or both are accepted and leave trees with the same members and the same derivatives behind. -/
inductive SameRun :
    Except (DomainError K) (Tree K (Builtin K Γ) a s) →
      Except (DomainError K) (Tree K (Builtin K Γ) a s) → Prop where
  | rejected (e : DomainError K) : SameRun (.error e) (.error e)
  | accepted {f f' : Tree K (Builtin K Γ) a s} (members : SameMembers f f')
      (answers : SameAnswers f f') : SameRun (.ok f) (.ok f')

/-- The identity after `f`. -/
def identityAfter (f : Tree K (Builtin K Γ) a s) : Tree K (Builtin K Γ) a s :=
  chain (leaf (.identity f.value)) f

section After

variable (f : Tree K (Builtin K Γ) a s)

/-- The identity accepts whatever value the function has. -/
theorem mkChain_identity (p : Value K s) :
    mkChain (leaf (.identity p)) f = .ok f.identityAfter :=
  rfl

/-- The identity adds no member and takes none away. -/
theorem sameMembers_identityAfter : SameMembers f f.identityAfter := by
  constructor
  · rfl
  · rfl
  · exact fun _ => rfl
  · exact fun _ => rfl
  · exact fun _ _ => rfl
  · exact fun _ _ _ => rfl

/-- It adds nothing to the derivatives. -/
theorem sameAnswers_identityAfter : SameAnswers f f.identityAfter := by
  apply SameAnswers.of_declared
  · intro X dx
    exact (d₁?_chain dx _ f).trans (Option.bind_fun_some _)
  · intro X Y dx dy
    exact (d₂?_chain dx dy _ f).trans (Composition.second_identity _)
  · intro X Y Z dx dy dz
    exact (d₃?_chain dx dy dz _ f).trans (Composition.third_identity _)

end After

/-- The identity is moved to the value of a tree that has accepted a call. It is not told of a call
to a slot that the tree does not depend on, and need not be. -/
theorem toExcept_call_identityAfter {f : Tree K (Builtin K Γ) a s} (fresh : f.refreshed = f)
    (c : Call K Γ a) :
    (f.identityAfter.call c).toExcept = identityAfter <$> (f.call c).toExcept := by
  cases hdep : f.dependsOn c.slot with
  | true =>
    rw [identityAfter, toExcept_call_chain, if_pos hdep]
    cases f.call c <;> rfl
  | false =>
    rw [call_of_not_dependsOn hdep fresh, identityAfter, call_chain_of_not_dependsOn hdep]
    rfl

/-- So the identity after a function makes no difference to any sequence of calls. -/
theorem sameRun_identityAfter {f : Tree K (Builtin K Γ) a s} (fresh : f.refreshed = f)
    (calls : List (Call K Γ a)) : SameRun (f.run calls) (f.identityAfter.run calls) := by
  induction calls generalizing f with
  | nil => exact .accepted f.sameMembers_identityAfter f.sameAnswers_identityAfter
  | cons c calls ih =>
    rw [run, run, List.foldlM_cons, List.foldlM_cons, toExcept_call_identityAfter fresh]
    cases h : f.call c with
    | rejected e f' => exact .rejected e
    | accepted f' => exact ih (refreshed_of_accepted fresh h)

/-- The tree stands at the argument `p`: it is where a move to `p` would bring it. -/
def StandsAt (f : Tree K (Builtin K Γ) a s) (p : Value K a) : Prop :=
  f.call (.update p) = .accepted f

/-- The function `f` after the identity at `p`. -/
def afterIdentity (f : Tree K (Builtin K Γ) a s) (p : Value K a) : Tree K (Builtin K Γ) a s :=
  chain f (leaf (.identity p))

section Before

variable {f : Tree K (Builtin K Γ) a s} (p : Value K a)

/-- A tree that has been built stands where its formula starts. -/
theorem standsAt_of_tree? {p : Value K a} {F : Formula K (Seed K Γ) a s} (built : F.tree? = .ok f)
    (start : F.moved (Readings.unwritten.note (.update p)) = F) : f.StandsAt p := by
  have hbuilt : (F.moved .unwritten).tree? = .ok f := by rw [F.moved_unwritten, built]
  have hcall := F.toExcept_call_of_tree? hbuilt (.update p)
  rw [start, built] at hcall
  exact Outcome.toExcept_eq_ok_iff.1 hcall

/-- A function that stands where the identity does can be composed with it. -/
theorem mkChain_of_standsAt {p : Value K a} (h : f.StandsAt p) :
    mkChain f (leaf (.identity p)) = .ok (f.afterIdentity p) :=
  mkChain_eq_ok_iff.2 ⟨f, h, rfl⟩

theorem variableFree_afterIdentity : (f.afterIdentity p).VariableFree :=
  fun _ => rfl

/-- A function that depends on its argument still does so by way of the identity. -/
theorem sameMembers_afterIdentity (free : f.VariableFree) (reacts : f.reacts = true) :
    SameMembers f (f.afterIdentity p) := by
  apply free.sameMembers (variableFree_afterIdentity p)
  · rfl
  · exact reacts.symm
  · exact Bool.and_true _
  · exact Composition.hasSecond_of_identity _ _
  · exact Composition.hasThird_of_identity _ _ _

/-- The directions come through the identity as they are. -/
theorem sameAnswers_afterIdentity (free : f.VariableFree) : SameAnswers f (f.afterIdentity p) := by
  apply free.sameAnswers (variableFree_afterIdentity p)
  · intro dx
    exact d₁?_chain dx f _
  · intro dx dy
    exact (d₂?_chain dx dy f _).trans (Composition.second_of_identity _ _ dx dy)
  · intro dx dy dz
    exact (d₃?_chain dx dy dz f _).trans (Composition.third_of_identity _ _ _ dx dy dz)

/-- The identity accepts every argument, and passes it on. -/
theorem call_afterIdentity (free : f.VariableFree) (c : Call K Γ a) :
    ∃ q, (f.afterIdentity p).call c = (f.call c).map (afterIdentity · q) := by
  cases c with
  | update x => exact ⟨x, rfl⟩
  | write i x =>
    have hskip : f.skips (Call.write i x : Call K Γ a).slot = true := congrArg (!·) (free i)
    exact ⟨p, by rw [call_of_skips hskip]; rfl⟩

/-- So the identity before a function makes no difference to any sequence of calls. -/
theorem sameRun_afterIdentity (free : f.VariableFree) (reacts : f.reacts = true)
    (calls : List (Call K Γ a)) : SameRun (f.run calls) ((f.afterIdentity p).run calls) := by
  induction calls generalizing f p with
  | nil =>
    exact .accepted (sameMembers_afterIdentity p free reacts) (sameAnswers_afterIdentity p free)
  | cons c calls ih =>
    obtain ⟨q, hcall⟩ := call_afterIdentity p free c
    rw [run, run, List.foldlM_cons, List.foldlM_cons, hcall]
    have hfree := free.call c
    have hreacts := (alike_call f c).reacts_eq.trans reacts
    cases h : f.call c with
    | rejected e f' => exact .rejected e
    | accepted f' =>
      rw [h, Outcome.state_accepted] at hfree hreacts
      exact ih q hfree hreacts

end Before

/-- Composition is associative. If both groupings of `f` after `g` after `h` can be built, they hold
the same functions in the same states, return the same from every sequence of calls, accepted or
rejected, and still hold the same functions in the same states after it. Two such groupings have
the same value and the same members, and over exact arithmetic the same derivatives in all slots
and directions.

The identity is a unit. After a function `f` that has been built and has accepted any calls since
then, and before a function `f` of no variables that stands where the identity does, it changes
nothing: the composition can be built, it rejects the sequences of calls that `f` rejects, with the
same errors, and after the others it has the value, the members and the derivatives of `f`. -/
theorem composition_associative_with_unit {Γ : Nat → Shape} :
    (∀ {K : Type} [Scalar K] {L : Shape → Shape → Type} [Leaf K Γ L] [LawfulLeaf L]
      {a b c s : Shape} {f : Tree K L c s} {g : Tree K L b c} {h : Tree K L a b}
      {fg : Tree K L b s} {gh : Tree K L a c} {left right : Tree K L a s},
      g.VariableFree → g.Reachable →
      mkChain f g = .ok fg → mkChain fg h = .ok left →
      mkChain g h = .ok gh → mkChain f gh = .ok right →
      ∀ calls, left.results calls = right.results calls ∧
        Regrouped (left.after calls) (right.after calls) ∧
        SameMembers (left.after calls) (right.after calls)) ∧
    (∀ {K : Type} [Field K] [Primitives K] {a s : Shape} {left right : Tree K (Builtin K Γ) a s},
      Regrouped left right → SameAnswers left right) ∧
    (∀ {K : Type} [Scalar K] {a s : Shape} {F : Formula K (Seed K Γ) a s}
      {f₀ f : Tree K (Builtin K Γ) a s} {before : List (Call K Γ a)},
      F.tree? = .ok f₀ → f₀.run before = .ok f → ∀ p, ∃ left,
        mkChain (leaf (.identity p)) f = .ok left ∧
          ∀ calls, SameRun (f.run calls) (left.run calls)) ∧
    ∀ {K : Type} [Scalar K] {a s : Shape} {f : Tree K (Builtin K Γ) a s},
      f.VariableFree → f.reacts = true → ∀ p, f.StandsAt p → ∃ right,
        mkChain f (leaf (.identity p)) = .ok right ∧
          ∀ calls, SameRun (f.run calls) (right.run calls) := by
  refine ⟨?_, Regrouped.sameAnswers, ?_, ?_⟩
  · intro K _ L _ _ a b c s f g h fg gh left right free reachable hfg hleft hgh hright calls
    obtain ⟨f', g', rest, rfl, rfl⟩ :=
      regrouped_of_mkChain (reachable.refreshed_eq free) hfg hleft hgh hright
    obtain ⟨hresults, hafter⟩ := regrouped_after rest h calls
    exact ⟨hresults, hafter, hafter.sameMembers⟩
  · intro K _ a s F f₀ f before built accepted p
    have fresh : f.refreshed = f :=
      Formula.refreshed_of_tree? (Formula.tree?_moved_of_run built accepted)
    exact ⟨f.identityAfter, f.mkChain_identity p, sameRun_identityAfter fresh⟩
  · intro K _ a s f free reacts p stands
    exact ⟨f.afterIdentity p, mkChain_of_standsAt stands, sameRun_afterIdentity p free reacts⟩

/-- The square of the logarithm of a variable, which cannot be written `-1`. The identity after the
minimum of twice a variable and its logarithm, which rejects the second write, and before a square
that starts where it does. -/
theorem composition_associative_with_unit_square_of_logarithm :
    let f : Tree ℚ (Builtin ℚ fun _ => .scalar) .scalar .scalar :=
      mkSquared .scalars (leaf (.identity (1 : ℚ)))
    let g : Tree ℚ (Builtin ℚ fun _ => .scalar) .scalar .scalar :=
      leaf (.elementary ⟨.ln, 1, ElementaryFunction.ln.jet 1⟩)
    let h : Tree ℚ (Builtin ℚ fun _ => .scalar) .scalar .scalar := leaf (.var 0 rfl (2 : ℚ))
    let writes : List (Call ℚ (fun _ => .scalar) .scalar) := [.write 0 3, .write 0 (-1)]
    let F : Formula ℚ (Seed ℚ fun _ => .scalar) .scalar .scalar :=
      .extremum .min (.scale 2 (.leaf (.var 0 rfl 1)))
        (.chain (.leaf (.elementary .ln 1)) (.leaf (.var 0 rfl 1)))
    (g.VariableFree ∧ g.Reachable ∧ ∃ fg gh left right,
      mkChain f g = .ok fg ∧ mkChain fg h = .ok left ∧ mkChain g h = .ok gh ∧
      mkChain f gh = .ok right ∧
      left.results writes = [.ok (), .error (.outOfDomain "ln" "(0, inf)" (-1))] ∧
      right.results writes = left.results writes ∧
      Regrouped (left.after writes) (right.after writes) ∧
      SameAnswers (left.after writes) (right.after writes)) ∧
    (∃ m₀ m left, F.tree? = .ok m₀ ∧ m₀.run [.write 0 3] = .ok m ∧
      mkChain (leaf (.identity (7 : ℚ))) m = .ok left ∧
      SameRun (m.run [.update 5, .write 0 2]) (left.run [.update 5, .write 0 2]) ∧
      SameRun (m.run [.write 0 (-1)]) (left.run [.write 0 (-1)])) ∧
    (f.VariableFree ∧ f.reacts = true ∧ f.StandsAt (1 : ℚ) ∧ ∃ right,
      mkChain f (leaf (.identity (1 : ℚ))) = .ok right ∧
      SameRun (f.run [.update (5 : ℚ)]) (right.run [.update (5 : ℚ)])) := by
  intro f g h writes F
  have hfree : g.VariableFree := fun _ => rfl
  have hreachable : g.Reachable := .leaf _
  obtain ⟨hassociative, hanswers, hafter, hbefore⟩ :=
    composition_associative_with_unit (Γ := fun _ => .scalar)
  refine ⟨?_, ?_, ?_⟩
  · obtain ⟨hresults, hregrouped, -⟩ := hassociative hfree hreachable (f := f) (h := h) rfl rfl rfl
      rfl writes
    exact ⟨hfree, hreachable, _, _, _, _, rfl, rfl, rfl, rfl, by decide +kernel, hresults.symm,
      hregrouped, hanswers hregrouped⟩
  · obtain ⟨m₀, hbuilt⟩ : ∃ m₀, F.tree? = .ok m₀ := ⟨_, rfl⟩
    obtain ⟨m, haccepted⟩ : ∃ m, m₀.run [.write 0 3] = .ok m := by
      cases hbuilt
      exact ⟨_, rfl⟩
    obtain ⟨left, hleft, hrun⟩ := hafter hbuilt haccepted (7 : ℚ)
    exact ⟨m₀, m, left, hbuilt, haccepted, hleft, hrun _, hrun _⟩
  · have hvariables : f.VariableFree := fun _ => rfl
    have hstands : f.StandsAt (1 : ℚ) :=
      standsAt_of_tree? (F := .squared .scalars (.leaf (.identity 1))) rfl rfl
    obtain ⟨right, hright, hrun⟩ := hbefore hvariables rfl (1 : ℚ) hstands
    exact ⟨hvariables, rfl, hstands, right, hright, hrun _⟩

end Tree

end Directional
