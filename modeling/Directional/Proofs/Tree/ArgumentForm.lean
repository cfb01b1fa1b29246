import Directional.Proofs.Tree.Consistency
import Directional.Proofs.Tree.Run

namespace Directional

variable {K : Type} {Γ : Nat → Shape} {a b s t u : Shape}

namespace Outcome

variable {ε σ τ ρ σ' τ' ρ' : Type}

/-- Parts that correspond are completed to wholes that correspond. -/
theorem complete_map {φ : σ → σ'} {ψ : τ → τ'} {accept reject : σ → τ} {accept' reject' : σ' → τ'}
    (haccept : ∀ x, accept' (φ x) = ψ (accept x)) (hreject : ∀ x, reject' (φ x) = ψ (reject x))
    (o : Outcome ε σ) :
    (o.map φ).complete accept' reject' = (o.complete accept reject).map ψ := by
  cases o with
  | accepted x => exact congrArg accepted (haccept x)
  | rejected e x => exact congrArg (rejected e) (hreject x)

theorem both_map {φ : σ → σ'} {χ : τ → τ'} {ψ : ρ → ρ'} {accept reject : σ → τ → ρ}
    {accept' reject' : σ' → τ' → ρ'} (haccept : ∀ x y, accept' (φ x) (χ y) = ψ (accept x y))
    (hreject : ∀ x y, reject' (φ x) (χ y) = ψ (reject x y)) (first : Outcome ε σ) (y : τ)
    (second : Outcome ε τ) :
    both accept' reject' (first.map φ) (χ y) (second.map χ) =
      (both accept reject first y second).map ψ := by
  cases first with
  | accepted x => exact complete_map (haccept x) (hreject x) second
  | rejected e x => exact congrArg (rejected e) (hreject x y)

end Outcome

namespace Builtin

/-- The argument itself, as a leaf for values of an equal shape. -/
def identityOf : {a s : Shape} → a = s → Value K s → Builtin K Γ a s
  | _, _, rfl, v => identity v

/-- A leaf as a function of the variable with number `i`: the variable is the argument, and every
other leaf is the constant of its value. -/
def asFunctionOf (i : Nat) : Builtin K Γ a s → Builtin K Γ (Γ i) s
  | var j h v => if e : i = j then identityOf (e ▸ h) v else constant v
  | l => constant l.value

@[simp] theorem value_identityOf (h : a = s) (v : Value K s) :
    (identityOf h v : Builtin K Γ a s).value = v := by
  subst h
  rfl

@[simp] theorem order_identityOf (h : a = s) (v : Value K s) :
    (identityOf h v : Builtin K Γ a s).order = 1 := by
  subst h
  rfl

variable (i : Nat) (l : Builtin K Γ a s)

/-- A leaf becomes another one with the same value. -/
@[simp] theorem value_asFunctionOf : (l.asFunctionOf i).value = l.value := by
  cases l with
  | var j h v =>
    rw [asFunctionOf]
    split
    · exact value_identityOf _ v
    · rfl
  | _ => rfl

/-- The variable has become an argument, and what is not the variable has none. -/
theorem order_asFunctionOf : (l.asFunctionOf i).order = if l.reactsTo i then 1 else 0 := by
  cases l with
  | var j h v =>
    by_cases e : i = j
    · simp [asFunctionOf, reactsTo, e]
    · simp [asFunctionOf, reactsTo, e, order]
  | _ => rfl

/-- It moves with its argument if it was the variable. -/
theorem reacts_asFunctionOf : (l.asFunctionOf i).reacts = l.reactsTo i := by
  rw [reacts, order_asFunctionOf]
  cases l.reactsTo i <;> rfl

/-- It has those derivatives in its argument that it had in the variable. -/
theorem has₁_asFunctionOf : (l.asFunctionOf i).has₁ .argument = l.has₁ (.var i) :=
  l.reacts_asFunctionOf i

theorem has₂_asFunctionOf :
    (l.asFunctionOf i).has₂ .argument .argument = l.has₂ (.var i) (.var i) := by
  simp only [has₂, order_asFunctionOf]
  cases l.reactsTo i <;> simp

theorem has₃_asFunctionOf :
    (l.asFunctionOf i).has₃ .argument .argument .argument = l.has₃ (.var i) (.var i) (.var i) := by
  simp only [has₃, order_asFunctionOf]
  cases l.reactsTo i <;> simp

variable [Scalar K]

/-- It answers in its argument as it did in the variable. -/
theorem answer₁_asFunctionOf (dx : Value K (Γ i)) :
    (l.asFunctionOf i).answer₁ .argument dx = l.answer₁ (.var i) dx := by
  cases l with
  | var j h v =>
    by_cases e : i = j
    · subst e
      subst h
      simp [asFunctionOf, identityOf, answer₁]
    · simp [asFunctionOf, answer₁, e]
  | _ => rfl

/-- Moving its argument is writing the variable. -/
theorem update_asFunctionOf (x : Value K (Γ i)) :
    (l.asFunctionOf i).update x = (l.write i x).map (asFunctionOf i) := by
  cases l with
  | var j h v =>
    by_cases e : i = j
    · subst e
      subst h
      simp [asFunctionOf, identityOf, update, write, Outcome.map]
    · simp [asFunctionOf, update, write, Outcome.map, e]
  | _ => rfl

end Builtin

namespace Tree

/-- A tree as a function of the variable with number `i`. The outer function of a composition is a
function of an argument already, and has no variables. -/
def asFunctionOf (i : Nat) :
    {a s : Shape} → Tree K (Builtin K Γ) a s → Tree K (Builtin K Γ) (Γ i) s
  | _, _, leaf l => leaf (l.asFunctionOf i)
  | _, _, scale c f v => scale c (f.asFunctionOf i) v
  | _, _, squared m f v => squared m (f.asFunctionOf i) v
  | _, _, sum f g v => sum (f.asFunctionOf i) (g.asFunctionOf i) v
  | _, _, product m f g v => product m (f.asFunctionOf i) (g.asFunctionOf i) v
  | _, _, extremum e f g v firstActive =>
    extremum e (f.asFunctionOf i) (g.asFunctionOf i) v firstActive
  | _, _, chain f g => chain f (g.asFunctionOf i)

section Nodes

variable {i : Nat} {f f' : Tree K (Builtin K Γ) a s} {g : Tree K (Builtin K Γ) a t} {v : Value K s}

/-- The nodes of a tree stay, each over its operands as functions of the variable. -/
theorem asFunctionOf_leaf (l : Builtin K Γ a s) :
    (leaf l : Tree K (Builtin K Γ) a s).asFunctionOf i = leaf (l.asFunctionOf i) := rfl

theorem asFunctionOf_scale (c : K) :
    (scale c f v).asFunctionOf i = scale c (f.asFunctionOf i) v := rfl

theorem asFunctionOf_squared (m : Pairing s s s) :
    (squared m f v).asFunctionOf i = squared m (f.asFunctionOf i) v := rfl

/-- Both operands become functions of the variable. -/
theorem asFunctionOf_sum :
    (sum f f' v).asFunctionOf i = sum (f.asFunctionOf i) (f'.asFunctionOf i) v := rfl

theorem asFunctionOf_product (m : Pairing s t u) (w : Value K u) :
    (product m f g w).asFunctionOf i = product m (f.asFunctionOf i) (g.asFunctionOf i) w := rfl

theorem asFunctionOf_extremum (e : Extremum) (firstActive : Bool) :
    (extremum e f f' v firstActive).asFunctionOf i =
      extremum e (f.asFunctionOf i) (f'.asFunctionOf i) v firstActive := rfl

/-- The outer function of a composition stays as it is. -/
theorem asFunctionOf_chain (h : Tree K (Builtin K Γ) s u) :
    (chain h f).asFunctionOf i = chain h (f.asFunctionOf i) := rfl

end Nodes

variable [Scalar K] (i : Nat) (f : Tree K (Builtin K Γ) a s)

/-- The nodes of a tree keep what they hold. -/
@[simp] theorem value_asFunctionOf : (f.asFunctionOf i).value = f.value := by
  cases f with
  | leaf l => exact l.value_asFunctionOf i
  | _ => rfl

/-- It depends on its argument if it did on the variable. -/
theorem reacts_asFunctionOf : (f.asFunctionOf i).reacts = f.reactsTo i := by
  induction f with
  | leaf l => exact l.reacts_asFunctionOf i
  | scale _ _ _ ih | squared _ _ _ ih | chain _ _ _ ih => exact ih
  | sum _ _ _ ihf ihg | product _ _ _ _ ihf ihg | extremum _ _ _ _ _ ihf ihg =>
    exact congrArg₂ or ihf ihg

/-- It declares in its argument what it did in the variable. -/
theorem has₁_asFunctionOf : (f.asFunctionOf i).has₁ .argument = f.has₁ (.var i) := by
  induction f with
  | leaf l => exact l.has₁_asFunctionOf i
  | scale _ _ _ ih | squared _ _ _ ih => exact ih
  | sum _ _ _ ihf ihg | product _ _ _ _ ihf ihg | extremum _ _ _ _ _ ihf ihg =>
    exact congrArg₂ or ihf ihg
  | chain f _ _ ihg => exact congrArg (f.has₁ .argument && ·) ihg

theorem has₂_asFunctionOf :
    (f.asFunctionOf i).has₂ .argument .argument = f.has₂ (.var i) (.var i) := by
  induction f with
  | leaf l => exact l.has₂_asFunctionOf i
  | scale c f v ih => exact ih
  | squared m f v ih =>
    rw [asFunctionOf_squared, has₂_squared, has₂_squared]
    simp only [declared₂, has₁_asFunctionOf, ih]
  | sum f g v ihf ihg | extremum e f g v b ihf ihg => exact congrArg₂ or ihf ihg
  | product m f g v ihf ihg =>
    rw [asFunctionOf_product, has₂_product, has₂_product]
    simp only [declared₂, has₁_asFunctionOf, ihf, ihg]
  | chain f g _ ihg =>
    rw [asFunctionOf_chain, has₂_chain, has₂_chain]
    simp only [declared₂, has₁_asFunctionOf, ihg]

theorem has₃_asFunctionOf :
    (f.asFunctionOf i).has₃ .argument .argument .argument =
      f.has₃ (.var i) (.var i) (.var i) := by
  induction f with
  | leaf l => exact l.has₃_asFunctionOf i
  | scale c f v ih => exact ih
  | squared m f v ih =>
    rw [asFunctionOf_squared, has₃_squared, has₃_squared]
    simp only [declared₃, has₁_asFunctionOf, has₂_asFunctionOf, ih]
  | sum f g v ihf ihg | extremum e f g v b ihf ihg => exact congrArg₂ or ihf ihg
  | product m f g v ihf ihg =>
    rw [asFunctionOf_product, has₃_product, has₃_product]
    simp only [declared₃, has₁_asFunctionOf, has₂_asFunctionOf, ihf, ihg]
  | chain f g _ ihg =>
    rw [asFunctionOf_chain, has₃_chain, has₃_chain]
    simp only [declared₃, has₁_asFunctionOf, has₂_asFunctionOf, ihg]

/-- Derivatives in the variable become derivatives in the argument, operation by operation. -/
theorem d₁?_asFunctionOf (dx : Value K (Γ i)) :
    (f.asFunctionOf i).d₁? .argument dx = f.d₁? (.var i) dx := by
  induction f with
  | leaf l => exact congrArg₂ Term.gate (l.has₁_asFunctionOf i) (l.answer₁_asFunctionOf i dx)
  | scale c f v ih => rw [asFunctionOf_scale, d₁?_scale, ih, d₁?_scale]
  | squared m f v ih => rw [asFunctionOf_squared, d₁?_squared, ih, value_asFunctionOf, d₁?_squared]
  | sum f g v ihf ihg => rw [asFunctionOf_sum, d₁?_sum, ihf, ihg, d₁?_sum]
  | product m f g v ihf ihg =>
    rw [asFunctionOf_product, d₁?_product, ihf, ihg, value_asFunctionOf, value_asFunctionOf,
      d₁?_product]
  | extremum e f g v firstActive ihf ihg =>
    rw [asFunctionOf_extremum, d₁?_extremum, ihf, ihg, d₁?_extremum]
  | chain f g _ ihg => rw [asFunctionOf_chain, d₁?_chain, ihg, d₁?_chain]

theorem d₂?_asFunctionOf (dx dy : Value K (Γ i)) :
    (f.asFunctionOf i).d₂? .argument .argument dx dy = f.d₂? (.var i) (.var i) dx dy := by
  induction f with
  | leaf l =>
    have hnone : (leaf l : Tree K (Builtin K Γ) _ _).has₂ (.var i) (.var i) = false := by
      simp [has₂, Leaf.has₂, Builtin.has₂]
    rw [asFunctionOf_leaf, d₂?, d₂?, ← asFunctionOf_leaf, has₂_asFunctionOf, hnone]
    rfl
  | scale c f v ih => rw [asFunctionOf_scale, d₂?_scale, ih, d₂?_scale]
  | squared m f v ih =>
    simp only [asFunctionOf_squared, d₂?_squared, ih, value_asFunctionOf, d₁?_asFunctionOf]
  | sum f g v ihf ihg => rw [asFunctionOf_sum, d₂?_sum, ihf, ihg, d₂?_sum]
  | product m f g v ihf ihg =>
    simp only [asFunctionOf_product, d₂?_product, ihf, ihg, value_asFunctionOf, d₁?_asFunctionOf]
  | extremum e f g v firstActive ihf ihg =>
    rw [asFunctionOf_extremum, d₂?_extremum, ihf, ihg, d₂?_extremum]
  | chain f g _ ihg => simp only [asFunctionOf_chain, d₂?_chain, ihg, d₁?_asFunctionOf]

theorem d₃?_asFunctionOf (dx dy dz : Value K (Γ i)) :
    (f.asFunctionOf i).d₃? .argument .argument .argument dx dy dz =
      f.d₃? (.var i) (.var i) (.var i) dx dy dz := by
  induction f with
  | leaf l =>
    have hnone : (leaf l : Tree K (Builtin K Γ) _ _).has₃ (.var i) (.var i) (.var i) = false := by
      simp [has₃, Leaf.has₃, Builtin.has₃]
    rw [asFunctionOf_leaf, d₃?, d₃?, ← asFunctionOf_leaf, has₃_asFunctionOf, hnone]
    rfl
  | scale c f v ih => rw [asFunctionOf_scale, d₃?_scale, ih, d₃?_scale]
  | squared m f v ih =>
    simp only [asFunctionOf_squared, d₃?_squared, ih, value_asFunctionOf, d₁?_asFunctionOf,
      d₂?_asFunctionOf]
  | sum f g v ihf ihg => rw [asFunctionOf_sum, d₃?_sum, ihf, ihg, d₃?_sum]
  | product m f g v ihf ihg =>
    simp only [asFunctionOf_product, d₃?_product, ihf, ihg, value_asFunctionOf, d₁?_asFunctionOf,
      d₂?_asFunctionOf]
  | extremum e f g v firstActive ihf ihg =>
    rw [asFunctionOf_extremum, d₃?_extremum, ihf, ihg, d₃?_extremum]
  | chain f g _ ihg =>
    simp only [asFunctionOf_chain, d₃?_chain, ihg, d₁?_asFunctionOf, d₂?_asFunctionOf]

section Nodes

variable {i f} {g : Tree K (Builtin K Γ) a t}

/-- A node that computes its value computes the same one in the new form. -/
theorem asFunctionOf_mkScale (c : K) :
    (mkScale c f).asFunctionOf i = mkScale c (f.asFunctionOf i) := by
  rw [mkScale, asFunctionOf_scale, mkScale, value_asFunctionOf]

theorem asFunctionOf_mkSquared (m : Pairing s s s) :
    (mkSquared m f).asFunctionOf i = mkSquared m (f.asFunctionOf i) := by
  rw [mkSquared, asFunctionOf_squared, mkSquared, value_asFunctionOf]

theorem asFunctionOf_mkSum (f g : Tree K (Builtin K Γ) a s) :
    (mkSum f g).asFunctionOf i = mkSum (f.asFunctionOf i) (g.asFunctionOf i) := by
  rw [mkSum, asFunctionOf_sum, mkSum, value_asFunctionOf, value_asFunctionOf]

theorem asFunctionOf_mkProduct (m : Pairing s t u) :
    (mkProduct m f g).asFunctionOf i = mkProduct m (f.asFunctionOf i) (g.asFunctionOf i) := by
  rw [mkProduct, asFunctionOf_product, mkProduct, value_asFunctionOf, value_asFunctionOf]

/-- A minimum or maximum makes the same choice. -/
theorem asFunctionOf_mkExtremum (e : Extremum) (f g : Tree K (Builtin K Γ) a s) :
    (mkExtremum e f g).asFunctionOf i = mkExtremum e (f.asFunctionOf i) (g.asFunctionOf i) := by
  rw [mkExtremum, asFunctionOf_extremum, mkExtremum, value_asFunctionOf, value_asFunctionOf]

end Nodes

/-- An operand that does not hold the variable is left alone in both forms. -/
private theorem call?_asFunctionOf {x : Value K (Γ i)}
    (h : f.reactsTo i = true →
      (f.asFunctionOf i).call (.update x) = (f.call (.write i x)).map (asFunctionOf i)) :
    (f.asFunctionOf i).call? (.update x) = (f.call? (.write i x)).map (asFunctionOf i) := by
  have hdep : (f.asFunctionOf i).dependsOn .argument = f.dependsOn (.var i) :=
    f.reacts_asFunctionOf i
  cases hvar : f.reactsTo i with
  | true =>
    rw [call?_of_dependsOn (hdep.trans hvar), call?_of_dependsOn (c := .write i x) hvar, h hvar]
  | false =>
    rw [call?_of_not_dependsOn (hdep.trans hvar), call?_of_not_dependsOn (c := .write i x) hvar]
    rfl

/-- No node leaves an update alone. -/
private theorem skips_update {f : Tree K (Builtin K Γ) a s} (x : Value K a) :
    f.skips (Call.update x : Call K Γ a).slot = false := rfl

/-- A node does not leave the writes alone that it depends on. -/
private theorem skips_write {f : Tree K (Builtin K Γ) a s} {i : Nat} (h : f.reactsTo i = true)
    (x : Value K (Γ i)) : f.skips (Call.write i x : Call K Γ a).slot = false := by
  simp [skips, Call.slot, h]

/-- Moving the argument of a tree as a function of a variable that it holds does what writing the
variable does. -/
theorem call_asFunctionOf (x : Value K (Γ i)) (h : f.reactsTo i = true) :
    (f.asFunctionOf i).call (.update x) = (f.call (.write i x)).map (asFunctionOf i) := by
  induction f with
  | leaf l =>
    have hleaf : Leaf.call (l.asFunctionOf i) (.update x : Call K Γ (Γ i)) =
        (Leaf.call l (.write i x)).map (Builtin.asFunctionOf i) := l.update_asFunctionOf i x
    rw [asFunctionOf_leaf, call_leaf, call_leaf, hleaf]
    cases Leaf.call l (.write i x) <;> rfl
  | scale k f v ih =>
    simp only [asFunctionOf_scale, call_scale, skips_update, skips_write h,
      call?_asFunctionOf i f ih, Bool.false_eq_true, if_false]
    refine Outcome.complete_map ?_ ?_ _
    · exact fun f => (asFunctionOf_mkScale k).symm
    · exact fun _ => rfl
  | squared m f v ih =>
    simp only [asFunctionOf_squared, call_squared, skips_update, skips_write h,
      call?_asFunctionOf i f ih, Bool.false_eq_true, if_false]
    refine Outcome.complete_map ?_ ?_ _
    · exact fun f => (asFunctionOf_mkSquared m).symm
    · exact fun _ => rfl
  | sum f g v ihf ihg =>
    simp only [asFunctionOf_sum, call_sum, skips_update, skips_write h,
      call?_asFunctionOf i f ihf, call?_asFunctionOf i g ihg, Bool.false_eq_true, if_false]
    refine Outcome.both_map ?_ ?_ _ _ _
    · exact fun f g => (asFunctionOf_mkSum f g).symm
    · exact fun _ _ => rfl
  | product m f g v ihf ihg =>
    simp only [asFunctionOf_product, call_product, skips_update, skips_write h,
      call?_asFunctionOf i f ihf, call?_asFunctionOf i g ihg, Bool.false_eq_true, if_false]
    refine Outcome.both_map ?_ ?_ _ _ _
    · exact fun f g => (asFunctionOf_mkProduct m).symm
    · exact fun _ _ => rfl
  | extremum e f g v firstActive ihf ihg =>
    simp only [asFunctionOf_extremum, call_extremum, skips_update, skips_write h,
      call?_asFunctionOf i f ihf, call?_asFunctionOf i g ihg, Bool.false_eq_true, if_false]
    refine Outcome.both_map ?_ ?_ _ _ _
    · exact fun f g => (asFunctionOf_mkExtremum e f g).symm
    · exact fun _ _ => rfl
  | @chain a _ _ f g _ ihg =>
    -- A composition is a function of the variable by way of its inner function; the outer one is
    -- told the same value in both forms.
    have hdep : (g.asFunctionOf i).dependsOn (Call.update x : Call K Γ (Γ i)).slot = true :=
      (g.reacts_asFunctionOf i).trans h
    have hwrite : g.dependsOn (Call.write i x : Call K Γ a).slot = true := h
    rw [asFunctionOf_chain, call_chain, if_pos hdep, call_chain, if_pos hwrite, ihg h]
    cases g.call (.write i x) with
    | rejected e g' => rfl
    | accepted g' =>
      simp only [Outcome.map, value_asFunctionOf]
      cases f.call (.update g'.value) <;> rfl

/-- The tree `f'` of an argument is and answers what `f` is and answers in the variable with number
`i`, whatever the directions are. -/
structure ArgumentFormOf (f : Tree K (Builtin K Γ) a s) (i : Nat)
    (f' : Tree K (Builtin K Γ) (Γ i) s) : Prop where
  value : f'.value = f.value
  has₁ : f'.has₁ .argument = f.has₁ (.var i)
  has₂ : f'.has₂ .argument .argument = f.has₂ (.var i) (.var i)
  has₃ : f'.has₃ .argument .argument .argument = f.has₃ (.var i) (.var i) (.var i)
  answer₁ (dx : Value K (Γ i)) : f'.answer₁ .argument dx = f.answer₁ (.var i) dx
  answer₂ (dx dy : Value K (Γ i)) :
    f'.answer₂ .argument .argument dx dy = f.answer₂ (.var i) (.var i) dx dy
  answer₃ (dx dy dz : Value K (Γ i)) :
    f'.answer₃ .argument .argument .argument dx dy dz =
      f.answer₃ (.var i) (.var i) (.var i) dx dy dz

/-- The tree as a function of the variable answers what the tree answers in it. -/
theorem argumentFormOf_asFunctionOf : f.ArgumentFormOf i (f.asFunctionOf i) := by
  have hroot := (everyLeaf_of_forall Builtin.answersAsDeclared f).root
  have hroot' := (everyLeaf_of_forall Builtin.answersAsDeclared (f.asFunctionOf i)).root
  constructor
  · exact f.value_asFunctionOf i
  · exact f.has₁_asFunctionOf i
  · exact f.has₂_asFunctionOf i
  · exact f.has₃_asFunctionOf i
  · intro dx
    rw [answer₁_eq_d₁? _ hroot', d₁?_asFunctionOf, answer₁_eq_d₁? _ hroot]
  · intro dx dy
    rw [answer₂_eq_d₂? _ _ hroot', d₂?_asFunctionOf, answer₂_eq_d₂? _ _ hroot]
  · intro dx dy dz
    rw [answer₃_eq_d₃? _ _ _ hroot', d₃?_asFunctionOf, answer₃_eq_d₃? _ _ _ hroot]

/-- Writing one variable of a tree again and again, and moving the argument of the tree as a
function of that variable, have the same results with the same errors, and leave trees that
correspond, also half-way through a rejected call: the second one is the first one as a function of
the variable. So it has the same value, and in its argument the derivatives that the first one has
in the variable, whatever the arithmetic is. -/
theorem writes_are_updates_of_argument_form {f : Tree K (Builtin K Γ) a s} {i : Nat}
    (h : f.reactsTo i = true) (xs : List (Value K (Γ i))) :
    let written := f.after (xs.map (.write i))
    let updated := (f.asFunctionOf i).after (xs.map .update)
    f.results (xs.map (.write i)) = (f.asFunctionOf i).results (xs.map .update) ∧
      updated = written.asFunctionOf i ∧ written.ArgumentFormOf i updated := by
  intro written updated
  have hstep (f : Tree K (Builtin K Γ) a s) (f' : Tree K (Builtin K Γ) (Γ i) s) (x : Value K (Γ i))
      (h : f.reactsTo i = true ∧ f' = f.asFunctionOf i) :
      (f.call (.write i x)).result = (f'.call (.update x)).result ∧
        (f.call (.write i x)).state.reactsTo i = true ∧
          (f'.call (.update x)).state = (f.call (.write i x)).state.asFunctionOf i := by
    obtain ⟨hvar, rfl⟩ := h
    rw [call_asFunctionOf i f x hvar, Outcome.result_map, Outcome.state_map,
      (alike_call f (.write i x)).reactsTo_eq]
    exact ⟨rfl, hvar, rfl⟩
  obtain ⟨hresults, -, hstates⟩ := simulation hstep ⟨h, rfl⟩ xs
  have hform : updated = written.asFunctionOf i := hstates
  refine ⟨hresults, hform, ?_⟩
  rw [hform]
  exact written.argumentFormOf_asFunctionOf i

/-- The function `d * ln c` of the variables `c` and `d`. Of the values told to `c` the second one
is outside of the domain, and the derivative after it is that at the first one. -/
theorem writes_are_updates_of_argument_form_logarithm :
    let f : Tree ℚ (Builtin ℚ fun _ => .scalar) .scalar .scalar :=
      .product .scalars (.leaf (.var 1 rfl 5))
        (.chain (.leaf (.elementary ⟨.ln, 1, ElementaryFunction.ln.jet 1⟩)) (.leaf (.var 0 rfl 1)))
        0
    let writes : List (Call ℚ (fun _ => .scalar) .scalar) := [.write 0 2, .write 0 (-1)]
    let updates : List (Call ℚ (fun _ => .scalar) .scalar) := [.update 2, .update (-1)]
    f.reactsTo 0 = true ∧
      f.results writes = [.ok (), .error (.outOfDomain "ln" "(0, inf)" (-1))] ∧
      (f.asFunctionOf 0).results updates = f.results writes ∧
      (f.after writes).answer₁ (.var 0) (1 : ℚ) = some (5 / 2 : ℚ) ∧
      ((f.asFunctionOf 0).after updates).answer₁ .argument (1 : ℚ) = some (5 / 2 : ℚ) := by
  intro f writes updates
  have hvar : f.reactsTo 0 = true := rfl
  have hrejected : f.results writes = [.ok (), .error (.outOfDomain "ln" "(0, inf)" (-1))] := by
    decide +kernel
  have hfirst : (f.after writes).answer₁ (.var 0) (1 : ℚ) = some (5 / 2 : ℚ) := by decide +kernel
  obtain ⟨hresults, -, hform⟩ := writes_are_updates_of_argument_form hvar [(2 : ℚ), -1]
  exact ⟨hvar, hrejected, hresults.symm, hfirst, (hform.answer₁ (1 : ℚ)).trans hfirst⟩

end Tree

end Directional
