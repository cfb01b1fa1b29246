import Directional.Formula.Basic
import Directional.Proofs.Tree.Run

namespace Directional

/-- Two state changes that are both carried out, or both refused for the same reason, and leave
related states behind. -/
inductive Outcome.Corresponds {ε σ τ : Type} (R : σ → τ → Prop) : Outcome ε σ → Outcome ε τ → Prop
  where
  | accepted {s : σ} {t : τ} (h : R s t) : Corresponds R (.accepted s) (.accepted t)
  | rejected (e : ε) {s : σ} {t : τ} (h : R s t) : Corresponds R (.rejected e s) (.rejected e t)

namespace Outcome.Corresponds

variable {ε σ σ' τ τ' ρ ρ' : Type} {R : σ → σ' → Prop} {S : τ → τ' → Prop} {T : ρ → ρ' → Prop}
  {o : Outcome ε σ} {o' : Outcome ε σ'}

/-- Changes that correspond have the same result. -/
theorem result_eq (h : Corresponds R o o') : o'.result = o.result := by
  cases h <;> rfl

/-- They leave related states behind. -/
theorem state (h : Corresponds R o o') : R o.state o'.state := by
  cases h <;> assumption

/-- So do the changes of wholes that are related if their parts are. -/
theorem map {f : σ → τ} {f' : σ' → τ'} (hf : ∀ {s s'}, R s s' → S (f s) (f' s'))
    (h : Corresponds R o o') : Corresponds S (o.map f) (o'.map f') := by
  cases h with
  | accepted h => exact .accepted (hf h)
  | rejected e h => exact .rejected e (hf h)

/-- A whole over one part corresponds to another one if both ways to complete it do. -/
theorem complete {accept reject : σ → τ} {accept' reject' : σ' → τ'}
    (haccept : ∀ {s s'}, R s s' → S (accept s) (accept' s'))
    (hreject : ∀ {s s'}, R s s' → S (reject s) (reject' s')) (h : Corresponds R o o') :
    Corresponds S (o.complete accept reject) (o'.complete accept' reject') := by
  cases h with
  | accepted h => exact .accepted (haccept h)
  | rejected e h => exact .rejected e (hreject h)

/-- A whole over two parts corresponds to another one, also if its second part is not changed. -/
theorem both {accept reject : σ → τ → ρ} {accept' reject' : σ' → τ' → ρ'}
    (haccept : ∀ {s s' t t'}, R s s' → S t t' → T (accept s t) (accept' s' t'))
    (hreject : ∀ {s s' t t'}, R s s' → S t t' → T (reject s t) (reject' s' t'))
    (h : Corresponds R o o') {t : τ} {t' : τ'} (ht : S t t') {p : Outcome ε τ} {p' : Outcome ε τ'}
    (hp : Corresponds S p p') :
    Corresponds T (.both accept reject o t p) (.both accept' reject' o' t' p') := by
  cases h with
  | accepted h => exact hp.complete (haccept h) (hreject h)
  | rejected e h => exact .rejected e (hreject h ht)

end Outcome.Corresponds

/-- Two results that are the same error, or related values. -/
inductive CorrespondingResults {ε σ τ : Type} (R : σ → τ → Prop) : Except ε σ → Except ε τ → Prop
  where
  | error (e : ε) : CorrespondingResults R (.error e) (.error e)
  | ok {s : σ} {t : τ} (h : R s t) : CorrespondingResults R (.ok s) (.ok t)

/-- Results that correspond are carried on alike. -/
theorem CorrespondingResults.bind {ε σ σ' τ τ' : Type} {R : σ → σ' → Prop} {S : τ → τ' → Prop}
    {x : Except ε σ} {x' : Except ε σ'} {f : σ → Except ε τ} {f' : σ' → Except ε τ'}
    (h : CorrespondingResults R x x')
    (hf : ∀ {s s'}, R s s' → CorrespondingResults S (f s) (f' s')) :
    CorrespondingResults S (x >>= f) (x' >>= f') := by
  cases h with
  | error e => exact .error e
  | ok h => exact hf h

namespace Tree

variable {K : Type} {Γ : Nat → Shape} {L L' : Shape → Shape → Type}
  {R : ⦃a s : Shape⦄ → L a s → L' a s → Prop} {a b s t u : Shape}

/-- Two trees that differ at most in their leaves, and of these each is related to the one in its
place. The nodes hold the same values. -/
inductive Corresponds (R : ⦃a s : Shape⦄ → L a s → L' a s → Prop) :
    {a s : Shape} → Tree K L a s → Tree K L' a s → Prop where
  | leaf {a s : Shape} {l : L a s} {l' : L' a s} (h : R l l') : Corresponds R (leaf l) (leaf l')
  | scale {a s : Shape} (c : K) {f : Tree K L a s} {f' : Tree K L' a s} (v : Value K s)
      (hf : Corresponds R f f') : Corresponds R (scale c f v) (scale c f' v)
  | squared {a s : Shape} (m : Pairing s s s) {f : Tree K L a s} {f' : Tree K L' a s}
      (v : Value K s) (hf : Corresponds R f f') : Corresponds R (squared m f v) (squared m f' v)
  | sum {a s : Shape} {f g : Tree K L a s} {f' g' : Tree K L' a s} (v : Value K s)
      (hf : Corresponds R f f') (hg : Corresponds R g g') :
      Corresponds R (sum f g v) (sum f' g' v)
  | product {a s t u : Shape} (m : Pairing s t u) {f : Tree K L a s} {f' : Tree K L' a s}
      {g : Tree K L a t} {g' : Tree K L' a t} (v : Value K u) (hf : Corresponds R f f')
      (hg : Corresponds R g g') : Corresponds R (product m f g v) (product m f' g' v)
  | extremum {a s : Shape} (e : Extremum) {f g : Tree K L a s} {f' g' : Tree K L' a s}
      (v : Value K s) (firstActive : Bool) (hf : Corresponds R f f') (hg : Corresponds R g g') :
      Corresponds R (extremum e f g v firstActive) (extremum e f' g' v firstActive)
  | chain {a b s : Shape} {f : Tree K L b s} {f' : Tree K L' b s} {g : Tree K L a b}
      {g' : Tree K L' a b} (hf : Corresponds R f f') (hg : Corresponds R g g') :
      Corresponds R (chain f g) (chain f' g')

/-- A node that is no leaf has no leaf in its place. -/
theorem Corresponds.ne_leaf {f : Tree K L a s} {f' : Tree K L' a s} (h : Corresponds R f f')
    (hnode : ∀ l, f ≠ .leaf l) (l' : L' a s) : f' ≠ .leaf l' := by
  cases h with
  | leaf _ => exact absurd rfl (hnode _)
  | _ => intro hleaf; cases hleaf

variable [Leaf K Γ L] [Leaf K Γ L']

/-- Leaves that a call moves alike: related ones have the same value and depend on the same slots,
and after a call of both they are related again, whether they have accepted or rejected it. -/
structure MovedAlike [Scalar K] (R : ⦃a s : Shape⦄ → L a s → L' a s → Prop) : Prop where
  value {a s : Shape} {l : L a s} {l' : L' a s} (h : R l l') : Leaf.value l' = Leaf.value l
  dependsOn {a s : Shape} {l : L a s} {l' : L' a s} (h : R l l') (X : Slot) :
    Leaf.dependsOn l' X = Leaf.dependsOn l X
  call {a s : Shape} {l : L a s} {l' : L' a s} (h : R l l') (c : Call K Γ a) :
    (Leaf.call l c).Corresponds (@R a s) (Leaf.call l' c)

namespace Corresponds

variable [Scalar K] (moved : MovedAlike R)

section Members

variable {f : Tree K L a s} {f' : Tree K L' a s}

include moved

/-- Trees that correspond have the same value. -/
theorem value_eq (h : Corresponds R f f') : f'.value = f.value := by
  induction h with
  | leaf h => exact moved.value h
  | scale | squared | sum | product | extremum => rfl
  | chain _ _ ihf _ => exact ihf

/-- They depend on the same slots. -/
theorem dependsOn_eq (h : Corresponds R f f') (X : Slot) : f'.dependsOn X = f.dependsOn X := by
  induction h with
  | leaf h => rw [dependsOn_leaf, dependsOn_leaf, moved.dependsOn h]
  | scale _ _ _ ih => rw [dependsOn_scale, dependsOn_scale, ih]
  | squared _ _ _ ih => rw [dependsOn_squared, dependsOn_squared, ih]
  | sum _ _ _ ihf ihg => rw [dependsOn_sum, dependsOn_sum, ihf, ihg]
  | product _ _ _ _ ihf ihg => rw [dependsOn_product, dependsOn_product, ihf, ihg]
  | extremum _ _ _ _ _ ihf ihg => rw [dependsOn_extremum, dependsOn_extremum, ihf, ihg]
  | chain _ _ _ ihg => rw [dependsOn_chain, dependsOn_chain, ihg]

theorem skips_eq (h : Corresponds R f f') (X : Slot) : f'.skips X = f.skips X := by
  cases X with
  | argument => rfl
  | var i => exact congrArg (!·) (h.dependsOn_eq moved (.var i))

end Members

section Nodes

include moved

/-- Nodes over operands that correspond compute the same value. -/
theorem mkScale (c : K) {f : Tree K L a s} {f' : Tree K L' a s} (h : Corresponds R f f') :
    Corresponds R (mkScale c f) (mkScale c f') := by
  rw [Tree.mkScale, Tree.mkScale, h.value_eq moved]
  exact .scale c _ h

theorem mkSquared (m : Pairing s s s) {f : Tree K L a s} {f' : Tree K L' a s}
    (h : Corresponds R f f') : Corresponds R (mkSquared m f) (mkSquared m f') := by
  rw [Tree.mkSquared, Tree.mkSquared, h.value_eq moved]
  exact .squared m _ h

theorem mkSum {f g : Tree K L a s} {f' g' : Tree K L' a s} (hf : Corresponds R f f')
    (hg : Corresponds R g g') : Corresponds R (mkSum f g) (mkSum f' g') := by
  rw [Tree.mkSum, Tree.mkSum, hf.value_eq moved, hg.value_eq moved]
  exact .sum _ hf hg

theorem mkProduct (m : Pairing s t u) {f : Tree K L a s} {f' : Tree K L' a s} {g : Tree K L a t}
    {g' : Tree K L' a t} (hf : Corresponds R f f') (hg : Corresponds R g g') :
    Corresponds R (mkProduct m f g) (mkProduct m f' g') := by
  rw [Tree.mkProduct, Tree.mkProduct, hf.value_eq moved, hg.value_eq moved]
  exact .product m _ hf hg

/-- A minimum or maximum makes the same choice in both trees. -/
theorem mkExtremum (e : Extremum) {f g : Tree K L a s} {f' g' : Tree K L' a s}
    (hf : Corresponds R f f') (hg : Corresponds R g g') :
    Corresponds R (mkExtremum e f g) (mkExtremum e f' g') := by
  rw [Tree.mkExtremum, Tree.mkExtremum, hf.value_eq moved, hg.value_eq moved]
  exact .extremum e _ _ hf hg

end Nodes

section Calls

include moved

/-- An operand is called in both trees or in none. -/
theorem call? {f : Tree K L a s} {f' : Tree K L' a s} {c : Call K Γ a} (h : Corresponds R f f')
    (hcall : (f.call c).Corresponds (Corresponds R) (f'.call c)) :
    (f.call? c).Corresponds (Corresponds R) (f'.call? c) := by
  have hdep := h.dependsOn_eq moved c.slot
  cases hcase : f.dependsOn c.slot with
  | true => rwa [call?_of_dependsOn hcase, call?_of_dependsOn (hdep.trans hcase)]
  | false =>
    rw [call?_of_not_dependsOn hcase, call?_of_not_dependsOn (hdep.trans hcase)]
    exact .accepted h

/-- One call to each of two corresponding trees is accepted by both or rejected by both with the
same error, and leaves corresponding trees behind. -/
theorem call {f : Tree K L a s} {f' : Tree K L' a s} (h : Corresponds R f f') (c : Call K Γ a) :
    (f.call c).Corresponds (Corresponds R) (f'.call c) := by
  induction h with
  | leaf h =>
    rw [call_leaf, call_leaf]
    exact (moved.call h c).map .leaf
  | scale k v hf ih =>
    rw [call_scale, call_scale, (Corresponds.scale k v hf).skips_eq moved]
    split
    · exact .accepted (.scale k v hf)
    · exact (hf.call? moved (ih c)).complete (.mkScale moved k) (.scale k v)
  | squared m v hf ih =>
    rw [call_squared, call_squared, (Corresponds.squared m v hf).skips_eq moved]
    split
    · exact .accepted (.squared m v hf)
    · exact (hf.call? moved (ih c)).complete (.mkSquared moved m) (.squared m v)
  | sum v hf hg ihf ihg =>
    rw [call_sum, call_sum, (Corresponds.sum v hf hg).skips_eq moved]
    split
    · exact .accepted (.sum v hf hg)
    · exact (hf.call? moved (ihf c)).both (.mkSum moved) (.sum v) hg (hg.call? moved (ihg c))
  | product m v hf hg ihf ihg =>
    rw [call_product, call_product, (Corresponds.product m v hf hg).skips_eq moved]
    split
    · exact .accepted (.product m v hf hg)
    · exact (hf.call? moved (ihf c)).both (.mkProduct moved m) (.product m v) hg
        (hg.call? moved (ihg c))
  | extremum e v firstActive hf hg ihf ihg =>
    rw [call_extremum, call_extremum, (Corresponds.extremum e v firstActive hf hg).skips_eq moved]
    split
    · exact .accepted (.extremum e v firstActive hf hg)
    · exact (hf.call? moved (ihf c)).both (.mkExtremum moved e) (.extremum e v firstActive) hg
        (hg.call? moved (ihg c))
  | @chain a b s f f' g g' hf hg ihf ihg =>
    have hdep := hg.dependsOn_eq moved c.slot
    cases hcase : g.dependsOn c.slot with
    | false =>
      rw [call_chain_of_not_dependsOn hcase, call_chain_of_not_dependsOn (hdep.trans hcase)]
      exact .accepted (.chain hf hg)
    | true =>
      have hinner := ihg c
      rw [call_chain, call_chain, if_pos hcase, if_pos (hdep.trans hcase)]
      generalize g.call c = o, g'.call c = o' at hinner ⊢
      cases hinner with
      | rejected e hmoved => exact .rejected e (.chain hf hmoved)
      | accepted hmoved =>
        -- both outer functions are moved to the value that the inner ones have in common
        simp only [hmoved.value_eq moved]
        exact (ihf _).map (.chain · hmoved)

/-- Corresponding trees return the same from every sequence of calls and correspond after it. -/
theorem after {f : Tree K L a s} {f' : Tree K L' a s} (h : Corresponds R f f')
    (calls : List (Call K Γ a)) :
    f.results calls = f'.results calls ∧ Corresponds R (f.after calls) (f'.after calls) := by
  apply simulation_same _ h calls
  intro f f' c h
  have hcall := h.call moved c
  exact ⟨hcall.result_eq.symm, hcall.state⟩

end Calls

include moved in
/-- A composition is built of corresponding functions in both families or in none. -/
theorem mkChain {f : Tree K L b s} {f' : Tree K L' b s} {g : Tree K L a b} {g' : Tree K L' a b}
    (hf : Corresponds R f f') (hg : Corresponds R g g') :
    CorrespondingResults (Corresponds R) (mkChain f g) (mkChain f' g') := by
  have hcall : (f.update g.value).Corresponds (Corresponds R) (f'.update g.value) :=
    hf.call moved (.update g.value)
  rw [Tree.mkChain, Tree.mkChain, hg.value_eq moved]
  generalize f.update g.value = o, f'.update g.value = o' at hcall ⊢
  cases hcall with
  | accepted hmoved => exact .ok (.chain hmoved hg)
  | rejected e _ => exact .error e

end Corresponds

end Tree

/-- The same formula, with one family of leaves and with the other. If each of its leaves is built
to corresponding leaves, or is rejected in both families with the same error, then so is the
formula. -/
theorem Formula.build_corresponds {K : Type} [Scalar K] {Γ : Nat → Shape}
    {I L L' : Shape → Shape → Type} [Leaf K Γ L] [Leaf K Γ L']
    {R : ⦃a s : Shape⦄ → L a s → L' a s → Prop} (moved : Tree.MovedAlike R)
    {plant : {a s : Shape} → I a s → Except (DomainError K) (L a s)}
    {plant' : {a s : Shape} → I a s → Except (DomainError K) (L' a s)}
    (planted : ∀ {a s : Shape} (i : I a s), CorrespondingResults (@R a s) (plant i) (plant' i))
    {a s : Shape} (f : Formula K I a s) :
    CorrespondingResults (Tree.Corresponds R) (f.build plant) (f.build plant') := by
  induction f with
  | leaf i => exact (planted i).bind fun h => .ok (.leaf h)
  | scale c f ih => exact ih.bind fun h => .ok (h.mkScale moved c)
  | squared m f ih => exact ih.bind fun h => .ok (h.mkSquared moved m)
  | sum f g ihf ihg => exact ihf.bind fun hf => ihg.bind fun hg => .ok (hf.mkSum moved hg)
  | product m f g ihf ihg =>
    exact ihf.bind fun hf => ihg.bind fun hg => .ok (hf.mkProduct moved m hg)
  | extremum e f g ihf ihg =>
    exact ihf.bind fun hf => ihg.bind fun hg => .ok (hf.mkExtremum moved e hg)
  | chain f g ihf ihg => exact ihf.bind fun hf => ihg.bind fun hg => hf.mkChain moved hg

end Directional
