import Directional.Proofs.Leaf.Lawful
import Directional.Tree.Update

namespace Directional.Tree

variable {K : Type} {Γ : Nat → Shape} {L : Shape → Shape → Type} [Leaf K Γ L] {a b s t u : Shape}

/-- Whether a tree depends on a slot. -/
def dependsOn (f : Tree K L a s) : Slot → Bool
  | .argument => f.reacts
  | .var i => f.reactsTo i

section DependsOn

variable (f : Tree K L a s) (X : Slot)

/-- A tree depends on what its operands depend on. -/
@[simp] theorem dependsOn_leaf (l : L a s) :
    (leaf l : Tree K L a s).dependsOn X = Leaf.dependsOn l X := by
  cases X <;> rfl

@[simp] theorem dependsOn_scale (k : K) (v : Value K s) :
    (scale k f v).dependsOn X = f.dependsOn X := by
  cases X <;> rfl

@[simp] theorem dependsOn_squared (m : Pairing s s s) (v : Value K s) :
    (squared m f v).dependsOn X = f.dependsOn X := by
  cases X <;> rfl

@[simp] theorem dependsOn_sum (g : Tree K L a s) (v : Value K s) :
    (sum f g v).dependsOn X = (f.dependsOn X || g.dependsOn X) := by
  cases X <;> rfl

@[simp] theorem dependsOn_product (m : Pairing s t u) (g : Tree K L a t) (v : Value K u) :
    (product m f g v).dependsOn X = (f.dependsOn X || g.dependsOn X) := by
  cases X <;> rfl

@[simp] theorem dependsOn_extremum (e : Extremum) (g : Tree K L a s) (v : Value K s)
    (firstActive : Bool) :
    (extremum e f g v firstActive).dependsOn X = (f.dependsOn X || g.dependsOn X) := by
  cases X <;> rfl

end DependsOn

/-- A composition depends on what its inner function depends on. -/
@[simp] theorem dependsOn_chain (f : Tree K L b s) (g : Tree K L a b) (X : Slot) :
    (chain f g).dependsOn X = g.dependsOn X := by
  cases X <;> rfl

/-- Whether a node leaves a call alone altogether. One that is told a new argument recomputes its
value in any case. -/
def skips (f : Tree K L a s) : Slot → Bool
  | .argument => false
  | .var i => !f.reactsTo i

/-- A node that leaves a call alone does not depend on its slot. -/
theorem not_dependsOn_of_skips {f : Tree K L a s} {X : Slot} (h : f.skips X = true) :
    f.dependsOn X = false := by
  cases X with
  | argument => nomatch h
  | var i => simpa [skips, dependsOn] using h

/-- A node does not leave the calls alone whose slot it depends on. -/
theorem visits_of_dependsOn {f : Tree K L a s} {X : Slot} (h : f.dependsOn X = true) :
    f.skips X = false := by
  cases hskip : f.skips X with
  | false => rfl
  | true => nomatch (not_dependsOn_of_skips hskip).symm.trans h

/-- Neither of two operands of a node that leaves a call alone depends on its slot. -/
private theorem not_dependsOn_or_of_skips {h : Tree K L a s} {f : Tree K L a t} {g : Tree K L a u}
    {X : Slot} (hskip : h.skips X = true)
    (hnode : ∀ i, h.reactsTo i = (f.reactsTo i || g.reactsTo i)) :
    f.dependsOn X = false ∧ g.dependsOn X = false := by
  cases X with
  | argument => nomatch hskip
  | var i => simpa [skips, dependsOn, hnode] using hskip

variable [Scalar K]

/-- Moves a tree. Moving it to a new argument and writing one of its variables are the same
traversal: a node passes a call on to the operands that depend on its slot, and then recomputes its
value. -/
def call (f : Tree K L a s) : Call K Γ a → Outcome (DomainError K) (Tree K L a s)
  | .update x => f.update x
  | .write i x => f.write i x

/-- Moves a tree if it depends on the slot of the call. -/
def call? (f : Tree K L a s) (c : Call K Γ a) : Outcome (DomainError K) (Tree K L a s) :=
  .visit (f.dependsOn c.slot) f (f.call c)

/-- An operand is called if it depends on the slot. -/
theorem call?_of_dependsOn {f : Tree K L a s} {c : Call K Γ a} (h : f.dependsOn c.slot = true) :
    f.call? c = f.call c := by
  rw [call?, h, Outcome.visit_true]

theorem call?_of_not_dependsOn {f : Tree K L a s} {c : Call K Γ a}
    (h : f.dependsOn c.slot = false) : f.call? c = .accepted f := by
  rw [call?, h, Outcome.visit_false]

/-- An operand is called or not. What holds of it in both cases holds after a call that comes to it
only if it depends on the slot. -/
theorem holds_call? (P : Tree K L a s → Prop) {f : Tree K L a s} {c : Call K Γ a} (hbefore : P f)
    (hafter : P (f.call c).state) : P (f.call? c).state := by
  cases h : f.dependsOn c.slot with
  | true => rwa [call?_of_dependsOn h]
  | false => rwa [call?_of_not_dependsOn h]

/-- The same of an operand that the call may not have come to, since it was stopped before. -/
theorem holds_of_eq_or_eq (P : Tree K L a s → Prop) {f f' : Tree K L a s} {c : Call K Γ a}
    (h : f' = f ∨ f' = (f.call? c).state) (hbefore : P f) (hafter : P (f.call c).state) :
    P f' := by
  obtain rfl | rfl := h
  · exact hbefore
  · exact holds_call? P hbefore hafter

/-- What a call does to each kind of node. A leaf is called itself. -/
theorem call_leaf (l : L a s) (c : Call K Γ a) :
    (leaf l : Tree K L a s).call c = (Leaf.call l c).map leaf := by
  cases c <;> rfl

/-- A node over one operand calls it and is completed. -/
theorem call_scale (k : K) (f : Tree K L a s) (v : Value K s) (c : Call K Γ a) :
    (scale k f v).call c =
      if (scale k f v).skips c.slot then .accepted (scale k f v)
      else (f.call? c).complete (mkScale k) (scale k · v) := by
  cases c with
  | update x => rfl
  | write i x =>
    by_cases hf : f.reactsTo i <;>
      simp [call, write, call?, skips, dependsOn, Call.slot, reactsTo, hf]

theorem call_squared (m : Pairing s s s) (f : Tree K L a s) (v : Value K s) (c : Call K Γ a) :
    (squared m f v).call c =
      if (squared m f v).skips c.slot then .accepted (squared m f v)
      else (f.call? c).complete (mkSquared m) (squared m · v) := by
  cases c with
  | update x => rfl
  | write i x =>
    by_cases hf : f.reactsTo i <;>
      simp [call, write, call?, skips, dependsOn, Call.slot, reactsTo, hf]

/-- A node over two operands calls them one after the other. -/
theorem call_sum (f g : Tree K L a s) (v : Value K s) (c : Call K Γ a) :
    (sum f g v).call c =
      if (sum f g v).skips c.slot then .accepted (sum f g v)
      else .both mkSum (sum · · v) (f.call? c) g (g.call? c) := by
  cases c with
  | update x => rfl
  | write i x =>
    by_cases hf : f.reactsTo i <;> by_cases hg : g.reactsTo i <;>
      simp [call, write, call?, skips, dependsOn, Call.slot, reactsTo, hf, hg]

theorem call_product (m : Pairing s t u) (f : Tree K L a s) (g : Tree K L a t) (v : Value K u)
    (c : Call K Γ a) :
    (product m f g v).call c =
      if (product m f g v).skips c.slot then .accepted (product m f g v)
      else .both (mkProduct m) (product m · · v) (f.call? c) g (g.call? c) := by
  cases c with
  | update x => rfl
  | write i x =>
    by_cases hf : f.reactsTo i <;> by_cases hg : g.reactsTo i <;>
      simp [call, write, call?, skips, dependsOn, Call.slot, reactsTo, hf, hg]

/-- A minimum or maximum chooses anew when it is completed. -/
theorem call_extremum (e : Extremum) (f g : Tree K L a s) (v : Value K s) (firstActive : Bool)
    (c : Call K Γ a) :
    (extremum e f g v firstActive).call c =
      if (extremum e f g v firstActive).skips c.slot then .accepted (extremum e f g v firstActive)
      else .both (mkExtremum e) (extremum e · · v firstActive) (f.call? c) g (g.call? c) := by
  cases c with
  | update x => rfl
  | write i x =>
    by_cases hf : f.reactsTo i <;> by_cases hg : g.reactsTo i <;>
      simp [call, write, call?, skips, dependsOn, Call.slot, reactsTo, hf, hg]

/-- The outer function of a composition is moved to the value of the inner one, whether it depends
on its argument or not. -/
theorem call_chain (f : Tree K L b s) (g : Tree K L a b) (c : Call K Γ a) :
    (chain f g).call c =
      if g.dependsOn c.slot then
        match g.call c with
        | .accepted g => (f.call (.update g.value)).map (chain · g)
        | .rejected e g => .rejected e (chain f g)
      else .accepted (chain f g) := by
  cases c <;> rfl

section Chain

variable {f : Tree K L b s} {g g' : Tree K L a b} {c : Call K Γ a}

/-- A composition whose inner function does not depend on the slot is left alone. -/
theorem call_chain_of_not_dependsOn (h : g.dependsOn c.slot = false) :
    (chain f g).call c = .accepted (chain f g) := by
  simp [call_chain, h]

/-- A rejection by the inner function leaves the outer one as it is. -/
theorem call_chain_of_rejected (h : g.dependsOn c.slot = true) {e : DomainError K}
    (hcall : g.call c = .rejected e g') : (chain f g).call c = .rejected e (chain f g') := by
  simp [call_chain, h, hcall]

/-- The outer function may reject the value of the inner one. -/
theorem call_chain_of_accepted (h : g.dependsOn c.slot = true) (hcall : g.call c = .accepted g') :
    (chain f g).call c = (f.call (.update g'.value)).map (chain · g') := by
  simp [call_chain, h, hcall]

end Chain

/-- A node that does not depend on a variable is left alone by whoever writes it. -/
theorem call_of_skips [LawfulLeaf L] {f : Tree K L a s} {c : Call K Γ a}
    (h : f.skips c.slot = true) : f.call c = .accepted f := by
  cases c with
  | update x => nomatch h
  | write i x =>
    have hwrite : f.reactsTo i = false := by simpa [skips, Call.slot] using h
    cases f with
    | leaf l =>
      have hleaf := LawfulLeaf.call_of_not_dependsOn (l := l) (c := .write i x) hwrite
      rw [call_leaf, hleaf]
      rfl
    | scale | squared | sum | product | extremum | chain =>
      simp_all [call, write, reactsTo]

section Left

variable {W : Type} {f : Tree K L a s} {g : Tree K L a t} {v : W} {c : Call K Γ a}

/-- A node `n` over one operand that holds `w` of it. -/
private theorem state_of_complete {n : Tree K L a s → W → Tree K L a u} (w : Tree K L a s → W)
    (hcall : (n f v).call c =
      if (n f v).skips c.slot then .accepted (n f v)
      else (f.call? c).complete (fun f => n f (w f)) (n · v))
    (hskip : (n f v).skips c.slot = true → f.dependsOn c.slot = false) :
    ∃ w', ((n f v).call c).state = n (f.call? c).state w' := by
  rw [hcall]
  split
  case isTrue h =>
    rw [call?_of_not_dependsOn (hskip h)]
    exact ⟨v, rfl⟩
  case isFalse =>
    obtain h | h := Outcome.state_complete (fun f => n f (w f)) (n · v) (f.call? c)
    · exact ⟨_, h⟩
    · exact ⟨v, h⟩

/-- A node `n` over two operands that holds `w` of them. -/
private theorem state_of_both {n : Tree K L a s → Tree K L a t → W → Tree K L a u}
    (w : Tree K L a s → Tree K L a t → W)
    (hcall : (n f g v).call c =
      if (n f g v).skips c.slot then .accepted (n f g v)
      else .both (fun f g => n f g (w f g)) (n · · v) (f.call? c) g (g.call? c))
    (hskip : (n f g v).skips c.slot = true → f.dependsOn c.slot = false) :
    ∃ g' w', (g' = g ∨ g' = (g.call? c).state) ∧
      ((n f g v).call c).state = n (f.call? c).state g' w' := by
  rw [hcall]
  split
  case isTrue h =>
    rw [call?_of_not_dependsOn (hskip h)]
    exact ⟨g, v, .inl rfl, rfl⟩
  case isFalse =>
    obtain ⟨g', hg', h | h⟩ :=
      Outcome.state_both (fun f g => n f g (w f g)) (n · · v) (f.call? c) g (g.call? c)
    · exact ⟨g', _, hg', h⟩
    · exact ⟨g', v, hg', h⟩

end Left

/-- What is left behind of each kind of node. The value may be the old one or a new one. -/
theorem state_call_scale (k : K) (f : Tree K L a s) (v : Value K s) (c : Call K Γ a) :
    ∃ v', ((scale k f v).call c).state = scale k (f.call? c).state v' :=
  state_of_complete (fun f => f.value.scale k) (call_scale k f v c) not_dependsOn_of_skips

theorem state_call_squared (m : Pairing s s s) (f : Tree K L a s) (v : Value K s)
    (c : Call K Γ a) :
    ∃ v', ((squared m f v).call c).state = squared m (f.call? c).state v' :=
  state_of_complete (fun f => m.apply f.value f.value) (call_squared m f v c)
    not_dependsOn_of_skips

/-- The second operand may be as it was, if the call has not come to it. -/
theorem state_call_sum (f g : Tree K L a s) (v : Value K s) (c : Call K Γ a) :
    ∃ g' v', (g' = g ∨ g' = (g.call? c).state) ∧
      ((sum f g v).call c).state = sum (f.call? c).state g' v' :=
  state_of_both (fun f g => f.value.add g.value) (call_sum f g v c)
    fun h => (not_dependsOn_or_of_skips h fun _ => rfl).1

theorem state_call_product (m : Pairing s t u) (f : Tree K L a s) (g : Tree K L a t)
    (v : Value K u) (c : Call K Γ a) :
    ∃ g' v', (g' = g ∨ g' = (g.call? c).state) ∧
      ((product m f g v).call c).state = product m (f.call? c).state g' v' :=
  state_of_both (fun f g => m.apply f.value g.value) (call_product m f g v c)
    fun h => (not_dependsOn_or_of_skips h fun _ => rfl).1

theorem state_call_extremum (e : Extremum) (f g : Tree K L a s) (v : Value K s)
    (firstActive : Bool) (c : Call K Γ a) :
    ∃ g' v' firstActive', (g' = g ∨ g' = (g.call? c).state) ∧
      ((extremum e f g v firstActive).call c).state =
        extremum e (f.call? c).state g' v' firstActive' := by
  obtain ⟨g', ⟨v', firstActive'⟩, hg', h⟩ :=
    state_of_both (n := fun f g (w : Value K s × Bool) => extremum e f g w.1 w.2)
      (v := (v, firstActive))
      (fun f g => (if e.prefersFirst f.value g.value then f.value else g.value,
        e.prefersFirst f.value g.value))
      (call_extremum e f g v firstActive c) fun h => (not_dependsOn_or_of_skips h fun _ => rfl).1
  exact ⟨g', v', firstActive', hg', h⟩

/-- The outer function may be as it was, if the call has not come to it. -/
theorem state_call_chain (f : Tree K L b s) (g : Tree K L a b) (c : Call K Γ a) :
    ∃ f', (f' = f ∨ ∃ y, f' = (f.call (.update y)).state) ∧
      ((chain f g).call c).state = chain f' (g.call? c).state := by
  rw [call_chain]
  split
  case isTrue h =>
    rw [call?_of_dependsOn h]
    cases g.call c with
    | accepted g' => exact ⟨_, .inr ⟨g'.value, rfl⟩, Outcome.state_map _ _⟩
    | rejected e g' => exact ⟨f, .inl rfl, rfl⟩
  case isFalse h =>
    have hg : g.dependsOn c.slot = false := by simpa using h
    exact ⟨f, .inl rfl, by rw [call?_of_not_dependsOn hg]; rfl⟩

section Accepted

variable {W : Type} {f : Tree K L a s} {g : Tree K L a t} {v : W} {c : Call K Γ a}
  {new : Tree K L a u}

/-- A node over one operand accepts what the operand accepts. -/
private theorem accepted_of_complete {n : Tree K L a s → W → Tree K L a u} (w : Tree K L a s → W)
    (hcall : (n f v).call c =
      if (n f v).skips c.slot then .accepted (n f v)
      else (f.call? c).complete (fun f => n f (w f)) (n · v))
    (hskip : (n f v).skips c.slot = true → f.dependsOn c.slot = false)
    (h : (n f v).call c = .accepted new) :
    ∃ f' w', f.call? c = .accepted f' ∧ new = n f' w' := by
  rw [hcall] at h
  split at h
  case isTrue hskips =>
    cases h
    exact ⟨f, v, call?_of_not_dependsOn (hskip hskips), rfl⟩
  case isFalse =>
    rw [← Outcome.toExcept_eq_ok_iff, Outcome.toExcept_complete] at h
    obtain ⟨f', hf, hnew⟩ := map_eq_ok h
    exact ⟨f', w f', Outcome.toExcept_eq_ok_iff.1 hf, hnew.symm⟩

/-- A node over two operands accepts what both of them accept. -/
private theorem accepted_of_both {n : Tree K L a s → Tree K L a t → W → Tree K L a u}
    (w : Tree K L a s → Tree K L a t → W)
    (hcall : (n f g v).call c =
      if (n f g v).skips c.slot then .accepted (n f g v)
      else .both (fun f g => n f g (w f g)) (n · · v) (f.call? c) g (g.call? c))
    (hskip : (n f g v).skips c.slot = true →
      f.dependsOn c.slot = false ∧ g.dependsOn c.slot = false)
    (h : (n f g v).call c = .accepted new) :
    ∃ f' g' w', f.call? c = .accepted f' ∧ g.call? c = .accepted g' ∧ new = n f' g' w' := by
  rw [hcall] at h
  split at h
  case isTrue hskips =>
    obtain ⟨hf, hg⟩ := hskip hskips
    cases h
    exact ⟨f, g, v, call?_of_not_dependsOn hf, call?_of_not_dependsOn hg, rfl⟩
  case isFalse =>
    rw [← Outcome.toExcept_eq_ok_iff, Outcome.toExcept_both] at h
    obtain ⟨f', hf, h⟩ := bind_eq_ok h
    obtain ⟨g', hg, h⟩ := bind_eq_ok h
    have hnew : n f' g' (w f' g') = new := Except.ok.inj h
    exact ⟨f', g', w f' g', Outcome.toExcept_eq_ok_iff.1 hf, Outcome.toExcept_eq_ok_iff.1 hg,
      hnew.symm⟩

end Accepted

/-- The operands of each kind of node that accepts a call. A leaf has none. -/
theorem accepted_call_leaf {l : L a s} {c : Call K Γ a} {new : Tree K L a s}
    (h : (leaf l).call c = .accepted new) : ∃ l', Leaf.call l c = .accepted l' ∧ new = leaf l' := by
  rw [← Outcome.toExcept_eq_ok_iff, call_leaf, Outcome.toExcept_map] at h
  obtain ⟨l', hl, hnew⟩ := map_eq_ok h
  exact ⟨l', Outcome.toExcept_eq_ok_iff.1 hl, hnew.symm⟩

theorem accepted_call_scale {k : K} {f : Tree K L a s} {v : Value K s} {c : Call K Γ a}
    {new : Tree K L a s} (h : (scale k f v).call c = .accepted new) :
    ∃ f' v', f.call? c = .accepted f' ∧ new = scale k f' v' :=
  accepted_of_complete (fun f => f.value.scale k) (call_scale k f v c) not_dependsOn_of_skips h

theorem accepted_call_squared {m : Pairing s s s} {f : Tree K L a s} {v : Value K s}
    {c : Call K Γ a} {new : Tree K L a s} (h : (squared m f v).call c = .accepted new) :
    ∃ f' v', f.call? c = .accepted f' ∧ new = squared m f' v' :=
  accepted_of_complete (fun f => m.apply f.value f.value) (call_squared m f v c)
    not_dependsOn_of_skips h

theorem accepted_call_sum {f g : Tree K L a s} {v : Value K s} {c : Call K Γ a}
    {new : Tree K L a s} (h : (sum f g v).call c = .accepted new) :
    ∃ f' g' v', f.call? c = .accepted f' ∧ g.call? c = .accepted g' ∧ new = sum f' g' v' :=
  accepted_of_both (fun f g => f.value.add g.value) (call_sum f g v c)
    (fun hskip => not_dependsOn_or_of_skips hskip fun _ => rfl) h

theorem accepted_call_product {m : Pairing s t u} {f : Tree K L a s} {g : Tree K L a t}
    {v : Value K u} {c : Call K Γ a} {new : Tree K L a u}
    (h : (product m f g v).call c = .accepted new) :
    ∃ f' g' v', f.call? c = .accepted f' ∧ g.call? c = .accepted g' ∧ new = product m f' g' v' :=
  accepted_of_both (fun f g => m.apply f.value g.value) (call_product m f g v c)
    (fun hskip => not_dependsOn_or_of_skips hskip fun _ => rfl) h

/-- A minimum or maximum that accepts may have changed its choice. -/
theorem accepted_call_extremum {e : Extremum} {f g : Tree K L a s} {v : Value K s}
    {firstActive : Bool} {c : Call K Γ a} {new : Tree K L a s}
    (h : (extremum e f g v firstActive).call c = .accepted new) :
    ∃ f' g' v' firstActive', f.call? c = .accepted f' ∧ g.call? c = .accepted g' ∧
      new = extremum e f' g' v' firstActive' := by
  obtain ⟨f', g', ⟨v', firstActive'⟩, hf, hg, hnew⟩ :=
    accepted_of_both (n := fun f g (w : Value K s × Bool) => extremum e f g w.1 w.2)
      (v := (v, firstActive))
      (fun f g => (if e.prefersFirst f.value g.value then f.value else g.value,
        e.prefersFirst f.value g.value))
      (call_extremum e f g v firstActive c)
      (fun hskip => not_dependsOn_or_of_skips hskip fun _ => rfl) h
  exact ⟨f', g', v', firstActive', hf, hg, hnew⟩

/-- A composition that accepts has an inner function that accepts. -/
theorem accepted_call_chain {f : Tree K L b s} {g : Tree K L a b} {c : Call K Γ a}
    {new : Tree K L a s} (h : (chain f g).call c = .accepted new) :
    ∃ f' g', g.call? c = .accepted g' ∧ new = chain f' g' := by
  rw [call_chain] at h
  split at h
  case isTrue hdep =>
    cases hg : g.call c with
    | rejected e g' =>
      rw [hg] at h
      cases h
    | accepted g' =>
      rw [hg, ← Outcome.toExcept_eq_ok_iff, Outcome.toExcept_map] at h
      obtain ⟨f', -, hnew⟩ := map_eq_ok h
      exact ⟨f', g', (call?_of_dependsOn hdep).trans hg, hnew.symm⟩
  case isFalse hdep =>
    have hg : g.dependsOn c.slot = false := by simpa using hdep
    cases h
    exact ⟨f, g, call?_of_not_dependsOn hg, rfl⟩

/-- The new tree of each kind of node, if there is one. A leaf gives its new leaf. -/
theorem toExcept_call_leaf (l : L a s) (c : Call K Γ a) :
    ((leaf l : Tree K L a s).call c).toExcept = leaf <$> (Leaf.call l c).toExcept := by
  rw [call_leaf, Outcome.toExcept_map]

/-- A node over one operand is put together again from the new operand. -/
theorem toExcept_call_scale {k : K} {f : Tree K L a s} {v : Value K s} {c : Call K Γ a}
    (h : (scale k f v).skips c.slot = false) :
    ((scale k f v).call c).toExcept = mkScale k <$> (f.call? c).toExcept := by
  simp [call_scale, h]

theorem toExcept_call_squared {m : Pairing s s s} {f : Tree K L a s} {v : Value K s}
    {c : Call K Γ a} (h : (squared m f v).skips c.slot = false) :
    ((squared m f v).call c).toExcept = mkSquared m <$> (f.call? c).toExcept := by
  simp [call_squared, h]

/-- A node over two operands is put together again from both. -/
theorem toExcept_call_sum {f g : Tree K L a s} {v : Value K s} {c : Call K Γ a}
    (h : (sum f g v).skips c.slot = false) :
    ((sum f g v).call c).toExcept =
      (do return mkSum (← (f.call? c).toExcept) (← (g.call? c).toExcept)) := by
  simp [call_sum, h]

theorem toExcept_call_product {m : Pairing s t u} {f : Tree K L a s} {g : Tree K L a t}
    {v : Value K u} {c : Call K Γ a} (h : (product m f g v).skips c.slot = false) :
    ((product m f g v).call c).toExcept =
      (do return mkProduct m (← (f.call? c).toExcept) (← (g.call? c).toExcept)) := by
  simp [call_product, h]

theorem toExcept_call_extremum {e : Extremum} {f g : Tree K L a s} {v : Value K s}
    {firstActive : Bool} {c : Call K Γ a}
    (h : (extremum e f g v firstActive).skips c.slot = false) :
    ((extremum e f g v firstActive).call c).toExcept =
      (do return mkExtremum e (← (f.call? c).toExcept) (← (g.call? c).toExcept)) := by
  simp [call_extremum, h]

/-- The tree with the value of its root recomputed from the operands. -/
def refreshed : {a s : Shape} → Tree K L a s → Tree K L a s
  | _, _, leaf l => leaf l
  | _, _, scale k f _ => mkScale k f
  | _, _, squared m f _ => mkSquared m f
  | _, _, sum f g _ => mkSum f g
  | _, _, product m f g _ => mkProduct m f g
  | _, _, extremum e f g _ _ => mkExtremum e f g
  | _, _, chain f g => chain f g

/-- A tree that does not depend on its argument does no more than recompute its value. -/
theorem call_update_of_not_reacts [LawfulLeaf L] {f : Tree K L a s} (h : f.reacts = false)
    (x : Value K a) : f.call (.update x) = .accepted f.refreshed := by
  cases f with
  | leaf l =>
    have hleaf := LawfulLeaf.call_of_not_dependsOn (l := l) (c := .update x) h
    rw [call_leaf, hleaf]
    rfl
  | scale | squared | sum | product | extremum | chain =>
    simp_all [call, update, reacts, Outcome.both, Outcome.complete, refreshed]

/-- A call to a slot that a tree does not depend on is no different from not calling it, if the
root holds what its operands give. -/
theorem call_of_not_dependsOn [LawfulLeaf L] {f : Tree K L a s} {c : Call K Γ a}
    (h : f.dependsOn c.slot = false) (hfresh : f.refreshed = f) : f.call c = .accepted f := by
  cases c with
  | update x => rw [call_update_of_not_reacts h, hfresh]
  | write i x =>
    have hwrite : f.reactsTo i = false := h
    exact call_of_skips (by simp [skips, Call.slot, hwrite])

/-- Asking first whether a tree depends on the slot makes no difference, if the root holds what its
operands give. -/
theorem call?_eq_call [LawfulLeaf L] {f : Tree K L a s} (hfresh : f.refreshed = f)
    (c : Call K Γ a) : f.call? c = f.call c := by
  cases h : f.dependsOn c.slot with
  | true => exact call?_of_dependsOn h
  | false => rw [call?_of_not_dependsOn h, call_of_not_dependsOn h hfresh]

/-- A node that accepts a call to a slot of its own recomputes its value. -/
theorem refreshed_of_visited {f f' : Tree K L a s} {c : Call K Γ a}
    (hdep : f.dependsOn c.slot = true) (h : f.call c = .accepted f') : f'.refreshed = f' := by
  have hvisit : f.skips c.slot = false := visits_of_dependsOn hdep
  rw [← Outcome.toExcept_eq_ok_iff] at h
  cases f with
  | leaf l =>
    rw [toExcept_call_leaf] at h
    obtain ⟨l', -, rfl⟩ := map_eq_ok h
    rfl
  | scale =>
    rw [toExcept_call_scale hvisit] at h
    obtain ⟨f', -, rfl⟩ := map_eq_ok h
    rfl
  | squared =>
    rw [toExcept_call_squared hvisit] at h
    obtain ⟨f', -, rfl⟩ := map_eq_ok h
    rfl
  | sum =>
    rw [toExcept_call_sum hvisit] at h
    obtain ⟨f', -, h⟩ := bind_eq_ok h
    obtain ⟨g', -, h⟩ := bind_eq_ok h
    cases h
    rfl
  | product =>
    rw [toExcept_call_product hvisit] at h
    obtain ⟨f', -, h⟩ := bind_eq_ok h
    obtain ⟨g', -, h⟩ := bind_eq_ok h
    cases h
    rfl
  | extremum =>
    rw [toExcept_call_extremum hvisit] at h
    obtain ⟨f', -, h⟩ := bind_eq_ok h
    obtain ⟨g', -, h⟩ := bind_eq_ok h
    cases h
    rfl
  | chain =>
    obtain ⟨f', g', -, rfl⟩ := accepted_call_chain (Outcome.toExcept_eq_ok_iff.1 h)
    rfl

/-- A tree that holds at its root what its operands give does so after a call that it accepts. -/
theorem refreshed_of_accepted [LawfulLeaf L] {f f' : Tree K L a s} {c : Call K Γ a}
    (hfresh : f.refreshed = f) (h : f.call c = .accepted f') : f'.refreshed = f' := by
  cases hdep : f.dependsOn c.slot with
  | true => exact refreshed_of_visited hdep h
  | false =>
    rw [call_of_not_dependsOn hdep hfresh] at h
    cases h
    exact hfresh

section Fresh

variable {h : Tree K L a u} {f : Tree K L a s} {g : Tree K L a t} {c : Call K Γ a}

/-- A call to a node that has just been put together over one operand puts it together again,
whether it depends on the slot or not. -/
private theorem toExcept_of_put {put : Tree K L a s → Tree K L a u} (hput : put f = h)
    (hskip : h.skips c.slot = true → h.call c = .accepted h ∧ f.dependsOn c.slot = false)
    (hvisit : h.skips c.slot = false → (h.call c).toExcept = put <$> (f.call? c).toExcept) :
    (h.call c).toExcept = put <$> (f.call? c).toExcept := by
  cases hcase : h.skips c.slot with
  | false => exact hvisit hcase
  | true =>
    obtain ⟨hcall, hf⟩ := hskip hcase
    rw [hcall, call?_of_not_dependsOn hf, ← hput]
    rfl

private theorem toExcept_of_put_both {put : Tree K L a s → Tree K L a t → Tree K L a u}
    (hput : put f g = h) (hnode : ∀ i, h.reactsTo i = (f.reactsTo i || g.reactsTo i))
    (hskip : h.skips c.slot = true → h.call c = .accepted h)
    (hvisit : h.skips c.slot = false →
      (h.call c).toExcept = (do return put (← (f.call? c).toExcept) (← (g.call? c).toExcept))) :
    (h.call c).toExcept =
      (do return put (← (f.call? c).toExcept) (← (g.call? c).toExcept)) := by
  cases hcase : h.skips c.slot with
  | false => exact hvisit hcase
  | true =>
    obtain ⟨hf, hg⟩ := not_dependsOn_or_of_skips hcase hnode
    rw [hskip hcase, call?_of_not_dependsOn hf, call?_of_not_dependsOn hg, ← hput]
    rfl

end Fresh

/-- The nodes that are put together: a multiple. -/
theorem toExcept_call_mkScale (k : K) (f : Tree K L a s) (c : Call K Γ a) :
    ((mkScale k f).call c).toExcept = mkScale k <$> (f.call? c).toExcept :=
  toExcept_of_put rfl
    (fun h => ⟨(call_scale k f _ c).trans (if_pos h), not_dependsOn_of_skips h⟩)
    toExcept_call_scale

theorem toExcept_call_mkSquared (m : Pairing s s s) (f : Tree K L a s) (c : Call K Γ a) :
    ((mkSquared m f).call c).toExcept = mkSquared m <$> (f.call? c).toExcept :=
  toExcept_of_put rfl
    (fun h => ⟨(call_squared m f _ c).trans (if_pos h), not_dependsOn_of_skips h⟩)
    toExcept_call_squared

theorem toExcept_call_mkSum (f g : Tree K L a s) (c : Call K Γ a) :
    ((mkSum f g).call c).toExcept =
      (do return mkSum (← (f.call? c).toExcept) (← (g.call? c).toExcept)) :=
  toExcept_of_put_both rfl (fun _ => rfl) (fun h => (call_sum f g _ c).trans (if_pos h))
    toExcept_call_sum

theorem toExcept_call_mkProduct (m : Pairing s t u) (f : Tree K L a s) (g : Tree K L a t)
    (c : Call K Γ a) :
    ((mkProduct m f g).call c).toExcept =
      (do return mkProduct m (← (f.call? c).toExcept) (← (g.call? c).toExcept)) :=
  toExcept_of_put_both rfl (fun _ => rfl) (fun h => (call_product m f g _ c).trans (if_pos h))
    toExcept_call_product

theorem toExcept_call_mkExtremum (e : Extremum) (f g : Tree K L a s) (c : Call K Γ a) :
    ((mkExtremum e f g).call c).toExcept =
      (do return mkExtremum e (← (f.call? c).toExcept) (← (g.call? c).toExcept)) :=
  toExcept_of_put_both rfl (fun _ => rfl) (fun h => (call_extremum e f g _ _ c).trans (if_pos h))
    toExcept_call_extremum

/-- A composition holds nothing of its own that it could recompute. -/
theorem toExcept_call_chain (f : Tree K L b s) (g : Tree K L a b) (c : Call K Γ a) :
    ((chain f g).call c).toExcept =
      if g.dependsOn c.slot then do
        let g ← (g.call c).toExcept
        let f ← (f.call (.update g.value)).toExcept
        return chain f g
      else .ok (chain f g) := by
  rw [call_chain]
  split
  · cases g.call c with
    | rejected => rfl
    | accepted g =>
      rw [Outcome.toExcept_map]
      rfl
  · rfl

end Directional.Tree
