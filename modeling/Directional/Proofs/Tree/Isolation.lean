import Directional.Proofs.Tree.Position
import Directional.Proofs.Tree.Variables

namespace Directional.Tree

variable {K : Type} {Γ : Nat → Shape} {L : Shape → Shape → Type} [Leaf K Γ L] {a s : Shape}
  {i : Nat} {x : Value K (Γ i)}

/-- The operand in the direction of a turn, unless it is the outer function of a composition. -/
def Subtree.exposed? : Subtree K L → Turn → Option (Subtree K L)
  | ⟨chain _ _⟩, .second => none
  | u, turn => u.operand? turn

/-- The subtree at a position that is not in the outer function of a composition. -/
def Subtree.exposedAt? (u : Subtree K L) : Position → Option (Subtree K L)
  | [] => some u
  | turn :: p => (u.exposed? turn).bind (·.exposedAt? p)

variable [Scalar K]

/-- What is left of an operand by a write to the node above it. -/
inductive Passed (i : Nat) (x : Value K (Γ i)) : Subtree K L → Subtree K L → Prop where
  | kept (u : Subtree K L) : Passed i x u u
  | called {a s : Shape} {f : Tree K L a s} (h : f.reactsTo i = true) :
      Passed i x ⟨f⟩ ⟨(f.write i x).state⟩

/-- What becomes of an operand by an accepted write to the node above it. -/
inductive Accepted (i : Nat) (x : Value K (Γ i)) : Subtree K L → Subtree K L → Prop where
  | mk {a s : Shape} {f f' : Tree K L a s} (h : f.write? i x = .accepted f') :
      Accepted i x ⟨f⟩ ⟨f'⟩

/-- An operand that does not depend on the variable is left as it was. -/
theorem Passed.eq_of_not_reactsTo {u u' : Subtree K L} (h : Passed i x u u')
    (hu : u.tree.reactsTo i = false) : u' = u := by
  cases h with
  | kept => rfl
  | called hf =>
    rw [hf] at hu
    nomatch hu

/-- An operand is written to, or left as it was. -/
private theorem passed_write? (f : Tree K L a s) : Passed i x ⟨f⟩ ⟨(f.write? i x).state⟩ := by
  cases h : f.reactsTo i with
  | true =>
    have hwrite : f.write? i x = f.write i x := by rw [write?, h, Outcome.visit_true]
    rw [hwrite]
    exact .called h
  | false =>
    have hwrite : f.write? i x = .accepted f := by rw [write?, h, Outcome.visit_false]
    rw [hwrite]
    exact .kept _

/-- The write may have stopped before it came to the operand. -/
private theorem passed_of_eq_or_eq {g g' : Tree K L a s}
    (h : g' = g ∨ g' = (g.write? i x).state) : Passed i x ⟨g⟩ ⟨g'⟩ := by
  obtain rfl | rfl := h
  · exact .kept _
  · exact passed_write? g

/-- A write to a node leaves its operands alone or writes to them. -/
theorem passed_exposed? (f : Tree K L a s) (turn : Turn) :
    Option.Rel (Passed i x) (Subtree.exposed? ⟨f⟩ turn)
      (Subtree.exposed? ⟨(f.write i x).state⟩ turn) := by
  cases f with
  | leaf l =>
    have hleaf : ((leaf l : Tree K L a s).write i x).state = leaf (Leaf.write l i x).state :=
      Outcome.state_map _ _
    rw [hleaf]
    cases turn <;> exact .none
  | scale k f v =>
    obtain ⟨v', h⟩ := state_call_scale k f v (.write i x)
    rw [show ((scale k f v).write i x).state = _ from h]
    cases turn with
    | first => exact .some (passed_write? f)
    | second => exact .none
  | squared m f v =>
    obtain ⟨v', h⟩ := state_call_squared m f v (.write i x)
    rw [show ((squared m f v).write i x).state = _ from h]
    cases turn with
    | first => exact .some (passed_write? f)
    | second => exact .none
  | sum f g v =>
    obtain ⟨g', v', hg', h⟩ := state_call_sum f g v (.write i x)
    rw [show ((sum f g v).write i x).state = _ from h]
    cases turn with
    | first => exact .some (passed_write? f)
    | second => exact .some (passed_of_eq_or_eq hg')
  | product m f g v =>
    obtain ⟨g', v', hg', h⟩ := state_call_product m f g v (.write i x)
    rw [show ((product m f g v).write i x).state = _ from h]
    cases turn with
    | first => exact .some (passed_write? f)
    | second => exact .some (passed_of_eq_or_eq hg')
  | extremum e f g v firstActive =>
    obtain ⟨g', v', firstActive', hg', h⟩ := state_call_extremum e f g v firstActive (.write i x)
    rw [show ((extremum e f g v firstActive).write i x).state = _ from h]
    cases turn with
    | first => exact .some (passed_write? f)
    | second => exact .some (passed_of_eq_or_eq hg')
  | chain f g =>
    obtain ⟨f', -, h⟩ := state_call_chain f g (.write i x)
    rw [show ((chain f g).write i x).state = _ from h]
    cases turn with
    | first => exact .some (passed_write? g)
    | second => exact .none

/-- A node that accepts a write has had it accepted by its operands. -/
theorem accepted_exposed? {f f' : Tree K L a s} (h : f.write i x = .accepted f') (turn : Turn) :
    Option.Rel (Accepted i x) (Subtree.exposed? ⟨f⟩ turn) (Subtree.exposed? ⟨f'⟩ turn) := by
  change f.call (.write i x) = .accepted f' at h
  cases f with
  | leaf l =>
    have hleaf : leaf (Leaf.write l i x).state = f' := by
      have hstate := congrArg Outcome.state h
      rw [call_leaf, Outcome.state_map] at hstate
      exact hstate
    rw [← hleaf]
    cases turn <;> exact .none
  | scale k f v =>
    obtain ⟨f', v', hf, rfl⟩ := accepted_call_scale h
    cases turn with
    | first => exact .some (.mk hf)
    | second => exact .none
  | squared m f v =>
    obtain ⟨f', v', hf, rfl⟩ := accepted_call_squared h
    cases turn with
    | first => exact .some (.mk hf)
    | second => exact .none
  | sum f g v =>
    obtain ⟨f', g', v', hf, hg, rfl⟩ := accepted_call_sum h
    cases turn with
    | first => exact .some (.mk hf)
    | second => exact .some (.mk hg)
  | product m f g v =>
    obtain ⟨f', g', v', hf, hg, rfl⟩ := accepted_call_product h
    cases turn with
    | first => exact .some (.mk hf)
    | second => exact .some (.mk hg)
  | extremum e f g v firstActive =>
    obtain ⟨f', g', v', firstActive', hf, hg, rfl⟩ := accepted_call_extremum h
    cases turn with
    | first => exact .some (.mk hf)
    | second => exact .some (.mk hg)
  | chain f g =>
    obtain ⟨f', g', hg, rfl⟩ := accepted_call_chain h
    cases turn with
    | first => exact .some (.mk hg)
    | second => exact .none

private theorem passed_refl (operand : Option (Subtree K L)) :
    Option.Rel (Passed i x) operand operand := by
  cases operand with
  | none => exact .none
  | some u => exact .some (.kept u)

/-- A write passes over the subtrees that do not depend on the variable. The root is the only one
that may be called although it does not. -/
theorem passed_exposedAt? {f : Tree K L a s} {p : Position} (h : f.reactsTo i = true ∨ p ≠ []) :
    Option.Rel (Passed i x) (Subtree.exposedAt? ⟨f⟩ p)
      (Subtree.exposedAt? ⟨(f.write i x).state⟩ p) := by
  induction p generalizing a s with
  | nil =>
    have hf : f.reactsTo i = true := h.resolve_right (· rfl)
    exact .some (.called hf)
  | cons turn p ih =>
    have hstep := passed_exposed? (x := x) f turn
    unfold Subtree.exposedAt?
    generalize Subtree.exposed? ⟨f⟩ turn = operand at hstep ⊢
    generalize Subtree.exposed? ⟨(f.write i x).state⟩ turn = operand' at hstep ⊢
    cases hstep with
    | none => exact .none
    | some hpassed =>
      cases hpassed with
      | called hg => exact ih (.inl hg)
      | kept => exact passed_refl _

/-- A subtree that does not depend on the variable is not called, whatever its leaves make of a
call, and it keeps everything that it holds. -/
theorem exposedAt?_write_of_not_reactsTo {f : Tree K L a s} {p : Position} {u : Subtree K L}
    (hroot : f.reactsTo i = true ∨ p ≠ []) (hu : Subtree.exposedAt? ⟨f⟩ p = some u)
    (hi : u.tree.reactsTo i = false) : Subtree.exposedAt? ⟨(f.write i x).state⟩ p = some u := by
  have hpassed := passed_exposedAt? (x := x) hroot
  rw [hu] at hpassed
  generalize Subtree.exposedAt? ⟨(f.write i x).state⟩ p = after at hpassed ⊢
  cases hpassed with
  | some h => rw [h.eq_of_not_reactsTo hi]

omit [Scalar K] in
/-- Nothing that is exposed in a tree depends on a variable that the tree does not depend on. -/
theorem not_reactsTo_exposed? {f : Tree K L a s} (h : f.reactsTo i = false) {turn : Turn}
    {u : Subtree K L} (hu : Subtree.exposed? ⟨f⟩ turn = some u) : u.tree.reactsTo i = false := by
  cases f with
  | leaf l => cases turn <;> cases hu
  | scale k f v =>
    cases turn <;> cases hu
    exact h
  | squared m f v =>
    cases turn <;> cases hu
    exact h
  | sum f g v =>
    have hoperands := Bool.or_eq_false_iff.1 h
    cases turn <;> cases hu
    · exact hoperands.1
    · exact hoperands.2
  | product m f g v =>
    have hoperands := Bool.or_eq_false_iff.1 h
    cases turn <;> cases hu
    · exact hoperands.1
    · exact hoperands.2
  | extremum e f g v firstActive =>
    have hoperands := Bool.or_eq_false_iff.1 h
    cases turn <;> cases hu
    · exact hoperands.1
    · exact hoperands.2
  | chain f g =>
    cases turn <;> cases hu
    exact h

omit [Scalar K] in
/-- A tree depends on the variables that its exposed subtrees depend on. -/
theorem reactsTo_of_exposedAt? {f : Tree K L a s} {p : Position} {u : Subtree K L}
    (hu : Subtree.exposedAt? ⟨f⟩ p = some u) (h : u.tree.reactsTo i = true) :
    f.reactsTo i = true := by
  induction p generalizing a s with
  | nil =>
    cases hu
    exact h
  | cons turn p ih =>
    obtain ⟨⟨g⟩, hg, hbelow⟩ := Option.bind_eq_some_iff.1 hu
    have hreacts : g.reactsTo i = true := ih hbelow
    by_contra hf
    rw [not_reactsTo_exposed? (Bool.eq_false_iff.2 hf) hg] at hreacts
    nomatch hreacts

/-- Everything that is exposed has accepted the value if it depends on the variable, however deep
it is. -/
theorem accepted_exposedAt? {f f' : Tree K L a s} (h : f.write? i x = .accepted f')
    (p : Position) :
    Option.Rel (Accepted i x) (Subtree.exposedAt? ⟨f⟩ p) (Subtree.exposedAt? ⟨f'⟩ p) := by
  induction p generalizing a s with
  | nil => exact .some (.mk h)
  | cons turn p ih =>
    have hstep : Option.Rel (Accepted i x) (Subtree.exposed? ⟨f⟩ turn)
        (Subtree.exposed? ⟨f'⟩ turn) := by
      cases hf : f.reactsTo i with
      | true =>
        rw [write?, hf, Outcome.visit_true] at h
        exact accepted_exposed? h turn
      | false =>
        rw [write?, hf, Outcome.visit_false] at h
        cases h
        cases hu : Subtree.exposed? ⟨f⟩ turn with
        | none => exact .none
        | some u =>
          have hskip : u.tree.write? i x = .accepted u.tree := by
            rw [write?, not_reactsTo_exposed? hf hu, Outcome.visit_false]
          exact .some (.mk hskip)
    unfold Subtree.exposedAt?
    generalize Subtree.exposed? ⟨f⟩ turn = operand at hstep ⊢
    generalize Subtree.exposed? ⟨f'⟩ turn = operand' at hstep ⊢
    cases hstep with
    | none => exact .none
    | some haccepted =>
      cases haccepted with
      | mk hg => exact ih hg

/-- Only a leaf becomes a leaf. -/
theorem leaf_of_call_accepted {f : Tree K L a s} {c : Call K Γ a} {l' : L a s}
    (h : f.call c = .accepted (leaf l')) : ∃ l, f = leaf l := by
  cases f with
  | leaf l => exact ⟨l, rfl⟩
  | scale =>
    obtain ⟨_, _, -, hnode⟩ := accepted_call_scale h
    nomatch hnode
  | squared =>
    obtain ⟨_, _, -, hnode⟩ := accepted_call_squared h
    nomatch hnode
  | sum =>
    obtain ⟨_, _, _, -, -, hnode⟩ := accepted_call_sum h
    nomatch hnode
  | product =>
    obtain ⟨_, _, _, -, -, hnode⟩ := accepted_call_product h
    nomatch hnode
  | extremum =>
    obtain ⟨_, _, _, _, -, -, hnode⟩ := accepted_call_extremum h
    nomatch hnode
  | chain =>
    obtain ⟨_, _, -, hnode⟩ := accepted_call_chain h
    nomatch hnode

/-- A call to another slot leaves a variable as it is, also in the outer function of a
composition. -/
theorem at?_call_of_var {f : Tree K (Builtin K Γ) a s} {c : Call K Γ a} {j : Nat}
    (hslot : c.slot ≠ .var j) {b t : Shape} {shape : Γ j = t} {v : Value K t} {p : Position}
    (h : Subtree.at? ⟨f⟩ p = some ⟨(leaf (.var j shape v) : Tree K (Builtin K Γ) b t)⟩) :
    Subtree.at? ⟨(f.call c).state⟩ p =
      some ⟨(leaf (.var j shape v) : Tree K (Builtin K Γ) b t)⟩ := by
  -- Whichever operand the position goes on to, it was called or it was not.
  induction f generalizing p with
  | leaf l =>
    cases p with
    | cons turn p => cases turn <;> cases h
    | nil =>
      cases h
      have hskip : Leaf.dependsOn (.var j shape v : Builtin K Γ b t) c.slot = false := by
        cases c with
        | update y => rfl
        | write i x =>
          have hne : i ≠ j := fun hij => hslot (congrArg Slot.var hij)
          simpa [Leaf.dependsOn, Call.slot, Leaf.reactsTo, Builtin.reactsTo] using hne
      rw [call_leaf, LawfulLeaf.call_of_not_dependsOn hskip]
      rfl
  | scale k f w ih =>
    obtain ⟨w', hstate⟩ := state_call_scale k f w c
    rw [hstate]
    cases p with
    | nil => cases h
    | cons turn p =>
      cases turn with
      | first => exact holds_call? (Subtree.at? ⟨·⟩ p = _) h (ih hslot h)
      | second => cases h
  | squared m f w ih =>
    obtain ⟨w', hstate⟩ := state_call_squared m f w c
    rw [hstate]
    cases p with
    | nil => cases h
    | cons turn p =>
      cases turn with
      | first => exact holds_call? (Subtree.at? ⟨·⟩ p = _) h (ih hslot h)
      | second => cases h
  | sum f g w ihf ihg =>
    obtain ⟨g', w', hg', hstate⟩ := state_call_sum f g w c
    rw [hstate]
    cases p with
    | nil => cases h
    | cons turn p =>
      cases turn with
      | first => exact holds_call? (Subtree.at? ⟨·⟩ p = _) h (ihf hslot h)
      | second =>
        exact holds_of_eq_or_eq (Subtree.at? ⟨·⟩ p = _) hg' h (ihg hslot h)
  | product m f g w ihf ihg =>
    obtain ⟨g', w', hg', hstate⟩ := state_call_product m f g w c
    rw [hstate]
    cases p with
    | nil => cases h
    | cons turn p =>
      cases turn with
      | first => exact holds_call? (Subtree.at? ⟨·⟩ p = _) h (ihf hslot h)
      | second =>
        exact holds_of_eq_or_eq (Subtree.at? ⟨·⟩ p = _) hg' h (ihg hslot h)
  | extremum e f g w firstActive ihf ihg =>
    obtain ⟨g', w', firstActive', hg', hstate⟩ := state_call_extremum e f g w firstActive c
    rw [hstate]
    cases p with
    | nil => cases h
    | cons turn p =>
      cases turn with
      | first => exact holds_call? (Subtree.at? ⟨·⟩ p = _) h (ihf hslot h)
      | second =>
        exact holds_of_eq_or_eq (Subtree.at? ⟨·⟩ p = _) hg' h (ihg hslot h)
  | chain f g ihf ihg =>
    obtain ⟨f', hf', hstate⟩ := state_call_chain f g c
    rw [hstate]
    cases p with
    | nil => cases h
    | cons turn p =>
      cases turn with
      | first => exact holds_call? (Subtree.at? ⟨·⟩ p = _) h (ihg hslot h)
      | second =>
        -- The outer function may have been told a new argument, which writes no variable of its
        -- own.
        obtain rfl | ⟨y, rfl⟩ := hf'
        · exact h
        · have hargument : (Call.update y : Call K Γ _).slot ≠ .var j := by simp [Call.slot]
          exact ihf hargument h

end Directional.Tree

namespace Directional

/-- A leaf that counts the writes that come to it. -/
structure Counted (L : Shape → Shape → Type) (a s : Shape) where
  leaf : L a s
  writes : Nat

instance {K : Type} {Γ : Nat → Shape} {L : Shape → Shape → Type} [Leaf K Γ L] :
    Leaf K Γ (Counted L) where
  value l := Leaf.value l.leaf
  slots l := Leaf.slots l.leaf
  reacts l := Leaf.reacts l.leaf
  update l x := (Leaf.update l.leaf x).map (⟨·, l.writes⟩)
  reactsTo l := Leaf.reactsTo l.leaf
  write l i x := (Leaf.write l.leaf i x).map (⟨·, l.writes + 1⟩)
  has₁ l := Leaf.has₁ l.leaf
  answer₁ l := Leaf.answer₁ l.leaf
  has₂ l := Leaf.has₂ l.leaf
  answer₂ l := Leaf.answer₂ l.leaf
  has₃ l := Leaf.has₃ l.leaf
  answer₃ l := Leaf.answer₃ l.leaf

namespace Tree

variable {K : Type} [Scalar K] {Γ : Nat → Shape}

/-- The library's leaves are left alone by a write that does not concern them, so that it makes no
difference at the root whether such a write is made. -/
theorem write?_eq_write {a s : Shape} (f : Tree K (Builtin K Γ) a s) (i : Nat)
    (x : Value K (Γ i)) : f.write? i x = f.write i x := by
  cases h : f.reactsTo i with
  | true => rw [write?, h, Outcome.visit_true]
  | false =>
    have hskip : f.skips (.var i) = true := by simp [skips, h]
    have hwrite : f.write i x = .accepted f := call_of_skips (c := .write i x) hskip
    rw [write?, h, Outcome.visit_false, hwrite]

section Variable

variable {a s b t : Shape} {i : Nat} {x : Value K (Γ i)} {shape : Γ i = t} {v : Value K t}
  {f f' : Tree K (Builtin K Γ) a s} {u : Subtree K (Builtin K Γ)} {p : Position}

/-- A subtree that does not depend on the variable keeps everything that it holds, also if it is the
tree itself. -/
theorem exposedAt?_write (hu : Subtree.exposedAt? ⟨f⟩ p = some u)
    (hi : u.tree.reactsTo i = false) : Subtree.exposedAt? ⟨(f.write i x).state⟩ p = some u := by
  cases hf : f.reactsTo i with
  | true => exact exposedAt?_write_of_not_reactsTo (.inl hf) hu hi
  | false =>
    rw [← write?_eq_write, write?, hf, Outcome.visit_false]
    exact hu

/-- A variable takes the value that is written into it. -/
theorem Accepted.of_var (h : Accepted i x ⟨(leaf (.var i shape v) : Tree K (Builtin K Γ) b t)⟩ u) :
    u = ⟨(leaf (.var i shape (x.cast shape)) : Tree K (Builtin K Γ) b t)⟩ := by
  cases h with
  | mk h =>
    rw [write?_eq_write] at h
    simp only [write, Leaf.write, Builtin.write, dite_true, Outcome.map,
      Outcome.accepted.injEq] at h
    rw [← h]

/-- A variable that is there after it has been written holds the new value. -/
theorem Accepted.to_var
    (h : Accepted i x u ⟨(leaf (.var i shape v) : Tree K (Builtin K Γ) b t)⟩) :
    v = x.cast shape := by
  cases h with
  | mk h =>
    rw [write?_eq_write] at h
    obtain ⟨l, rfl⟩ := leaf_of_call_accepted (c := .write i x) h
    cases l with
    | var j shape' w =>
      by_cases hj : i = j
      · subst hj
        simp [write, Leaf.write, Builtin.write, Outcome.map] at h
        exact h.symm
      · simp [write, Leaf.write, Builtin.write, Outcome.map, hj] at h
        exact absurd h.1.symm hj
    | _ => cases h

/-- An accepted write comes to the variable wherever it is exposed. -/
theorem exposedAt?_of_var (h : f.write i x = .accepted f')
    (hv : Subtree.exposedAt? ⟨f⟩ p = some ⟨(leaf (.var i shape v) : Tree K (Builtin K Γ) b t)⟩) :
    Subtree.exposedAt? ⟨f'⟩ p =
      some ⟨(leaf (.var i shape (x.cast shape)) : Tree K (Builtin K Γ) b t)⟩ := by
  rw [← write?_eq_write] at h
  have hp := accepted_exposedAt? h p
  rw [hv] at hp
  generalize Subtree.exposedAt? ⟨f'⟩ p = after at hp ⊢
  cases hp with
  | some h => rw [h.of_var]

/-- After an accepted write the variable holds the new value wherever it is exposed. -/
theorem eq_of_exposedAt?_var (h : f.write i x = .accepted f')
    (hv : Subtree.exposedAt? ⟨f'⟩ p = some ⟨(leaf (.var i shape v) : Tree K (Builtin K Γ) b t)⟩) :
    v = x.cast shape := by
  rw [← write?_eq_write] at h
  have hp := accepted_exposedAt? h p
  rw [hv] at hp
  generalize Subtree.exposedAt? ⟨f⟩ p = before at hp
  cases hp with
  | some h => exact h.to_var

end Variable

section Counting

variable {a s b t : Shape} {i : Nat} {x : Value K (Γ i)} {l : Counted (Builtin K Γ) b t}
  {u : Subtree K (Counted (Builtin K Γ))} {g g' : Tree K (Counted (Builtin K Γ)) a s} {p : Position}

/-- A leaf that counts its writes has got one more if it has accepted one. -/
theorem Accepted.of_counted (h : Accepted i x ⟨leaf l⟩ u) (hi : l.leaf.reactsTo i = true) :
    ∃ l' : Counted (Builtin K Γ) b t, u = ⟨leaf l'⟩ ∧ l'.writes = l.writes + 1 := by
  cases h with
  | @mk _ _ _ f' h =>
    have hreacts : (leaf l : Tree K (Counted (Builtin K Γ)) b t).reactsTo i = true := hi
    rw [write?, hreacts, Outcome.visit_true] at h
    have hstate := congrArg Outcome.state h
    rw [write, Outcome.state_map] at hstate
    have hleaf : f' = leaf (Leaf.write l i x).state := hstate.symm
    subst hleaf
    exact ⟨_, rfl, congrArg Counted.writes (Outcome.state_map _ _)⟩

/-- An accepted write comes once to every exposed leaf that depends on the variable. -/
theorem exposedAt?_of_counted (h : g.write i x = .accepted g')
    (hl : Subtree.exposedAt? ⟨g⟩ p = some ⟨leaf l⟩) (hi : l.leaf.reactsTo i = true) :
    ∃ l' : Counted (Builtin K Γ) b t,
      Subtree.exposedAt? ⟨g'⟩ p = some ⟨leaf l'⟩ ∧ l'.writes = l.writes + 1 := by
  have hroot : g.reactsTo i = true := reactsTo_of_exposedAt? hl hi
  have hvisit : g.write? i x = .accepted g' := by
    rw [write?, hroot, Outcome.visit_true, h]
  have hp := accepted_exposedAt? hvisit p
  rw [hl] at hp
  generalize Subtree.exposedAt? ⟨g'⟩ p = after at hp ⊢
  cases hp with
  | some h =>
    obtain ⟨l', rfl, hwrites⟩ := h.of_counted hi
    exact ⟨l', rfl, hwrites⟩

end Counting

/-- A tree in which a variable does not occur does not depend on it. -/
theorem not_reactsTo_of_notMem_vars {a s : Shape} {f : Tree K (Builtin K Γ) a s} {i : Nat}
    (h : i ∉ f.vars) : f.reactsTo i = false :=
  Bool.eq_false_iff.2 fun hreacts => h (mem_vars_of_reactsTo hreacts)

/-- A write to a variable is felt by what depends on the variable and by nothing else. A subtree
outside the outer functions of compositions keeps everything that it holds if the variable does not
occur in it, and so does a composition if the variable does not occur in its inner function, whether
the write is accepted or rejected and whatever the state is that it meets. If it is accepted, the
variable has the new value at every place outside the outer functions. Other variables keep their
values at all places. A tree in which the variable does not occur accepts the write as it is. Leaves
that count their writes show where it goes: below the root no write comes to a subtree that does not
depend on the variable, and an accepted one comes to every leaf that does, once. -/
theorem write_isolates_variable {a s : Shape} (f : Tree K (Builtin K Γ) a s) (i : Nat)
    (x : Value K (Γ i)) :
    (∀ p u, Subtree.exposedAt? ⟨f⟩ p = some u → i ∉ u.tree.vars →
      Subtree.exposedAt? ⟨(f.write i x).state⟩ p = some u) ∧
    (∀ p {b c t} (h : Tree K (Builtin K Γ) c t) (g : Tree K (Builtin K Γ) b c),
      Subtree.exposedAt? ⟨f⟩ p = some ⟨chain h g⟩ → i ∉ g.vars →
        Subtree.exposedAt? ⟨(f.write i x).state⟩ p = some ⟨chain h g⟩) ∧
    (∀ f', f.write i x = .accepted f' → ∀ p {b t} (shape : Γ i = t) (v : Value K t),
      (Subtree.exposedAt? ⟨f⟩ p = some ⟨(leaf (.var i shape v) : Tree K (Builtin K Γ) b t)⟩ →
        Subtree.exposedAt? ⟨f'⟩ p =
          some ⟨(leaf (.var i shape (x.cast shape)) : Tree K (Builtin K Γ) b t)⟩) ∧
      (Subtree.exposedAt? ⟨f'⟩ p = some ⟨(leaf (.var i shape v) : Tree K (Builtin K Γ) b t)⟩ →
        v = x.cast shape)) ∧
    (∀ p j {b t} (shape : Γ j = t) (v : Value K t), j ≠ i →
      Subtree.at? ⟨f⟩ p = some ⟨(leaf (.var j shape v) : Tree K (Builtin K Γ) b t)⟩ →
        Subtree.at? ⟨(f.write i x).state⟩ p =
          some ⟨(leaf (.var j shape v) : Tree K (Builtin K Γ) b t)⟩) ∧
    (i ∉ f.vars → f.write i x = .accepted f) ∧
    ∀ g : Tree K (Counted (Builtin K Γ)) a s,
      (∀ p u, p ≠ [] → Subtree.exposedAt? ⟨g⟩ p = some u → u.tree.reactsTo i = false →
        Subtree.exposedAt? ⟨(g.write i x).state⟩ p = some u) ∧
      ∀ g', g.write i x = .accepted g' → ∀ p {b t} (l : Counted (Builtin K Γ) b t),
        Subtree.exposedAt? ⟨g⟩ p = some ⟨leaf l⟩ → l.leaf.reactsTo i = true →
          ∃ l' : Counted (Builtin K Γ) b t,
            Subtree.exposedAt? ⟨g'⟩ p = some ⟨leaf l'⟩ ∧ l'.writes = l.writes + 1 := by
  refine ⟨?_, ?_, ?_, ?_, ?_, ?_⟩
  · intro p u hu hi
    exact exposedAt?_write hu (not_reactsTo_of_notMem_vars hi)
  · intro p b c t h g hu hi
    -- a write does not ask for the variables of an outer function
    have hskip : g.reactsTo i = false := not_reactsTo_of_notMem_vars hi
    exact exposedAt?_write hu hskip
  · intro f' haccepted p b t shape v
    exact ⟨exposedAt?_of_var haccepted, eq_of_exposedAt?_var haccepted⟩
  · intro p j b t shape v hj hv
    have hslot : (Call.write i x : Call K Γ a).slot ≠ .var j :=
      fun hslot => hj (Slot.var.inj hslot).symm
    exact at?_call_of_var hslot hv
  · intro hi
    rw [← write?_eq_write, write?, not_reactsTo_of_notMem_vars hi, Outcome.visit_false]
  · intro g
    constructor
    · intro p u hp hu hi
      exact exposedAt?_write_of_not_reactsTo (.inr hp) hu hi
    · intro g' haccepted p b t l hl hi
      exact exposedAt?_of_counted haccepted hl hi

/-- In the sum of two variables times the logarithm of a third one, a write to the third one leaves
the sum alone, comes to the variable in the composition, and counts once. -/
theorem write_isolates_variable_sum_times_logarithm :
    let x (i : Nat) (v : ℚ) : Tree ℚ (Builtin ℚ fun _ => .scalar) .scalar .scalar :=
      .leaf (.var i rfl v)
    let logarithm : Tree ℚ (Builtin ℚ fun _ => .scalar) .scalar .scalar :=
      .leaf (.elementary ⟨.ln, 3, ElementaryFunction.ln.jet 3⟩)
    let f : Tree ℚ (Builtin ℚ fun _ => .scalar) .scalar .scalar :=
      .product .scalars (.sum (x 0 1) (x 1 2) 3) (.chain logarithm (x 2 3)) 0
    let counted (i n : Nat) (v : ℚ) : Tree ℚ (Counted (Builtin ℚ fun _ => .scalar)) .scalar .scalar :=
      .leaf ⟨.var i rfl v, n⟩
    let g : Tree ℚ (Counted (Builtin ℚ fun _ => .scalar)) .scalar .scalar :=
      .sum (counted 0 0 1) (counted 1 0 2) 3
    (f.write 2 (5 : ℚ)).result = .ok () ∧
      Subtree.exposedAt? ⟨(f.write 2 (5 : ℚ)).state⟩ [.first] = some ⟨.sum (x 0 1) (x 1 2) 3⟩ ∧
      Subtree.exposedAt? ⟨(f.write 2 (5 : ℚ)).state⟩ [.second, .first] = some ⟨x 2 5⟩ ∧
      (f.write 2 (-1 : ℚ)).result ≠ .ok () ∧
      Subtree.exposedAt? ⟨(f.write 2 (-1 : ℚ)).state⟩ [.first] = some ⟨.sum (x 0 1) (x 1 2) 3⟩ ∧
      f.write 7 (5 : ℚ) = .accepted f ∧
      Subtree.exposedAt? ⟨(g.write 1 (5 : ℚ)).state⟩ [.first] = some ⟨counted 0 0 1⟩ := by
  intro x logarithm f counted g
  obtain ⟨hkept, -, haccepted, -⟩ := f.write_isolates_variable 2 (5 : ℚ)
  obtain ⟨hkept', -⟩ := f.write_isolates_variable 2 (-1 : ℚ)
  obtain ⟨-, -, -, -, habsent, -⟩ := f.write_isolates_variable 7 (5 : ℚ)
  obtain ⟨-, -, -, -, -, hg⟩ := f.write_isolates_variable 1 (5 : ℚ)
  have hsum : 2 ∉ (Tree.sum (x 0 1) (x 1 2) 3).vars := by
    change 2 ∉ [0, 1]
    decide
  have hf : 7 ∉ f.vars := by
    change 7 ∉ [0, 1, 2]
    decide
  have hwrite : f.write 2 (5 : ℚ) = .accepted (f.write 2 (5 : ℚ)).state := rfl
  have hvariable := (haccepted _ hwrite [.second, .first] rfl (3 : ℚ)).1 rfl
  have hrejected : (f.write 2 (-1 : ℚ)).result ≠ .ok () := fun h => nomatch h
  exact ⟨rfl, hkept [.first] _ rfl hsum, hvariable, hrejected, hkept' [.first] _ rfl hsum,
    habsent hf, (hg g).1 [.first] _ (List.cons_ne_nil _ _) rfl rfl⟩

end Tree

end Directional
