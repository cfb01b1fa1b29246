import Directional.Proofs.Exact.Field
import Directional.Proofs.Tree.Position

namespace Directional.Tree

variable {K : Type} [Scalar K] {Γ : Nat → Shape} {L : Shape → Shape → Type} [Leaf K Γ L]

/-- A node that a call has completed: a leaf has accepted what was handed to it, and any other node
holds what its operands give. -/
inductive Completed : Subtree K L → Handed K Γ L → Prop where
  | leaf {a s : Shape} {l l' : L a s} {c : Call K Γ a} (h : Leaf.call l c = .accepted l') :
      Completed ⟨leaf l⟩ ⟨leaf l', c⟩
  | scale {a s : Shape} (k : K) (f f' : Tree K L a s) (v : Value K s) (c : Call K Γ a) :
      Completed ⟨scale k f v⟩ ⟨mkScale k f', c⟩
  | squared {a s : Shape} (m : Pairing s s s) (f f' : Tree K L a s) (v : Value K s)
      (c : Call K Γ a) : Completed ⟨squared m f v⟩ ⟨mkSquared m f', c⟩
  | sum {a s : Shape} (f g f' g' : Tree K L a s) (v : Value K s) (c : Call K Γ a) :
      Completed ⟨sum f g v⟩ ⟨mkSum f' g', c⟩
  | product {a s t u : Shape} (m : Pairing s t u) (f f' : Tree K L a s) (g g' : Tree K L a t)
      (v : Value K u) (c : Call K Γ a) : Completed ⟨product m f g v⟩ ⟨mkProduct m f' g', c⟩
  | extremum {a s : Shape} (e : Extremum) (f g f' g' : Tree K L a s) (v : Value K s)
      (firstActive : Bool) (c : Call K Γ a) :
      Completed ⟨extremum e f g v firstActive⟩ ⟨mkExtremum e f' g', c⟩
  | chain {a b s : Shape} (f f' : Tree K L b s) (g g' : Tree K L a b) (c : Call K Γ a) :
      Completed ⟨chain f g⟩ ⟨chain f' g', c⟩

/-- A node that keeps what it held: a leaf its state, and any other node its value. -/
inductive Kept : Subtree K L → Handed K Γ L → Prop where
  | leaf {a s : Shape} (l : L a s) (c : Call K Γ a) : Kept ⟨leaf l⟩ ⟨leaf l, c⟩
  | scale {a s : Shape} (k : K) (f f' : Tree K L a s) (v : Value K s) (c : Call K Γ a) :
      Kept ⟨scale k f v⟩ ⟨scale k f' v, c⟩
  | squared {a s : Shape} (m : Pairing s s s) (f f' : Tree K L a s) (v : Value K s)
      (c : Call K Γ a) : Kept ⟨squared m f v⟩ ⟨squared m f' v, c⟩
  | sum {a s : Shape} (f g f' g' : Tree K L a s) (v : Value K s) (c : Call K Γ a) :
      Kept ⟨sum f g v⟩ ⟨sum f' g' v, c⟩
  | product {a s t u : Shape} (m : Pairing s t u) (f f' : Tree K L a s) (g g' : Tree K L a t)
      (v : Value K u) (c : Call K Γ a) : Kept ⟨product m f g v⟩ ⟨product m f' g' v, c⟩
  | extremum {a s : Shape} (e : Extremum) (f g f' g' : Tree K L a s) (v : Value K s)
      (firstActive : Bool) (c : Call K Γ a) :
      Kept ⟨extremum e f g v firstActive⟩ ⟨extremum e f' g' v firstActive, c⟩
  | chain {a b s : Shape} (f f' : Tree K L b s) (g g' : Tree K L a b) (c : Call K Γ a) :
      Kept ⟨chain f g⟩ ⟨chain f' g', c⟩

/-- A leaf that rejects what is handed to it, with the error `e`. -/
inductive Rejecting (e : DomainError K) : Handed K Γ L → Prop where
  | leaf {a s : Shape} {l : L a s} {c : Call K Γ a} (h : Leaf.call l c = .rejected e l) :
      Rejecting e ⟨leaf l, c⟩

/-- The nodes at the positions `done` have been completed, and all others keep what they held. -/
structure Effect (u : Subtree K L) (v : Handed K Γ L) (done : List Position) : Prop where
  completed : ∀ p ∈ done, ∃ x ∈ u.at? p, ∃ y ∈ v.at? p, Completed x y
  kept : ∀ p ∉ done, Option.Rel Kept (u.at? p) (v.at? p)

/-- The effect on an operand, where there is one. -/
inductive OperandEffect : Option (Subtree K L) → Option (Handed K Γ L) → List Position → Prop where
  | absent : OperandEffect none none []
  | present {u : Subtree K L} {v : Handed K Γ L} {done : List Position} (h : Effect u v done) :
      OperandEffect (some u) (some v) done

namespace OperandEffect

variable {u : Option (Subtree K L)} {v : Option (Handed K Γ L)} {done : List Position}
  {p : Position}

/-- A position on the way of the call has been completed. -/
theorem completed (h : OperandEffect u v done) (hp : p ∈ done) :
    ∃ x ∈ u.bind (·.at? p), ∃ y ∈ v.bind (·.at? p), Completed x y := by
  cases h with
  | absent => nomatch hp
  | present h => exact h.completed p hp

/-- A position off the way of the call keeps what it held. -/
theorem kept (h : OperandEffect u v done) (hp : p ∉ done) :
    Option.Rel Kept (u.bind (·.at? p)) (v.bind (·.at? p)) := by
  cases h with
  | absent => exact .none
  | present h => exact h.kept p hp

end OperandEffect

namespace Effect

variable {u : Subtree K L} {v : Handed K Γ L} {first second : List Position}

/-- A node that is completed after its operands. -/
theorem complete (hfirst : OperandEffect (u.operand? .first) (v.operand? .first) first)
    (hsecond : OperandEffect (u.operand? .second) (v.operand? .second) second)
    (hroot : Completed u v) : Effect u v (inOperands first second ++ [[]]) where
  completed p hp := by
    match p with
    | [] => exact ⟨u, rfl, v, rfl, hroot⟩
    | .first :: p => exact hfirst.completed (by simpa using hp)
    | .second :: p => exact hsecond.completed (by simpa using hp)
  kept p hp := by
    match p with
    | [] => simp at hp
    | .first :: p => exact hfirst.kept (by simpa using hp)
    | .second :: p => exact hsecond.kept (by simpa using hp)

/-- A node that is not completed. -/
theorem interrupt (hfirst : OperandEffect (u.operand? .first) (v.operand? .first) first)
    (hsecond : OperandEffect (u.operand? .second) (v.operand? .second) second)
    (hroot : Kept u v) : Effect u v (inOperands first second) where
  completed p hp := by
    match p with
    | [] => simp at hp
    | .first :: p => exact hfirst.completed (by simpa using hp)
    | .second :: p => exact hsecond.completed (by simpa using hp)
  kept p hp := by
    match p with
    | [] => exact .some hroot
    | .first :: p => exact hfirst.kept (by simpa using hp)
    | .second :: p => exact hsecond.kept (by simpa using hp)

/-- Nothing becomes of a tree that is not called. -/
theorem refl {a s : Shape} (f : Tree K L a s) (c : Call K Γ a) : Effect ⟨f⟩ ⟨f, c⟩ [] := by
  rw [← inOperands_nil]
  induction f with
  | leaf l => exact interrupt .absent .absent (.leaf l c)
  | scale k f v ih => exact interrupt (.present (ih c)) .absent (.scale k f f v c)
  | squared m f v ih => exact interrupt (.present (ih c)) .absent (.squared m f f v c)
  | sum f g v ihf ihg =>
    exact interrupt (.present (ihf c)) (.present (ihg c)) (.sum f g f g v c)
  | product m f g v ihf ihg =>
    exact interrupt (.present (ihf c)) (.present (ihg c)) (.product m f f g g v c)
  | extremum e f g v firstActive ihf ihg =>
    exact interrupt (.present (ihf c)) (.present (ihg c)) (.extremum e f g f g v firstActive c)
  | chain f g ihf ihg =>
    exact interrupt (.present (ihg c)) (.present (ihf _)) (.chain f f g g c)

end Effect

/-- How far a call gets that visits the positions `agenda` in this order: to its end, or to a leaf
that rejects it. -/
inductive Progress {a s : Shape} (f : Tree K L a s) (c : Call K Γ a) (agenda : List Position) :
    Outcome (DomainError K) (Tree K L a s) → Prop where
  | done {f' : Tree K L a s} (effect : Effect ⟨f⟩ ⟨f', c⟩ agenda) :
      Progress f c agenda (.accepted f')
  | stopped {e : DomainError K} {f' : Tree K L a s} (before : List Position) (p : Position)
      (after : List Position) (order : agenda = before ++ p :: after)
      (rejecting : ∃ y ∈ Handed.at? ⟨f', c⟩ p, Rejecting e y)
      (effect : Effect ⟨f⟩ ⟨f', c⟩ before) (above : ∀ q, q <+: p → q ∉ before) :
      Progress f c agenda (.rejected e f')

/-- What comes before a position in the first operand is in the first operand. -/
private theorem notMem_inOperands_first {p : Position} {before second : List Position}
    (h : ∀ q, q <+: p → q ∉ before) (q : Position) (hq : q <+: Turn.first :: p) :
    q ∉ inOperands before second := by
  obtain rfl | ⟨q', rfl, hq'⟩ := List.prefix_cons_iff.1 hq
  · exact nil_notMem_inOperands
  · simpa using h q' hq'

/-- Above a position in the second operand there is nothing in the first one. -/
private theorem notMem_inOperands_second {p : Position} {first before : List Position}
    (h : ∀ q, q <+: p → q ∉ before) (q : Position) (hq : q <+: Turn.second :: p) :
    q ∉ inOperands first before := by
  obtain rfl | ⟨q', rfl, hq'⟩ := List.prefix_cons_iff.1 hq
  · exact nil_notMem_inOperands
  · simpa using h q' hq'

namespace Progress

variable {a b s t u : Shape} {n n' : Tree K L a u} {f f' : Tree K L a s} {g g' : Tree K L b t}
  {c : Call K Γ a} {d : Call K Γ b} {e : DomainError K} {first second : List Position}

/-- A call that is accepted gets to the end of its agenda. -/
theorem effect_of_accepted (h : Progress f c first (.accepted f')) :
    Effect ⟨f⟩ ⟨f', c⟩ first := by
  cases h with
  | done effect => exact effect

/-- A node whose first operand rejects the call does not come to the second one. -/
theorem stop_first (hf : Progress f c first (.rejected e f'))
    (hn : Subtree.operand? ⟨n⟩ .first = some ⟨f⟩)
    (hn' : Handed.operand? ⟨n', c⟩ .first = some ⟨f', c⟩)
    (hsecond : OperandEffect (Subtree.operand? ⟨n⟩ .second) (Handed.operand? ⟨n', c⟩ .second) [])
    (kept : Kept ⟨n⟩ ⟨n', c⟩) :
    Progress n c (inOperands first second ++ [[]]) (.rejected e n') := by
  cases hf with
  | stopped before p after order rejecting effect above =>
    refine .stopped (inOperands before []) (.first :: p)
      (after.map (.first :: ·) ++ second.map (.second :: ·) ++ [[]])
      (by simp [order, inOperands]) ?_ (.interrupt ?_ hsecond kept) (notMem_inOperands_first above)
    · rw [Handed.at?, hn']
      exact rejecting
    · rw [hn, hn']
      exact .present effect

/-- A node whose second operand rejects the call is through with the first one. -/
theorem stop_second (hf : Progress f c first (.accepted f')) (hg : Progress g d second (.rejected e g'))
    (hn : Subtree.operand? ⟨n⟩ .first = some ⟨f⟩ ∧ Subtree.operand? ⟨n⟩ .second = some ⟨g⟩)
    (hn' : Handed.operand? ⟨n', c⟩ .first = some ⟨f', c⟩ ∧
      Handed.operand? ⟨n', c⟩ .second = some ⟨g', d⟩)
    (kept : Kept ⟨n⟩ ⟨n', c⟩) :
    Progress n c (inOperands first second ++ [[]]) (.rejected e n') := by
  cases hg with
  | stopped before p after order rejecting effect above =>
    refine .stopped (inOperands first before) (.second :: p) (after.map (.second :: ·) ++ [[]])
      (by simp [order, inOperands]) ?_ (.interrupt ?_ ?_ kept) (notMem_inOperands_second above)
    · rw [Handed.at?, hn'.2]
      exact rejecting
    · rw [hn.1, hn'.1]
      exact .present hf.effect_of_accepted
    · rw [hn.2, hn'.2]
      exact .present effect

/-- A node that makes the call to its one operand, and is put together by `accept` or `reject`. -/
theorem single {accept reject : Tree K L a s → Tree K L a u}
    {o : Outcome (DomainError K) (Tree K L a s)} (hf : Progress f c first o)
    (hn : Subtree.operand? ⟨n⟩ .first = some ⟨f⟩ ∧ Subtree.operand? ⟨n⟩ .second = none)
    (haccept : ∀ f', Handed.operand? ⟨accept f', c⟩ .first = some ⟨f', c⟩ ∧
      Handed.operand? ⟨accept f', c⟩ .second = none)
    (hreject : ∀ f', Handed.operand? ⟨reject f', c⟩ .first = some ⟨f', c⟩ ∧
      Handed.operand? ⟨reject f', c⟩ .second = none)
    (completed : ∀ f', Completed ⟨n⟩ ⟨accept f', c⟩) (kept : ∀ f', Kept ⟨n⟩ ⟨reject f', c⟩) :
    Progress n c (inOperands first [] ++ [[]]) (o.complete accept reject) := by
  cases o with
  | rejected e f' =>
    refine hf.stop_first hn.1 (hreject f').1 ?_ (kept f')
    rw [hn.2, (hreject f').2]
    exact .absent
  | accepted f' =>
    refine .done (.complete ?_ ?_ (completed f'))
    · rw [hn.1, (haccept f').1]
      exact .present hf.effect_of_accepted
    · rw [hn.2, (haccept f').2]
      exact .absent

/-- A node that makes the same call to two operands, and is put together by `accept` or `reject`. -/
theorem both {g : Tree K L a t} {accept reject : Tree K L a s → Tree K L a t → Tree K L a u}
    {o : Outcome (DomainError K) (Tree K L a s)} {o' : Outcome (DomainError K) (Tree K L a t)}
    (hf : Progress f c first o) (hg : Progress g c second o')
    (hn : Subtree.operand? ⟨n⟩ .first = some ⟨f⟩ ∧ Subtree.operand? ⟨n⟩ .second = some ⟨g⟩)
    (haccept : ∀ f' g', Handed.operand? ⟨accept f' g', c⟩ .first = some ⟨f', c⟩ ∧
      Handed.operand? ⟨accept f' g', c⟩ .second = some ⟨g', c⟩)
    (hreject : ∀ f' g', Handed.operand? ⟨reject f' g', c⟩ .first = some ⟨f', c⟩ ∧
      Handed.operand? ⟨reject f' g', c⟩ .second = some ⟨g', c⟩)
    (completed : ∀ f' g', Completed ⟨n⟩ ⟨accept f' g', c⟩)
    (kept : ∀ f' g', Kept ⟨n⟩ ⟨reject f' g', c⟩) :
    Progress n c (inOperands first second ++ [[]]) (.both accept reject o g o') := by
  cases o with
  | rejected e f' =>
    refine hf.stop_first hn.1 (hreject f' g).1 ?_ (kept f' g)
    rw [hn.2, (hreject f' g).2]
    exact .present (.refl g c)
  | accepted f' =>
    cases o' with
    | rejected e g' => exact hf.stop_second hg hn (hreject f' g') (kept f' g')
    | accepted g' =>
      refine .done (.complete ?_ ?_ (completed f' g'))
      · rw [hn.1, (haccept f' g').1]
        exact .present hf.effect_of_accepted
      · rw [hn.2, (haccept f' g').2]
        exact .present hg.effect_of_accepted

/-- A call of an operand, which is visited if it depends on the slot. -/
theorem visited {f : Tree K L a s} (h : Progress f c (f.agenda c.slot) (f.call c)) :
    Progress f c (agenda.visited f c.slot (f.agenda c.slot)) (f.call? c) := by
  cases hdep : f.dependsOn c.slot with
  | true =>
    rw [call?_of_dependsOn hdep, agenda.visited, if_pos hdep]
    exact h
  | false =>
    rw [call?_of_not_dependsOn hdep, agenda.visited, hdep]
    exact .done (.refl f c)

end Progress

variable [LawfulLeaf L] {a s : Shape}

/-- A call visits its agenda, and what it has done when it ends is the effect of that. -/
theorem progress_call (f : Tree K L a s) (c : Call K Γ a) :
    Progress f c (f.agenda c.slot) (f.call c) := by
  -- The call is not fixed, since a composition hands different calls to its two functions.
  induction f with
  | leaf l =>
    rw [call_leaf]
    cases h : Leaf.call l c with
    | accepted l' =>
      have effect : Effect ⟨leaf l⟩ ⟨leaf l', c⟩ (inOperands [] [] ++ [[]]) :=
        .complete .absent .absent (.leaf h)
      exact .done effect
    | rejected e l' =>
      cases LawfulLeaf.eq_of_call_rejected h
      exact .stopped [] [] [] rfl ⟨_, rfl, .leaf h⟩ (.refl _ c) (by simp)
  | scale k f v ih =>
    rw [call_scale, agenda]
    split
    · exact .done (.refl _ c)
    · have hf := (ih c).visited
      exact hf.single ⟨rfl, rfl⟩ (fun _ => ⟨rfl, rfl⟩) (fun _ => ⟨rfl, rfl⟩)
        (fun f' => .scale k f f' v c) fun f' => .scale k f f' v c
  | squared m f v ih =>
    rw [call_squared, agenda]
    split
    · exact .done (.refl _ c)
    · have hf := (ih c).visited
      exact hf.single ⟨rfl, rfl⟩ (fun _ => ⟨rfl, rfl⟩) (fun _ => ⟨rfl, rfl⟩)
        (fun f' => .squared m f f' v c) fun f' => .squared m f f' v c
  | sum f g v ihf ihg =>
    rw [call_sum, agenda]
    split
    · exact .done (.refl _ c)
    · have hf := (ihf c).visited
      have hg := (ihg c).visited
      exact hf.both hg ⟨rfl, rfl⟩ (fun _ _ => ⟨rfl, rfl⟩)
        (fun _ _ => ⟨rfl, rfl⟩) (fun f' g' => .sum f g f' g' v c) fun f' g' => .sum f g f' g' v c
  | product m f g v ihf ihg =>
    rw [call_product, agenda]
    split
    · exact .done (.refl _ c)
    · have hf := (ihf c).visited
      have hg := (ihg c).visited
      exact hf.both hg ⟨rfl, rfl⟩ (fun _ _ => ⟨rfl, rfl⟩)
        (fun _ _ => ⟨rfl, rfl⟩) (fun f' g' => .product m f f' g g' v c)
        fun f' g' => .product m f f' g g' v c
  | extremum e f g v firstActive ihf ihg =>
    rw [call_extremum, agenda]
    split
    · exact .done (.refl _ c)
    · have hf := (ihf c).visited
      have hg := (ihg c).visited
      exact hf.both hg ⟨rfl, rfl⟩ (fun _ _ => ⟨rfl, rfl⟩)
        (fun _ _ => ⟨rfl, rfl⟩) (fun f' g' => .extremum e f g f' g' v firstActive c)
        fun f' g' => .extremum e f g f' g' v firstActive c
  | chain f g ihf ihg =>
    rw [call_chain, agenda]
    split
    case isFalse => exact .done (.refl _ c)
    case isTrue hdep =>
      have hg := ihg c
      cases hinner : g.call c with
      | rejected e g' =>
        rw [hinner] at hg
        exact hg.stop_first rfl rfl (.present (.refl f _)) (.chain f f g g' c)
      | accepted g' =>
        rw [hinner] at hg
        have hf := ihf (.update g'.value)
        change Progress _ _ _ ((f.call (.update g'.value)).map _)
        cases houter : f.call (.update g'.value) with
        | accepted f' =>
          rw [houter] at hf
          exact .done (.complete (.present hg.effect_of_accepted) (.present hf.effect_of_accepted)
            (.chain f f' g g' c))
        | rejected e f' =>
          rw [houter] at hf
          exact hg.stop_second hf ⟨rfl, rfl⟩ ⟨rfl, rfl⟩ (.chain f f' g g' c)

/-- The root of a tree that rejects a call keeps what it held. -/
theorem kept_of_call_rejected {f f' : Tree K L a s} {c : Call K Γ a} {e : DomainError K}
    (h : f.call c = .rejected e f') : Kept ⟨f⟩ ⟨f', c⟩ := by
  have progress := progress_call f c
  rw [h] at progress
  cases progress with
  | stopped before p after order rejecting effect above =>
    cases effect.kept [] (above [] List.nil_prefix) with
    | some kept => exact kept

/-- The value of a tree does not change if a call is rejected. -/
theorem value_of_call_rejected {f f' : Tree K L a s} {c : Call K Γ a} {e : DomainError K}
    (h : f.call c = .rejected e f') : f'.value = f.value := by
  -- a composition has no value of its own but that of its outer function, which has not been
  -- called or has rejected its call
  induction f with
  | chain f g ihf ihg =>
    rw [call_chain] at h
    split at h
    · cases hinner : g.call c with
      | rejected e g' =>
        simp only [hinner, Outcome.rejected.injEq] at h
        obtain ⟨rfl, rfl⟩ := h
        rw [value, value]
      | accepted g' =>
        simp only [hinner] at h
        cases houter : f.call (.update g'.value) with
        | rejected e' f' =>
          simp only [houter, Outcome.map, Outcome.rejected.injEq] at h
          obtain ⟨rfl, rfl⟩ := h
          rw [value, value, ihf houter]
        | accepted f' => simp [houter, Outcome.map] at h
    · cases h
  | _ =>
    cases kept_of_call_rejected h
    rfl

/-- A call of `f` that left `f'` behind has stopped at the leaf at `p`, which rejected what was
handed to it with the error `e`. -/
structure StopsAt {a s : Shape} (f f' : Tree K L a s) (c : Call K Γ a) (e : DomainError K)
    (before : List Position) (p : Position) (after : List Position) : Prop where
  order : f.agenda c.slot = before ++ p :: after
  rejecting : ∃ x ∈ Handed.at? ⟨f', c⟩ p, Rejecting e x
  /-- The leaves before `p` have accepted, and the other nodes hold what their operands give. -/
  completed : ∀ q ∈ before, ∃ x ∈ Subtree.at? ⟨f⟩ q, ∃ y ∈ Handed.at? ⟨f', c⟩ q, Completed x y
  kept : ∀ q ∉ before, Option.Rel Kept (Subtree.at? ⟨f⟩ q) (Handed.at? ⟨f', c⟩ q)
  /-- Among those that keep what they held are the leaf and all that comes after it. -/
  later : ∀ q ∈ p :: after, q ∉ before
  /-- Among them are the nodes above the leaf. -/
  above : ∀ q, q <+: p → q ∉ before

/-- A call that is rejected has stopped at one leaf, the first one in the order of visits that
rejects what is handed to it, and the error is that of the leaf. What comes before it has been
completed, and all else keeps what it held. So the value of the tree is what it was. -/
theorem rejected_call_stops_at_leaf {a s : Shape} {f f' : Tree K (Builtin K Γ) a s}
    {c : Call K Γ a} {e : DomainError K} (h : f.call c = .rejected e f') :
    (∃ before p after, StopsAt f f' c e before p after) ∧ f'.value = f.value := by
  refine ⟨?_, value_of_call_rejected h⟩
  have progress := progress_call f c
  rw [h] at progress
  cases progress with
  | stopped before p after order rejecting effect above =>
    have hnodup := f.nodup_agenda c.slot
    rw [order] at hnodup
    have later : ∀ q ∈ p :: after, q ∉ before := by
      intro q hq hbefore
      exact List.disjoint_of_nodup_append hnodup hbefore hq
    exact ⟨before, p, after, order, rejecting, effect.completed, effect.kept, later, above⟩

/-- The logarithm rejects zero, after the product in front of it has been completed. The value of
the sum and that of the logarithm are those before the call. -/
theorem rejected_call_stops_at_logarithm :
    let product (x : ℚ) : Tree ℚ (Builtin ℚ fun _ => .scalar) .scalar .scalar :=
      .product .scalars (.leaf (.var 0 rfl 2)) (.leaf (.identity x)) (2 * x)
    let logarithm (x : ℚ) : Tree ℚ (Builtin ℚ fun _ => .scalar) .scalar .scalar :=
      .chain (.leaf (.elementary ⟨.ln, 1, ElementaryFunction.ln.jet 1⟩)) (.leaf (.identity x))
    let f := .sum (product 1) (logarithm 1) 2
    let f' := .sum (product 0) (logarithm 0) 2
    let e := .outOfDomain "ln" "(0, inf)" 0
    f.call (.update 0) = .rejected e f' ∧
      (∃ before p after, StopsAt f f' (.update 0) e before p after) ∧ f'.value = f.value :=
  ⟨rfl, rejected_call_stops_at_leaf rfl⟩

end Directional.Tree
