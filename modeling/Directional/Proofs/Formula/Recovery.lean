import Mathlib.Data.List.Induction
import Mathlib.Data.Set.Insert
import Mathlib.Tactic.NormNum
import Directional.Formula.Operators
import Directional.Proofs.Formula.Rebuild
import Directional.Proofs.Tree.Run
import Directional.Tree.Total

namespace Directional

namespace Tree

variable {K : Type} {Γ : Nat → Shape} {L : Shape → Shape → Type} [Leaf K Γ L] {a b s t u : Shape}
  {X : Slot} {P : Set Slot}

/-- A tree depends on none of the pending slots. -/
def Idle (P : Set Slot) (f : Tree K L a s) : Prop :=
  ∀ X ∈ P, f.dependsOn X = false

/-- A tree that depends on no slot of a set depends on none of those of another one, as far as the
slots it depends on go. -/
theorem Idle.congr {P' : Set Slot} {f : Tree K L a s} (h : Idle P' f)
    (hP : ∀ X ∉ P', f.dependsOn X = true → X ∉ P) : Idle P f := by
  intro X hX
  by_contra hne
  have hdep : f.dependsOn X = true := by simpa using hne
  have hX' : X ∉ P' := by
    intro hX'
    rw [h X hX'] at hdep
    nomatch hdep
  exact hP X hX' hdep hX

variable [Scalar K]

/-- The root of a tree holds what its operands give, unless it depends on a pending slot. -/
def Fresh (P : Set Slot) (f : Tree K L a s) : Prop :=
  f.Idle P → f.refreshed = f

variable {f f' : Tree K L a s} {c : Call K Γ a}

/-- A slot that a tree does not depend on may be pending or not. -/
theorem Fresh.congr {P' : Set Slot} (h : Fresh P f)
    (hP : ∀ X ∉ P', f.dependsOn X = true → X ∉ P) : Fresh P' f :=
  fun hidle => h (hidle.congr hP)

variable [LawfulLeaf L]

/-- After any call the root is fresh if the slot of the call counts as pending. -/
theorem Fresh.call (h : Fresh P f) (c : Call K Γ a) : Fresh (insert c.slot P) (f.call c).state := by
  intro hidle
  have hbefore (X : Slot) (hX : X ∈ insert c.slot P) : f.dependsOn X = false := by
    rw [← (alike_call f c).dependsOn_eq]
    exact hidle X hX
  have hfresh : f.refreshed = f := h fun X hX => hbefore X (Set.mem_insert_of_mem _ hX)
  rw [call_of_not_dependsOn (hbefore c.slot (Set.mem_insert _ _)) hfresh]
  exact hfresh

/-- After an accepted call the slot of the call is no longer pending. -/
theorem Fresh.of_accepted (h : Fresh P f) (hcall : f.call c = .accepted f') :
    Fresh (P \ {c.slot}) f' := by
  intro hidle
  cases hdep : f.dependsOn c.slot with
  | true => exact refreshed_of_visited hdep hcall
  | false =>
    have hbefore : f.Idle P := by
      intro X hX
      by_cases hslot : X = c.slot
      · rw [hslot, hdep]
      · have halike := alike_call f c
        rw [hcall] at halike
        rw [← halike.dependsOn_eq]
        exact hidle X ⟨hX, hslot⟩
    have hfresh : f.refreshed = f := h hbefore
    rw [call_of_not_dependsOn hdep hfresh] at hcall
    cases hcall
    exact hfresh

end Tree

namespace Readings

variable {K : Type} {Γ : Nat → Shape} {a : Shape} {r r' r'' : Readings K Γ a} {X : Slot}

/-- Two readings are the same for a slot. -/
def AgreeAt (r r' : Readings K Γ a) : Slot → Prop
  | .argument => r.argument = r'.argument
  | .var i => r.var i = r'.var i

theorem AgreeAt.refl (r : Readings K Γ a) (X : Slot) : r.AgreeAt r X := by
  cases X <;> rfl

/-- Readings that agree with the same ones agree with each other. -/
theorem AgreeAt.trans (h : r.AgreeAt r' X) (h' : r'.AgreeAt r'' X) : r.AgreeAt r'' X := by
  cases X with
  | argument => exact Eq.trans h h'
  | var i => exact Eq.trans h h'

/-- A call is noted in its own slot only. -/
theorem agreeAt_note {c : Call K Γ a} (h : X ≠ c.slot) : r.AgreeAt (r.note c) X := by
  cases c with
  | update x =>
    cases X with
    | argument => exact absurd rfl h
    | var i => rfl
  | write j x =>
    cases X with
    | argument => rfl
    | var i =>
      have hij : i ≠ j := fun hij => h (congrArg Slot.var hij)
      exact (Function.update_of_ne hij _ _).symm

/-- Readings that agree, or that agree but for the slot of a call, agree after the call. -/
theorem AgreeAt.note {c : Call K Γ a} (h : X ≠ c.slot → r.AgreeAt r' X) :
    (r.note c).AgreeAt (r'.note c) X := by
  cases c with
  | update x =>
    cases X with
    | argument => rfl
    | var i => exact h Slot.noConfusion
  | write j x =>
    cases X with
    | argument => exact h Slot.noConfusion
    | var i =>
      by_cases hij : i = j
      · subst hij
        change Function.update r.var i (some x) i = Function.update r'.var i (some x) i
        rw [Function.update_self, Function.update_self]
      · change Function.update r.var j (some x) i = Function.update r'.var j (some x) i
        rw [Function.update_of_ne hij, Function.update_of_ne hij]
        exact h fun hslot => hij (Slot.var.inj hslot)

end Readings

/-- A leaf is built in the same way at readings that agree in the slot that it depends on. -/
theorem Seed.moved_eq_of_agreeAt {K : Type} [Scalar K] {Γ : Nat → Shape} {a s : Shape}
    {l : Seed K Γ a s} {b : Builtin K Γ a s} {r r' : Readings K Γ a}
    (hbuilt : (l.moved r).build = .ok b)
    (h : ∀ X, Leaf.dependsOn b X = true → r.AgreeAt r' X) : l.moved r = l.moved r' := by
  cases l with
  | constant => rfl
  | identity x =>
    cases hbuilt
    have hargument : r.argument = r'.argument := h .argument rfl
    rw [moved, moved, hargument]
  | var i shape v =>
    cases hbuilt
    have hvar : r.var i = r'.var i := h (.var i) (by simp [Leaf.dependsOn, Leaf.reactsTo,
      Builtin.reactsTo])
    rw [moved, moved, hvar]
  | det d x =>
    obtain ⟨l, -, rfl⟩ := map_eq_ok hbuilt
    have hargument : r.argument = r'.argument := h .argument (by cases d <;> rfl)
    rw [moved, moved, hargument]
  | elementary | trace | secondInvariant | strain | squaredNorm =>
    obtain ⟨l, -, rfl⟩ := map_eq_ok hbuilt
    have hargument : r.argument = r'.argument := h .argument rfl
    rw [moved, moved, hargument]

section Tracking

variable {K : Type} [Scalar K] {Γ : Nat → Shape} {a : Shape}

/-- A tree is what its formula builds at the readings `r`, but for what depends on pending slots. A
leaf has been built at readings that agree with `r` in the slot that it depends on unless that is
pending. A node is fresh. The outer function of a composition answers as when it was built, and
stands at the value of the inner one if that depends on no pending slot. The slot of a rejected call
is pending from then on: leaves that depend on it may or may not have moved, and nodes above them
may hold what their operands no longer give. An accepted call of the same slot mends all of it, and
calls of other slots do not. -/
inductive Tracks (r : Readings K Γ a) (P : Set Slot) :
    {s : Shape} → Formula K (Seed K Γ) a s → Tree K (Builtin K Γ) a s → Prop where
  | leaf {s : Shape} {l : Seed K Γ a s} {b : Builtin K Γ a s} {r' : Readings K Γ a}
      (hbuilt : (l.moved r').build = .ok b)
      (hagree : ∀ X ∉ P, Leaf.dependsOn b X = true → r'.AgreeAt r X) :
      Tracks r P (.leaf l) (.leaf b)
  | scale {s : Shape} {k : K} {φ : Formula K (Seed K Γ) a s} {f : Tree K (Builtin K Γ) a s}
      {v : Value K s} (hf : Tracks r P φ f) (hfresh : Tree.Fresh P (.scale k f v)) :
      Tracks r P (.scale k φ) (.scale k f v)
  | squared {s : Shape} {m : Pairing s s s} {φ : Formula K (Seed K Γ) a s}
      {f : Tree K (Builtin K Γ) a s} {v : Value K s} (hf : Tracks r P φ f)
      (hfresh : Tree.Fresh P (.squared m f v)) : Tracks r P (.squared m φ) (.squared m f v)
  | sum {s : Shape} {φ ψ : Formula K (Seed K Γ) a s} {f g : Tree K (Builtin K Γ) a s}
      {v : Value K s} (hf : Tracks r P φ f) (hg : Tracks r P ψ g)
      (hfresh : Tree.Fresh P (.sum f g v)) : Tracks r P (.sum φ ψ) (.sum f g v)
  | product {s t u : Shape} {m : Pairing s t u} {φ : Formula K (Seed K Γ) a s}
      {ψ : Formula K (Seed K Γ) a t} {f : Tree K (Builtin K Γ) a s} {g : Tree K (Builtin K Γ) a t}
      {v : Value K u} (hf : Tracks r P φ f) (hg : Tracks r P ψ g)
      (hfresh : Tree.Fresh P (.product m f g v)) : Tracks r P (.product m φ ψ) (.product m f g v)
  | extremum {s : Shape} {e : Extremum} {φ ψ : Formula K (Seed K Γ) a s}
      {f g : Tree K (Builtin K Γ) a s} {v : Value K s} {firstActive : Bool} (hf : Tracks r P φ f)
      (hg : Tracks r P ψ g) (hfresh : Tree.Fresh P (.extremum e f g v firstActive)) :
      Tracks r P (.extremum e φ ψ) (.extremum e f g v firstActive)
  | chain {b s : Shape} {φ : Formula K (Seed K Γ) b s} {ψ : Formula K (Seed K Γ) a b}
      {f₀ f : Tree K (Builtin K Γ) b s} {g : Tree K (Builtin K Γ) a b} (houter : φ.tree? = .ok f₀)
      (hanswers : ∀ y, (f.call (.update y)).toExcept = (f₀.call (.update y)).toExcept)
      (hg : Tracks r P ψ g) (hstands : g.Idle P → f₀.call (.update g.value) = .accepted f) :
      Tracks r P (.chain φ ψ) (.chain f g)

namespace Tracks

variable {s : Shape} {r r' : Readings K Γ a} {P P' : Set Slot} {φ : Formula K (Seed K Γ) a s}
  {f f' : Tree K (Builtin K Γ) a s} {c : Call K Γ a}

/-- Only the slots that a tree depends on matter, and pending ones may have any readings. -/
theorem congr (h : Tracks r P φ f)
    (hr : ∀ X ∉ P', f.dependsOn X = true → X ∉ P ∧ r.AgreeAt r' X) : Tracks r' P' φ f := by
  induction h with
  | @leaf s l b r' hbuilt hagree =>
    refine .leaf hbuilt ?_
    intro X hX hdep
    obtain ⟨hbefore, hr⟩ := hr X hX ((Tree.dependsOn_leaf X b).trans hdep)
    exact (hagree X hbefore hdep).trans hr
  | scale hf hfresh ih =>
    have hnode := hfresh.congr fun X hX hdep => (hr X hX hdep).1
    exact .scale (ih fun X hX hdep => hr X hX (by simp [hdep])) hnode
  | squared hf hfresh ih =>
    have hnode := hfresh.congr fun X hX hdep => (hr X hX hdep).1
    exact .squared (ih fun X hX hdep => hr X hX (by simp [hdep])) hnode
  | sum hf hg hfresh ihf ihg =>
    have hnode := hfresh.congr fun X hX hdep => (hr X hX hdep).1
    exact .sum (ihf fun X hX hdep => hr X hX (by simp [hdep]))
      (ihg fun X hX hdep => hr X hX (by simp [hdep])) hnode
  | product hf hg hfresh ihf ihg =>
    have hnode := hfresh.congr fun X hX hdep => (hr X hX hdep).1
    exact .product (ihf fun X hX hdep => hr X hX (by simp [hdep]))
      (ihg fun X hX hdep => hr X hX (by simp [hdep])) hnode
  | extremum hf hg hfresh ihf ihg =>
    have hnode := hfresh.congr fun X hX hdep => (hr X hX hdep).1
    exact .extremum (ihf fun X hX hdep => hr X hX (by simp [hdep]))
      (ihg fun X hX hdep => hr X hX (by simp [hdep])) hnode
  | chain houter hanswers hg hstands ih =>
    have hinner := ih fun X hX hdep => hr X hX (by simp [hdep])
    refine .chain houter hanswers hinner ?_
    intro hidle
    exact hstands (hidle.congr fun X hX hdep => (hr X hX (by simp [hdep])).1)

/-- A call makes no difference to a tree that does not depend on its slot. -/
theorem skip (h : Tracks r P φ f) (hdep : f.dependsOn c.slot = false) :
    Tracks (r.note c) (P \ {c.slot}) φ f := by
  apply h.congr
  intro X hX hdepX
  have hne : X ≠ c.slot := by
    rintro rfl
    rw [hdep] at hdepX
    nomatch hdepX
  have hP : X ∉ P := fun hmem => hX ⟨hmem, hne⟩
  exact ⟨hP, Readings.agreeAt_note hne⟩

/-- A tree that a call has not come to is as it was, but the slot of the call is pending. -/
theorem defer (h : Tracks r P φ f) (c : Call K Γ a) :
    Tracks (r.note c) (insert c.slot P) φ f := by
  apply h.congr
  intro X hX _
  have hne : X ≠ c.slot := fun hslot => hX (hslot ▸ Set.mem_insert _ _)
  have hP : X ∉ P := fun hmem => hX (Set.mem_insert_of_mem _ hmem)
  exact ⟨hP, Readings.agreeAt_note hne⟩

/-- More slots may be pending. -/
theorem mono (h : Tracks r P φ f) (hP : P ⊆ P') : Tracks r P' φ f :=
  h.congr fun X hX _ => ⟨fun hmem => hX (hP hmem), .refl r X⟩

/-- A leaf that accepts a call is built at the new readings. -/
private theorem of_accepted_leaf {l : Seed K Γ a s} {b b' : Builtin K Γ a s}
    (hbuilt : (l.moved r').build = .ok b)
    (hagree : ∀ X ∉ P, Leaf.dependsOn b X = true → r'.AgreeAt r X)
    (hcall : Leaf.call b c = .accepted b') :
    Tracks (r.note c) (P \ {c.slot}) (.leaf l) (.leaf b') := by
  have hbuilt' : (l.moved (r'.note c)).build = .ok b' := by
    rw [← Seed.toExcept_call_of_build hbuilt, hcall, Outcome.toExcept_accepted]
  have halike := LawfulLeaf.alike_call b c
  rw [hcall] at halike
  refine .leaf hbuilt' ?_
  intro X hX hdep
  apply Readings.AgreeAt.note
  intro hne
  exact hagree X (fun hmem => hX ⟨hmem, hne⟩) (halike.dependsOn_eq X ▸ hdep)

/-- What is left of a tree by a call is tracked with the slot of the call pending, whether the call
is accepted or rejected. -/
theorem call (h : Tracks r P φ f) (c : Call K Γ a) :
    Tracks (r.note c) (insert c.slot P) φ (f.call c).state := by
  induction h with
  | @leaf s l b r' hbuilt hagree =>
    rw [Tree.call_leaf, Outcome.state_map]
    cases hcall : Leaf.call b c with
    | accepted b' =>
      have hmoved := of_accepted_leaf hbuilt hagree hcall
      exact hmoved.mono (Set.sdiff_subset.trans (Set.subset_insert _ _))
    | rejected e b' =>
      rw [LawfulLeaf.eq_of_call_rejected hcall]
      exact (leaf hbuilt hagree).defer c
  | @scale s k φ f v hf hfresh ih =>
    have hnode := hfresh.call c
    obtain ⟨v', hstate⟩ := Tree.state_call_scale k f v c
    rw [hstate] at hnode ⊢
    exact .scale (Tree.holds_call? _ (hf.defer c) ih) hnode
  | @squared s m φ f v hf hfresh ih =>
    have hnode := hfresh.call c
    obtain ⟨v', hstate⟩ := Tree.state_call_squared m f v c
    rw [hstate] at hnode ⊢
    exact .squared (Tree.holds_call? _ (hf.defer c) ih) hnode
  | @sum s φ ψ f g v hf hg hfresh ihf ihg =>
    have hnode := hfresh.call c
    obtain ⟨g', v', hg', hstate⟩ := Tree.state_call_sum f g v c
    rw [hstate] at hnode ⊢
    exact .sum (Tree.holds_call? _ (hf.defer c) ihf)
      (Tree.holds_of_eq_or_eq _ hg' (hg.defer c) ihg) hnode
  | @product s t u m φ ψ f g v hf hg hfresh ihf ihg =>
    have hnode := hfresh.call c
    obtain ⟨g', v', hg', hstate⟩ := Tree.state_call_product m f g v c
    rw [hstate] at hnode ⊢
    exact .product (Tree.holds_call? _ (hf.defer c) ihf)
      (Tree.holds_of_eq_or_eq _ hg' (hg.defer c) ihg) hnode
  | @extremum s e φ ψ f g v firstActive hf hg hfresh ihf ihg =>
    have hnode := hfresh.call c
    obtain ⟨g', v', firstActive', hg', hstate⟩ := Tree.state_call_extremum e f g v firstActive c
    rw [hstate] at hnode ⊢
    exact .extremum (Tree.holds_call? _ (hf.defer c) ihf)
      (Tree.holds_of_eq_or_eq _ hg' (hg.defer c) ihg) hnode
  | @chain b s φ ψ f₀ f g houter hanswers hg hstands ih =>
    cases hdep : g.dependsOn c.slot with
    | false =>
      rw [Tree.call_chain_of_not_dependsOn hdep]
      exact (chain houter hanswers hg hstands).defer c
    | true =>
      obtain ⟨f', hf', hstate⟩ := Tree.state_call_chain f g c
      rw [hstate]
      -- The outer function may have moved, but by absorption it still answers as it was built to.
      have hanswers' (y : Value K b) :
          (f'.call (.update y)).toExcept = (f₀.call (.update y)).toExcept := by
        obtain rfl | ⟨x, rfl⟩ := hf'
        · exact hanswers y
        · have hmoved := f.call_absorbs (c := .update x) (d := .update y) rfl
          exact hmoved.trans (hanswers y)
      refine .chain houter hanswers' (Tree.holds_call? _ (hg.defer c) ih) ?_
      -- The inner function depends on the slot of the call, which is pending now, so nothing is
      -- asked of where the outer function stands.
      intro hidle
      have hmoved : (g.call? c).state.dependsOn c.slot = true := by
        rw [Tree.call?_of_dependsOn hdep, (Tree.alike_call g c).dependsOn_eq, hdep]
      rw [hidle c.slot (Set.mem_insert _ _)] at hmoved
      nomatch hmoved

/-- An operand of a node that accepts a call has accepted it or does not depend on its slot. -/
private theorem of_accepted_operand (h : Tracks r P φ f)
    (ih : ∀ {f'}, f.call c = .accepted f' → Tracks (r.note c) (P \ {c.slot}) φ f')
    (hcall : f.call? c = .accepted f') : Tracks (r.note c) (P \ {c.slot}) φ f' := by
  cases hdep : f.dependsOn c.slot with
  | true =>
    rw [Tree.call?_of_dependsOn hdep] at hcall
    exact ih hcall
  | false =>
    rw [Tree.call?_of_not_dependsOn hdep] at hcall
    cases hcall
    exact h.skip hdep

/-- An accepted call leaves nothing of its slot pending. -/
theorem of_accepted (h : Tracks r P φ f) (hcall : f.call c = .accepted f') :
    Tracks (r.note c) (P \ {c.slot}) φ f' := by
  induction h with
  | leaf hbuilt hagree =>
    rw [← Outcome.toExcept_eq_ok_iff, Tree.toExcept_call_leaf] at hcall
    obtain ⟨b', hb', rfl⟩ := map_eq_ok hcall
    exact of_accepted_leaf hbuilt hagree (Outcome.toExcept_eq_ok_iff.1 hb')
  | scale hf hfresh ih =>
    have hnode := hfresh.of_accepted hcall
    obtain ⟨f', v', hf', rfl⟩ := Tree.accepted_call_scale hcall
    exact .scale (hf.of_accepted_operand ih hf') hnode
  | squared hf hfresh ih =>
    have hnode := hfresh.of_accepted hcall
    obtain ⟨f', v', hf', rfl⟩ := Tree.accepted_call_squared hcall
    exact .squared (hf.of_accepted_operand ih hf') hnode
  | sum hf hg hfresh ihf ihg =>
    have hnode := hfresh.of_accepted hcall
    obtain ⟨f', g', v', hf', hg', rfl⟩ := Tree.accepted_call_sum hcall
    exact .sum (hf.of_accepted_operand ihf hf') (hg.of_accepted_operand ihg hg') hnode
  | product hf hg hfresh ihf ihg =>
    have hnode := hfresh.of_accepted hcall
    obtain ⟨f', g', v', hf', hg', rfl⟩ := Tree.accepted_call_product hcall
    exact .product (hf.of_accepted_operand ihf hf') (hg.of_accepted_operand ihg hg') hnode
  | extremum hf hg hfresh ihf ihg =>
    have hnode := hfresh.of_accepted hcall
    obtain ⟨f', g', v', firstActive', hf', hg', rfl⟩ := Tree.accepted_call_extremum hcall
    exact .extremum (hf.of_accepted_operand ihf hf') (hg.of_accepted_operand ihg hg') hnode
  | @chain b s φ ψ f₀ f g houter hanswers hg hstands ih =>
    cases hdep : g.dependsOn c.slot with
    | false =>
      rw [Tree.call_chain_of_not_dependsOn hdep] at hcall
      cases hcall
      exact (chain houter hanswers hg hstands).skip ((Tree.dependsOn_chain f g _).trans hdep)
    | true =>
      rw [← Outcome.toExcept_eq_ok_iff, Tree.toExcept_call_chain, if_pos hdep] at hcall
      obtain ⟨g', hg', hcall⟩ := bind_eq_ok hcall
      obtain ⟨f', hf', hcall⟩ := bind_eq_ok hcall
      cases hcall
      -- By absorption it makes no difference that the outer function has moved.
      have hanswers' (y : Value K b) :
          (f'.call (.update y)).toExcept = (f₀.call (.update y)).toExcept := by
        have hmoved := f.call_absorbs (c := .update g'.value) (d := .update y) rfl
        rw [Outcome.toExcept_eq_ok_iff.1 hf'] at hmoved
        exact hmoved.trans (hanswers y)
      have hstands' : f₀.call (.update g'.value) = .accepted f' := by
        rw [← Outcome.toExcept_eq_ok_iff, ← hanswers, hf']
      exact .chain houter hanswers' (ih (Outcome.toExcept_eq_ok_iff.1 hg')) fun _ => hstands'

/-- A tree that has just been built follows its formula with nothing pending. -/
theorem of_tree? (h : φ.tree? = .ok f) : Tracks .unwritten ∅ φ f := by
  induction φ with
  | leaf l =>
    obtain ⟨b, hb, hf⟩ := bind_eq_ok h
    cases hf
    have hmoved : l.moved .unwritten = l := by cases l <;> rfl
    exact .leaf (hmoved.symm ▸ hb) fun X _ _ => .refl _ X
  | scale k φ ih =>
    obtain ⟨f', hf', hf⟩ := bind_eq_ok h
    cases hf
    exact .scale (ih hf') fun _ => rfl
  | squared m φ ih =>
    obtain ⟨f', hf', hf⟩ := bind_eq_ok h
    cases hf
    exact .squared (ih hf') fun _ => rfl
  | sum φ ψ ihf ihg =>
    obtain ⟨f', hf', hf⟩ := bind_eq_ok h
    obtain ⟨g', hg', hf⟩ := bind_eq_ok hf
    cases hf
    exact .sum (ihf hf') (ihg hg') fun _ => rfl
  | product m φ ψ ihf ihg =>
    obtain ⟨f', hf', hf⟩ := bind_eq_ok h
    obtain ⟨g', hg', hf⟩ := bind_eq_ok hf
    cases hf
    exact .product (ihf hf') (ihg hg') fun _ => rfl
  | extremum e φ ψ ihf ihg =>
    obtain ⟨f', hf', hf⟩ := bind_eq_ok h
    obtain ⟨g', hg', hf⟩ := bind_eq_ok hf
    cases hf
    exact .extremum (ihf hf') (ihg hg') fun _ => rfl
  | chain φ ψ _ ihg =>
    rw [Formula.tree?_chain] at h
    obtain ⟨f₀, hf₀, h⟩ := bind_eq_ok h
    obtain ⟨g, hg, h⟩ := bind_eq_ok h
    rw [Formula.mkChain_eq_bind] at h
    obtain ⟨f₁, hf₁, h⟩ := bind_eq_ok h
    cases h
    have hstands : f₀.call (.update g.value) = .accepted f₁ := Outcome.toExcept_eq_ok_iff.1 hf₁
    -- Building has moved the outer function once, to the value of the inner one.
    refine .chain hf₀ ?_ (ihg hg) fun _ => hstands
    intro y
    have hmoved := f₀.call_absorbs (c := .update g.value) (d := .update y) rfl
    rwa [hstands] at hmoved

/-- A tree that depends on no pending slot is what its formula builds. -/
theorem tree?_moved (h : Tracks r P φ f) (hidle : f.Idle P) : (φ.moved r).tree? = .ok f := by
  -- No pending slot leaves every node fresh, so each is put together again from its operands.
  induction h with
  | @leaf s l b r' hbuilt hagree =>
    have hagree' (X : Slot) (hdep : Leaf.dependsOn b X = true) : r'.AgreeAt r X := by
      apply hagree X _ hdep
      intro hX
      have hno := hidle X hX
      rw [Tree.dependsOn_leaf, hdep] at hno
      nomatch hno
    change (do return Tree.leaf (← (l.moved r).build)) = _
    rw [← Seed.moved_eq_of_agreeAt hbuilt hagree', hbuilt]
    rfl
  | @scale s k φ f v hf hfresh ih =>
    have hf' : (φ.moved r).tree? = .ok f := ih fun X hX => by simpa using hidle X hX
    change (do return Tree.mkScale k (← (φ.moved r).tree?)) = _
    rw [hf']
    exact congrArg Except.ok (hfresh hidle)
  | @squared s m φ f v hf hfresh ih =>
    have hf' : (φ.moved r).tree? = .ok f := ih fun X hX => by simpa using hidle X hX
    change (do return Tree.mkSquared m (← (φ.moved r).tree?)) = _
    rw [hf']
    exact congrArg Except.ok (hfresh hidle)
  | @sum s φ ψ f g v hf hg hfresh ihf ihg =>
    have hnode (X : Slot) (hX : X ∈ P) : f.dependsOn X = false ∧ g.dependsOn X = false := by
      simpa using hidle X hX
    have hf' : (φ.moved r).tree? = .ok f := ihf fun X hX => (hnode X hX).1
    have hg' : (ψ.moved r).tree? = .ok g := ihg fun X hX => (hnode X hX).2
    change (do return Tree.mkSum (← (φ.moved r).tree?) (← (ψ.moved r).tree?)) = _
    rw [hf', hg']
    exact congrArg Except.ok (hfresh hidle)
  | @product s t u m φ ψ f g v hf hg hfresh ihf ihg =>
    have hnode (X : Slot) (hX : X ∈ P) : f.dependsOn X = false ∧ g.dependsOn X = false := by
      simpa using hidle X hX
    have hf' : (φ.moved r).tree? = .ok f := ihf fun X hX => (hnode X hX).1
    have hg' : (ψ.moved r).tree? = .ok g := ihg fun X hX => (hnode X hX).2
    change (do return Tree.mkProduct m (← (φ.moved r).tree?) (← (ψ.moved r).tree?)) = _
    rw [hf', hg']
    exact congrArg Except.ok (hfresh hidle)
  | @extremum s e φ ψ f g v firstActive hf hg hfresh ihf ihg =>
    have hnode (X : Slot) (hX : X ∈ P) : f.dependsOn X = false ∧ g.dependsOn X = false := by
      simpa using hidle X hX
    have hf' : (φ.moved r).tree? = .ok f := ihf fun X hX => (hnode X hX).1
    have hg' : (ψ.moved r).tree? = .ok g := ihg fun X hX => (hnode X hX).2
    change (do return Tree.mkExtremum e (← (φ.moved r).tree?) (← (ψ.moved r).tree?)) = _
    rw [hf', hg']
    exact congrArg Except.ok (hfresh hidle)
  | @chain b s φ ψ f₀ f g houter hanswers hg hstands ih =>
    have hidle' : g.Idle P := fun X hX => by simpa using hidle X hX
    rw [Formula.moved, Formula.tree?_chain, houter, ih hidle']
    change Tree.mkChain f₀ g = _
    rw [Formula.mkChain_eq_bind, hstands hidle']
    rfl

end Tracks

end Tracking

namespace Tree

variable {K : Type} [Scalar K] {Γ : Nat → Shape} {L : Shape → Shape → Type} [Leaf K Γ L]
  {a s : Shape} {f : Tree K L a s} {calls : List (Call K Γ a)} {c : Call K Γ a} {X : Slot}

/-- What the last call of a slot has returned, if there was one. -/
def lastResult (f : Tree K L a s) (calls : List (Call K Γ a)) (X : Slot) :
    Option (Except (DomainError K) Unit) :=
  ((calls.map Call.slot).zip (f.results calls)).reverse.lookup X

/-- A further call is the last one of its own slot only. -/
theorem lastResult_concat :
    f.lastResult (calls ++ [c]) X =
      if X = c.slot then some ((f.after calls).call c).result else f.lastResult calls X := by
  have hzip : (List.map Call.slot calls ++ [c.slot]).zip (f.results (calls ++ [c])) =
      (calls.map Call.slot).zip (f.results calls) ++
        [(c.slot, ((f.after calls).call c).result)] := by
    rw [results_concat, List.zip_append (by simp)]
    rfl
  rw [lastResult, List.map_append, List.map_singleton, hzip, List.reverse_append,
    List.reverse_singleton, List.singleton_append, List.lookup_cons, lastResult]
  by_cases h : X = c.slot
  · simp [h]
  · have hne : (X == c.slot) = false := beq_eq_false_iff_ne.2 h
    rw [if_neg h, hne]

/-- A slot that was never called has no last call. -/
theorem lastResult_eq_none (h : ∀ c ∈ calls, c.slot ≠ X) : f.lastResult calls X = none := by
  induction calls using List.reverseRecOn with
  | nil => rfl
  | append_singleton calls c ih =>
    have hne : X ≠ c.slot := (h c (by simp)).symm
    rw [lastResult_concat, if_neg hne]
    exact ih fun d hd => h d (List.mem_append_left _ hd)

/-- The slots whose last call was rejected. -/
def pending (f : Tree K L a s) (calls : List (Call K Γ a)) : Set Slot :=
  fun X => ∃ e, f.lastResult calls X = some (.error e)

/-- A rejected call adds its slot to those that are pending. -/
theorem insert_pending_subset {e : DomainError K}
    (h : ((f.after calls).call c).result = .error e) :
    insert c.slot (f.pending calls) ⊆ f.pending (calls ++ [c]) := by
  rintro X hX
  by_cases hslot : X = c.slot
  · exact ⟨e, by rw [lastResult_concat, if_pos hslot, h]⟩
  · obtain ⟨e', he'⟩ := hX.resolve_left hslot
    exact ⟨e', by rw [lastResult_concat, if_neg hslot, he']⟩

/-- A call takes no slot but its own from those that are pending. -/
theorem pending_diff_subset : f.pending calls \ {c.slot} ⊆ f.pending (calls ++ [c]) := by
  rintro X ⟨⟨e, he⟩, hslot⟩
  have hne : X ≠ c.slot := hslot
  exact ⟨e, by rw [lastResult_concat, if_neg hne, he]⟩

end Tree

namespace Formula

variable {K : Type} [Scalar K] {Γ : Nat → Shape} {a s : Shape} {f : Formula K (Seed K Γ) a s}
  {t₀ : Tree K (Builtin K Γ) a s}

/-- Whatever calls a tree has had, it follows its formula up to the slots whose last call was
rejected. -/
theorem tracks_after (built : f.tree? = .ok t₀) (calls : List (Call K Γ a)) :
    Tracks (.after calls) (t₀.pending calls) f (t₀.after calls) := by
  induction calls using List.reverseRecOn with
  | nil => exact (Tracks.of_tree? built).mono (Set.empty_subset _)
  | append_singleton calls c ih =>
    rw [Readings.after_concat, Tree.after_concat]
    cases hcall : (t₀.after calls).call c with
    | accepted t => exact (ih.of_accepted hcall).mono Tree.pending_diff_subset
    | rejected e t =>
      have hresult : ((t₀.after calls).call c).result = .error e := by
        rw [hcall, Outcome.result_rejected]
      have hstate := ih.call c
      rw [hcall] at hstate
      exact hstate.mono (Tree.insert_pending_subset hresult)

/-- A tree that has had calls of all kinds, accepted and rejected ones in any order, is in every
value it keeps the tree that is built from scratch at the last values that its slots were told, if
the last call of each slot was accepted. An accepted call mends what earlier calls of its slot have
left, so a tree that is called in one slot only recovers with the next call that it accepts. -/
theorem accepted_calls_mend_their_slots (built : f.tree? = .ok t₀) (calls : List (Call K Γ a)) :
    ((∀ X e, t₀.lastResult calls X ≠ some (.error e)) →
      (f.moved (.after calls)).tree? = .ok (t₀.after calls)) ∧
    ∀ c, (∀ d ∈ calls, d.slot = c.slot) → ((t₀.after calls).call c).result = .ok () →
      (f.moved (.after (calls ++ [c]))).tree? = .ok (t₀.after (calls ++ [c])) := by
  have hrebuild (calls : List (Call K Γ a))
      (h : ∀ X e, t₀.lastResult calls X ≠ some (.error e)) :
      (f.moved (.after calls)).tree? = .ok (t₀.after calls) := by
    apply (tracks_after built calls).tree?_moved
    rintro X ⟨e, he⟩
    exact absurd he (h X e)
  refine ⟨hrebuild calls, ?_⟩
  intro c hsame haccepted
  apply hrebuild
  intro X e
  by_cases hX : X = c.slot
  · rw [Tree.lastResult_concat, if_pos hX, haccepted]
    simp
  · have hnone : t₀.lastResult calls X = none :=
      Tree.lastResult_eq_none fun d hd hslot => hX (hslot ▸ hsame d hd)
    rw [Tree.lastResult_concat, if_neg hX, hnone]
    simp

/-- A variable times the sum of the argument and its logarithm, which rejects the first update. The
write does not touch the sum, and the second update mends it. -/
theorem accepted_calls_mend_their_slots_variable_times_logarithm :
    let f : Formula ℚ (Seed ℚ fun _ => .scalar) .scalar .scalar :=
      .product .scalars (.leaf (.var 0 rfl 0))
        (.sum (.leaf (.identity 1)) (.leaf (.elementary .ln 1)))
    let t₀ : Tree ℚ (Builtin ℚ fun _ => .scalar) .scalar .scalar :=
      .mkProduct .scalars (.leaf (.var 0 rfl 0))
        (.mkSum (.leaf (.identity 1)) (.leaf (.elementary ⟨.ln, 1, ElementaryFunction.ln.jet 1⟩)))
    let calls : List (Call ℚ (fun _ => .scalar) .scalar) := [.update (-1), .write 0 5, .update 2]
    f.tree? = .ok t₀ ∧
      t₀.results calls = [.error (.outOfDomain "ln" "(0, inf)" (-1)), .ok (), .ok ()] ∧
      (f.moved (.after calls)).tree? = .ok (t₀.after calls) := by
  intro f t₀ calls
  have built : f.tree? = .ok t₀ := rfl
  have hresults : t₀.results calls =
      [.error (.outOfDomain "ln" "(0, inf)" (-1)), .ok (), .ok ()] := rfl
  have haccepted (X : Slot) (e : DomainError ℚ) : t₀.lastResult calls X ≠ some (.error e) := by
    rw [Tree.lastResult, hresults]
    cases X with
    | argument => intro h; cases h
    | var i => cases i <;> intro h <;> cases h
  exact ⟨built, hresults, (accepted_calls_mend_their_slots built calls).1 haccepted⟩

/-- An accepted write does not mend what a rejected write of another variable has left. In
`(x + 1) * (y - y) * (x * x + exp y)` the exponential function rejects that `y` is infinite, when
the variables in `y - y` have moved there already. The write of `x` that follows is accepted. It
comes to the product with `y - y`, and not to the exponential function, which stands at zero. What
it leaves is not the tree with the values that the variables hold, which cannot be built, nor the
one with `y` at zero: the second derivative in `x` is zero there, and here it is no number. -/
theorem accepted_write_leaves_rejected_write :
    let x (v : Float) : Formula Float (Seed Float fun _ => .scalar) .scalar .scalar :=
      .seed (.var 0 rfl v)
    let y (v : Float) : Formula Float (Seed Float fun _ => .scalar) .scalar .scalar :=
      .seed (.var 1 rfl v)
    let formula (v w : Float) : Formula Float (Seed Float fun _ => .scalar) .scalar .scalar :=
      (x v + .const (1 : Float)) * (y w - y w) *
        (x v * x v + .chain (.seed (.elementary .exp 0)) (y w))
    let infinity : Float := 1 / 0
    let calls : List (Call Float (fun _ => .scalar) .scalar) :=
      [.write 1 infinity, .write 0 (2 : Float)]
    ∃ t₀ fresh, (formula 0 0).tree? = .ok t₀ ∧
      t₀.results calls = [.error (.nonFinite "exp" infinity), .ok ()] ∧
      (formula 2 infinity).tree? = .error (.nonFinite "exp" infinity) ∧
      (formula 2 0).tree? = .ok fresh ∧
      (fresh.d₂ (.var 0) (.var 0) (1 : Float) (1 : Float) : Float) = 0 ∧
      ((t₀.after calls).d₂ (.var 0) (.var 0) (1 : Float) (1 : Float) : Float).isNaN = true := by
  intro x y formula infinity calls
  refine ⟨_, _, rfl, ?_, ?_, rfl, ?_, ?_⟩
  · decide +kernel
  · have hrejected : (fun _ => ()) <$> (formula 2 infinity).tree? =
        .error (.nonFinite "exp" infinity) := by decide +kernel
    exact eq_error_of_map hrejected
  · decide +kernel
  · decide +kernel

end Formula

end Directional
