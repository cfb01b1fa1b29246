import Directional.Proofs.Formula.Rebuild

namespace Directional.Tree

variable {K : Type} [Scalar K] {Γ : Nat → Shape} {L : Shape → Shape → Type} [Leaf K Γ L]
  {a s t u : Shape}

/-- An operand after a sequence of calls to its node, if it accepts all that come to it. -/
def run? (f : Tree K L a s) (calls : List (Call K Γ a)) : Except (DomainError K) (Tree K L a s) :=
  calls.foldlM (fun f c => (f.call? c).toExcept) f

/-- One call to two operands, the first one first. -/
def callBoth (f : Tree K L a s) (g : Tree K L a t) (c : Call K Γ a) :
    Except (DomainError K) (Tree K L a s × Tree K L a t) := do
  return (← (f.call? c).toExcept, ← (g.call? c).toExcept)

/-- Two operands after a sequence of calls to their node, if they accept all that come to them. -/
def runBoth (f : Tree K L a s) (g : Tree K L a t) (calls : List (Call K Γ a)) :
    Except (DomainError K) (Tree K L a s × Tree K L a t) :=
  calls.foldlM (fun p c => p.1.callBoth p.2 c) (f, g)

/-- Where each step of one loop is a step of another one, seen through `φ`, so are all of them
together. -/
private theorem foldlM_eq_map {ε α β σ : Type} {φ : α → β} {step : α → σ → Except ε α}
    {step' : β → σ → Except ε β} (h : ∀ x c, step' (φ x) c = φ <$> step x c) (x : α)
    (calls : List σ) : calls.foldlM step' (φ x) = φ <$> calls.foldlM step x := by
  induction calls generalizing x with
  | nil => rfl
  | cons c calls ih =>
    rw [List.foldlM_cons, List.foldlM_cons, h]
    cases step x c with
    | error => rfl
    | ok x' => exact ih x'

/-- Two copies of an operand accept what one of them does. -/
theorem callBoth_self (f : Tree K L a s) (c : Call K Γ a) :
    f.callBoth f c = (fun f => (f, f)) <$> (f.call? c).toExcept := by
  rw [callBoth]
  cases (f.call? c).toExcept <;> rfl

/-- Two copies of an operand stay copies of each other. -/
theorem runBoth_self (f : Tree K L a s) (calls : List (Call K Γ a)) :
    f.runBoth f calls = (fun f => (f, f)) <$> f.run? calls :=
  foldlM_eq_map (φ := fun f : Tree K L a s => (f, f)) callBoth_self f calls

/-- Two operands accept what each of them accepts on its own. -/
theorem runBoth_eq_ok_iff {f f' : Tree K L a s} {g g' : Tree K L a t}
    {calls : List (Call K Γ a)} :
    f.runBoth g calls = .ok (f', g') ↔ f.run? calls = .ok f' ∧ g.run? calls = .ok g' := by
  induction calls generalizing f g with
  | nil => simp [runBoth, run?, pure, Except.pure]
  | cons c calls ih =>
    simp only [runBoth, run?, List.foldlM_cons, callBoth] at ih ⊢
    cases (f.call? c).toExcept with
    | error => simp [bind, Except.bind]
    | ok f₁ =>
      cases (g.call? c).toExcept with
      | error => simp [bind, Except.bind]
      | ok g₁ => exact ih

/-- A multiple that is an operand passes the call on. -/
theorem toExcept_call?_mkScale (k : K) (f : Tree K L a s) (c : Call K Γ a) :
    ((mkScale k f).call? c).toExcept = mkScale k <$> (f.call? c).toExcept := by
  have hnode : (mkScale k f).dependsOn c.slot = f.dependsOn c.slot := dependsOn_scale f c.slot k _
  cases hdep : f.dependsOn c.slot with
  | true => rw [call?_of_dependsOn (hnode.trans hdep), toExcept_call_mkScale]
  | false =>
    rw [call?_of_not_dependsOn (hnode.trans hdep), call?_of_not_dependsOn hdep]
    rfl

/-- Multiples of two operands pass the call on. -/
theorem callBoth_mkScale (k : K) (f : Tree K L a s) (g : Tree K L a t) (c : Call K Γ a) :
    (mkScale k f).callBoth (mkScale k g) c =
      Prod.map (mkScale k) (mkScale k) <$> f.callBoth g c := by
  rw [callBoth, callBoth, toExcept_call?_mkScale, toExcept_call?_mkScale]
  cases (f.call? c).toExcept with
  | error => rfl
  | ok => cases (g.call? c).toExcept <;> rfl

/-- A square accepts what its operand does, and is put together again from what it becomes. -/
theorem run_mkSquared (m : Pairing s s s) (f : Tree K L a s) (calls : List (Call K Γ a)) :
    (mkSquared m f).run calls = mkSquared m <$> f.run? calls :=
  foldlM_eq_map (toExcept_call_mkSquared m) f calls

/-- What a node makes of both its operands after a call it may make of them one after the other. -/
private theorem bind_eq_map_callBoth (n : Tree K L a s → Tree K L a t → Tree K L a u)
    (f : Tree K L a s) (g : Tree K L a t) (c : Call K Γ a) :
    (do return n (← (f.call? c).toExcept) (← (g.call? c).toExcept)) =
      (fun p => n p.1 p.2) <$> f.callBoth g c := by
  rw [callBoth]
  cases (f.call? c).toExcept with
  | error => rfl
  | ok => cases (g.call? c).toExcept <;> rfl

/-- A product passes every call on to both operands. -/
theorem toExcept_call_mkProduct_eq_map (m : Pairing s t u) (f : Tree K L a s) (g : Tree K L a t)
    (c : Call K Γ a) :
    ((mkProduct m f g).call c).toExcept = (fun p => mkProduct m p.1 p.2) <$> f.callBoth g c := by
  rw [toExcept_call_mkProduct, bind_eq_map_callBoth]

theorem toExcept_call_mkExtremum_eq_map (e : Extremum) (f g : Tree K L a s) (c : Call K Γ a) :
    ((mkExtremum e f g).call c).toExcept =
      (fun p => mkExtremum e p.1 p.2) <$> f.callBoth g c := by
  rw [toExcept_call_mkExtremum, bind_eq_map_callBoth]

theorem toExcept_call?_mkExtremum (e : Extremum) (f g : Tree K L a s) (c : Call K Γ a) :
    ((mkExtremum e f g).call? c).toExcept =
      (fun p => mkExtremum e p.1 p.2) <$> f.callBoth g c := by
  have hnode : (mkExtremum e f g).dependsOn c.slot = (f.dependsOn c.slot || g.dependsOn c.slot) :=
    dependsOn_extremum f c.slot e g _ _
  cases hdep : f.dependsOn c.slot || g.dependsOn c.slot with
  | true => rw [call?_of_dependsOn (hnode.trans hdep), toExcept_call_mkExtremum_eq_map]
  | false =>
    obtain ⟨hf, hg⟩ := Bool.or_eq_false_iff.1 hdep
    rw [call?_of_not_dependsOn (hnode.trans hdep), callBoth, call?_of_not_dependsOn hf,
      call?_of_not_dependsOn hg]
    rfl

/-- A node whose calls are calls of two operands. -/
theorem run_eq_map_runBoth {n : Tree K L a s → Tree K L a t → Tree K L a u}
    (h : ∀ f g c, ((n f g).call c).toExcept = (fun p => n p.1 p.2) <$> f.callBoth g c)
    (f : Tree K L a s) (g : Tree K L a t) (calls : List (Call K Γ a)) :
    (n f g).run calls = (fun p => n p.1 p.2) <$> f.runBoth g calls :=
  foldlM_eq_map (φ := fun p : Tree K L a s × Tree K L a t => n p.1 p.2)
    (fun p => h p.1 p.2) (f, g) calls

/-- A product accepts a sequence of calls as long as its operands do, and is then the product of
what they have become. -/
theorem run_mkProduct (m : Pairing s t u) (f : Tree K L a s) (g : Tree K L a t)
    (calls : List (Call K Γ a)) :
    (mkProduct m f g).run calls = (fun p => mkProduct m p.1 p.2) <$> f.runBoth g calls :=
  run_eq_map_runBoth (toExcept_call_mkProduct_eq_map m) f g calls

theorem run_mkExtremum (e : Extremum) (f g : Tree K L a s) (calls : List (Call K Γ a)) :
    (mkExtremum e f g).run calls = (fun p => mkExtremum e p.1 p.2) <$> f.runBoth g calls :=
  run_eq_map_runBoth (toExcept_call_mkExtremum_eq_map e) f g calls

/-- The operands of a node that has accepted a sequence of calls have accepted it, too. -/
theorem operands_of_run {n : Tree K L a s → Tree K L a t → Tree K L a u} {f : Tree K L a s}
    {g : Tree K L a t} {calls : List (Call K Γ a)} {new : Tree K L a u}
    (hrun : (n f g).run calls = (fun p => n p.1 p.2) <$> f.runBoth g calls)
    (h : (n f g).run calls = .ok new) :
    ∃ f' g', f.run? calls = .ok f' ∧ g.run? calls = .ok g' ∧ f.runBoth g calls = .ok (f', g') ∧
      new = n f' g' := by
  rw [hrun] at h
  obtain ⟨⟨f', g'⟩, hboth, hnew⟩ := map_eq_ok h
  obtain ⟨hf, hg⟩ := runBoth_eq_ok_iff.1 hboth
  exact ⟨f', g', hf, hg, hboth, hnew.symm⟩

end Directional.Tree
