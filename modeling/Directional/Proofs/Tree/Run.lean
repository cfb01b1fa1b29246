import Directional.Proofs.Tree.Alike

namespace Directional.Tree

variable {K : Type} [Scalar K] {Γ : Nat → Shape} {L : Shape → Shape → Type} [Leaf K Γ L]
  {a b s t : Shape}

/-- The tree that a sequence of calls leaves behind. -/
def after (f : Tree K L a s) (calls : List (Call K Γ a)) : Tree K L a s :=
  calls.foldl (fun f c => (f.call c).state) f

/-- What the calls of a sequence return. -/
def results (f : Tree K L a s) : List (Call K Γ a) → List (Except (DomainError K) Unit)
  | [] => []
  | c :: calls => (f.call c).result :: (f.call c).state.results calls

@[simp] theorem after_nil (f : Tree K L a s) : f.after [] = f := rfl

@[simp] theorem after_cons (f : Tree K L a s) (c : Call K Γ a) (calls : List (Call K Γ a)) :
    f.after (c :: calls) = (f.call c).state.after calls := rfl

@[simp] theorem results_nil (f : Tree K L a s) : f.results [] = [] := rfl

@[simp] theorem results_cons (f : Tree K L a s) (c : Call K Γ a) (calls : List (Call K Γ a)) :
    f.results (c :: calls) = (f.call c).result :: (f.call c).state.results calls := rfl

/-- The last call of a sequence is made to what the others have left. -/
theorem after_concat (f : Tree K L a s) (calls : List (Call K Γ a)) (c : Call K Γ a) :
    f.after (calls ++ [c]) = ((f.after calls).call c).state := by
  simp [after]

theorem results_concat (f : Tree K L a s) (calls : List (Call K Γ a)) (c : Call K Γ a) :
    f.results (calls ++ [c]) = f.results calls ++ [((f.after calls).call c).result] := by
  induction calls generalizing f with
  | nil => rfl
  | cons d calls ih =>
    rw [List.cons_append, results_cons, ih, results_cons, after_cons]
    rfl

/-- Every call returns something. -/
@[simp] theorem length_results (f : Tree K L a s) (calls : List (Call K Γ a)) :
    (f.results calls).length = calls.length := by
  induction calls generalizing f with
  | nil => rfl
  | cons c calls ih => rw [results_cons, List.length_cons, ih, List.length_cons]

/-- Calls keep the nodes of a tree and the declarations of its leaves. -/
theorem alike_after [LawfulLeaf L] (f : Tree K L a s) (calls : List (Call K Γ a)) :
    f.Alike (f.after calls) := by
  induction calls generalizing f with
  | nil => exact .refl f
  | cons c calls ih => exact (alike_call f c).trans (ih _)

/-- Let two trees be related, and let a call of the one and the corresponding call of the other
return the same and leave related trees. Then corresponding sequences of calls do. The trees may
have leaves of different families. -/
theorem simulation {L' : Shape → Shape → Type} [Leaf K Γ L'] {α : Type}
    {R : Tree K L a s → Tree K L' b t → Prop} {c : α → Call K Γ a} {d : α → Call K Γ b}
    (step : ∀ f g x, R f g → (f.call (c x)).result = (g.call (d x)).result ∧
      R (f.call (c x)).state (g.call (d x)).state)
    {f : Tree K L a s} {g : Tree K L' b t} (h : R f g) (xs : List α) :
    f.results (xs.map c) = g.results (xs.map d) ∧ R (f.after (xs.map c)) (g.after (xs.map d)) := by
  induction xs generalizing f g with
  | nil => exact ⟨rfl, h⟩
  | cons x xs ih =>
    obtain ⟨hresult, hstates⟩ := step f g x h
    obtain ⟨hresults, hafter⟩ := ih hstates
    simp only [List.map_cons, results_cons, after_cons]
    exact ⟨by rw [hresult, hresults], hafter⟩

/-- The same with the same calls to both. -/
theorem simulation_same {L' : Shape → Shape → Type} [Leaf K Γ L']
    {R : Tree K L a s → Tree K L' a t → Prop}
    (step : ∀ f g c, R f g → (f.call c).result = (g.call c).result ∧
      R (f.call c).state (g.call c).state)
    {f : Tree K L a s} {g : Tree K L' a t} (h : R f g) (calls : List (Call K Γ a)) :
    f.results calls = g.results calls ∧ R (f.after calls) (g.after calls) := by
  simpa using simulation (c := id) (d := id) step h calls

end Directional.Tree
