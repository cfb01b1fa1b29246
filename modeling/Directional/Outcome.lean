namespace Directional

/-- A state change that was carried out, or refused at some point on the way. A refused change still
leaves a state behind: what was changed before the refusal stays changed. -/
inductive Outcome (ε σ : Type) where
  | accepted (state : σ)
  | rejected (error : ε) (state : σ)

namespace Outcome

variable {ε σ τ ρ : Type}

/-- The state that is left behind. -/
def state : Outcome ε σ → σ
  | accepted s => s
  | rejected _ s => s

/-- Whether the change was carried out, without the state. -/
def result : Outcome ε σ → Except ε Unit
  | accepted _ => .ok ()
  | rejected e _ => .error e

/-- The new state, or the reason why the change was refused. What a refused change leaves behind is
dropped. -/
def toExcept : Outcome ε σ → Except ε σ
  | accepted s => .ok s
  | rejected e _ => .error e

@[simp] theorem state_accepted (s : σ) : (accepted s : Outcome ε σ).state = s := rfl

@[simp] theorem state_rejected (e : ε) (s : σ) : (rejected e s).state = s := rfl

@[simp] theorem result_accepted (s : σ) : (accepted s : Outcome ε σ).result = .ok () := rfl

@[simp] theorem result_rejected (e : ε) (s : σ) : (rejected e s).result = .error e := rfl

@[simp] theorem toExcept_accepted (s : σ) : (accepted s : Outcome ε σ).toExcept = .ok s := rfl

@[simp] theorem toExcept_rejected (e : ε) (s : σ) : (rejected e s).toExcept = .error e := rfl

/-- A change that gives a new state was carried out. -/
@[simp] theorem toExcept_eq_ok_iff {o : Outcome ε σ} {s : σ} :
    o.toExcept = .ok s ↔ o = accepted s := by
  cases o <;> simp [toExcept]

/-- A new state, or the old one with the reason why there is none. -/
def ofExcept (old : σ) : Except ε σ → Outcome ε σ
  | .ok new => .accepted new
  | .error e => .rejected e old

/-- The outcome for a whole of which `σ` is a part. -/
def map (f : σ → τ) : Outcome ε σ → Outcome ε τ
  | accepted s => accepted (f s)
  | rejected e s => rejected e (f s)

/-- The outcome for a whole that is completed in one way if its part accepts, and put together in
another way if its part refuses. -/
def complete (accept reject : σ → τ) : Outcome ε σ → Outcome ε τ
  | accepted s => accepted (accept s)
  | rejected e s => rejected e (reject s)

/-- The outcome of a change that is made only if `present` holds. -/
def visit (present : Bool) (s : σ) (change : Outcome ε σ) : Outcome ε σ :=
  if present then change else accepted s

/-- Two changes one after the other. If the first one is refused, the second part keeps its old
state `t`. -/
def both (accept reject : σ → τ → ρ) (first : Outcome ε σ) (t : τ) (second : Outcome ε τ) :
    Outcome ε ρ :=
  match first with
  | accepted s => second.complete (accept s) (reject s)
  | rejected e s => rejected e (reject s t)

@[simp] theorem state_map (f : σ → τ) (o : Outcome ε σ) : (o.map f).state = f o.state := by
  cases o <;> rfl

/-- What is done with the state does not show in the result. -/
@[simp] theorem result_map (f : σ → τ) (o : Outcome ε σ) : (o.map f).result = o.result := by
  cases o <;> rfl

/-- A whole answers as its part does, however it is completed. -/
@[simp] theorem result_complete (accept reject : σ → τ) (o : Outcome ε σ) :
    (o.complete accept reject).result = o.result := by
  cases o <;> rfl

/-- The old state does not show when it is dropped. -/
@[simp] theorem toExcept_ofExcept (s : σ) (r : Except ε σ) : (ofExcept s r).toExcept = r := by
  cases r <;> rfl

/-- The new state of a whole is made of that of its part. -/
@[simp] theorem toExcept_map (f : σ → τ) (o : Outcome ε σ) :
    (o.map f).toExcept = f <$> o.toExcept := by
  cases o <;> rfl

/-- How a whole is put together after a refusal does not show when it is dropped. -/
@[simp] theorem toExcept_complete (accept reject : σ → τ) (o : Outcome ε σ) :
    (o.complete accept reject).toExcept = accept <$> o.toExcept := by
  cases o <;> rfl

/-- A whole is left behind as it is completed, or as it is put together after a refusal. -/
theorem state_complete (accept reject : σ → τ) (o : Outcome ε σ) :
    (o.complete accept reject).state = accept o.state ∨
      (o.complete accept reject).state = reject o.state := by
  cases o with
  | accepted => exact .inl rfl
  | rejected => exact .inr rfl

/-- The second of two parts is left as it was, or as its own change leaves it. -/
theorem state_both (accept reject : σ → τ → ρ) (first : Outcome ε σ) (t : τ)
    (second : Outcome ε τ) :
    ∃ u, (u = t ∨ u = second.state) ∧
      ((both accept reject first t second).state = accept first.state u ∨
        (both accept reject first t second).state = reject first.state u) := by
  cases first with
  | rejected e s => exact ⟨t, .inl rfl, .inr rfl⟩
  | accepted s => exact ⟨second.state, .inr rfl, state_complete (accept s) (reject s) second⟩

@[simp] theorem visit_true (s : σ) (change : Outcome ε σ) : visit true s change = change := rfl

@[simp] theorem visit_false (s : σ) (change : Outcome ε σ) :
    visit false s change = accepted s := rfl

/-- A part that is refused a new state keeps the old one in the whole. -/
theorem eq_of_map_ofExcept_rejected {f : σ → τ} {old : σ} {r : Except ε σ} {e : ε} {t : τ}
    (h : (ofExcept old r).map f = rejected e t) : t = f old := by
  cases r with
  | ok new => simp [ofExcept, map] at h
  | error e' =>
    simp only [ofExcept, map, rejected.injEq] at h
    exact h.2.symm

/-- Two changes one after the other give a new whole if both of them are carried out. -/
@[simp] theorem toExcept_both (accept reject : σ → τ → ρ) (first : Outcome ε σ) (t : τ)
    (second : Outcome ε τ) :
    (both accept reject first t second).toExcept =
      (do return accept (← first.toExcept) (← second.toExcept)) := by
  cases first <;> cases second <;> rfl

end Outcome

/-- A result that is carried on was there before. -/
theorem map_eq_ok {ε α β : Type} {f : α → β} {x : Except ε α} {b : β} (h : f <$> x = .ok b) :
    ∃ a, x = .ok a ∧ f a = b := by
  cases x with
  | error => nomatch h
  | ok a => exact ⟨a, rfl, Except.ok.inj h⟩

/-- An error that is carried on was there before. -/
theorem eq_error_of_map {ε α β : Type} {f : α → β} {x : Except ε α} {e : ε}
    (h : f <$> x = .error e) : x = .error e := by
  cases x with
  | error e' => exact congrArg _ (Except.error.inj h)
  | ok a => nomatch h

/-- The first one of two steps has a result if the second one does. -/
theorem bind_eq_ok {ε α β : Type} {x : Except ε α} {f : α → Except ε β} {b : β}
    (h : (x >>= f) = .ok b) : ∃ a, x = .ok a ∧ f a = .ok b := by
  cases x with
  | error => nomatch h
  | ok a => exact ⟨a, rfl, h⟩

end Directional
