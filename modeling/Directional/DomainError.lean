import Directional.Scalar

namespace Directional

/-- The reason for which a function does not accept an argument. -/
inductive DomainError (K : Type) where
  /-- The argument lies outside of the domain, which is given in words. -/
  | outOfDomain (function domain : String) (value : K)
  /-- The argument is not a finite number. -/
  | nonFinite (function : String) (value : K)
  deriving DecidableEq

namespace DomainError

variable {K : Type} [Scalar K]

/-- Accepts finite numbers only. -/
def checkFinite (function : String) (x : K) : Except (DomainError K) Unit :=
  if Scalar.isFinite x then .ok () else .error (.nonFinite function x)

/-- Accepts lists of finite numbers only, and reports the first number that is not. -/
def checkAllFinite (function : String) (xs : List K) : Except (DomainError K) Unit :=
  xs.forM (checkFinite function)

/-- The check of a number says what it is called for. -/
theorem checkFinite_eq_ok_iff {function : String} {x : K} :
    checkFinite function x = .ok () ↔ Scalar.isFinite x = true := by
  unfold checkFinite
  split <;> simp_all

/-- A list passes if and only if it has finite numbers only. -/
theorem checkAllFinite_eq_ok_iff {function : String} {xs : List K} :
    checkAllFinite function xs = .ok () ↔ ∀ x ∈ xs, Scalar.isFinite x = true := by
  rw [checkAllFinite, List.forM_eq_forM]
  induction xs with
  | nil => simp [pure, Except.pure]
  | cons x xs ih =>
    rw [List.forM_cons, List.forall_mem_cons, ← ih]
    cases hx : Scalar.isFinite x <;> simp [checkFinite, hx, bind, Except.bind]

end DomainError

end Directional
