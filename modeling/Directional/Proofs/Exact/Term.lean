import Directional.Proofs.Exact.Value
import Directional.Term.Composition
import Directional.Term.Square

namespace Directional.Term

variable {K : Type} [Field K] [Primitives K] {s t u : Shape}

/-- The value of a term, which is zero if the term is absent. -/
def total (x : Term K s) : Value K s :=
  x.getD .zero

@[simp] theorem total_some (x : Value K s) : total (some x) = x := rfl

@[simp] theorem total_none : total (none : Term K s) = .zero := rfl

/-- A term is known by whether it is there and by its value. -/
theorem eq_of_isSome_of_total {x y : Term K s} (hsome : x.isSome = y.isSome)
    (htotal : x.total = y.total) : x = y := by
  cases x with
  | none =>
    cases y with
    | none => rfl
    | some => nomatch hsome
  | some x =>
    cases y with
    | none => nomatch hsome
    | some y => exact congrArg some htotal

/-- The total of a sum, where an absent term is zero, is the sum of the totals. -/
@[simp] theorem total_sum (x y : Term K s) : (sum x y).total = x.total.add y.total := by
  cases x with
  | none => simp
  | some x =>
    cases y with
    | none => simp
    | some y => rfl

@[simp] theorem total_scale (x : Term K s) (c : K) : (x.scale c).total = x.total.scale c := by
  cases x with
  | none => exact (Value.zero_scale c).symm
  | some x => rfl

/-- The total of a product, which is absent if one of its factors is. -/
@[simp] theorem total_product (m : Pairing s t u) (x : Term K s) (y : Term K t) :
    (product m x y).total = m.apply x.total y.total := by
  cases x with
  | none => exact (m.apply_zero_left _).symm
  | some x =>
    cases y with
    | none => exact (m.apply_zero_right _).symm
    | some y => rfl

private theorem foldl_add (total : Value K s) (xs : List (Value K s)) :
    xs.foldl Value.add total = total.add (xs.foldl Value.add .zero) := by
  induction xs generalizing total with
  | nil => simp
  | cons x xs ih =>
    rw [List.foldl_cons, List.foldl_cons, ih, ih (Value.add .zero x), Value.zero_add,
      Value.add_assoc]

/-- The sum of the terms that are there is the sum of all of them. -/
theorem total_sumAll (terms : List (Term K s)) :
    (sumAll terms).total = (terms.map total).foldr Value.add .zero := by
  have hsum : (sumAll terms).total = (terms.filterMap id).foldl Value.add .zero := by
    rw [sumAll]
    cases terms.filterMap id with
    | nil => rfl
    | cons x xs => simp
  rw [hsum]
  clear hsum
  induction terms with
  | nil => rfl
  | cons x terms ih =>
    cases x with
    | none => simpa using ih
    | some x =>
      have hpresent : (some x :: terms).filterMap id = x :: terms.filterMap id := rfl
      rw [hpresent, List.foldl_cons, foldl_add, Value.zero_add, ih]
      rfl

end Directional.Term
