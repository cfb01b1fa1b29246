import Directional.Pairing

namespace Directional

/-- A term that may be absent. A derivative that is known to vanish is absent rather than zero, and
sums and products are taken over the terms that are there. -/
abbrev Term (K : Type) (s : Shape) : Type :=
  Option (Value K s)

namespace Term

variable {K : Type} {s t u : Shape}

/-- The term, if it is declared to be present. What an absent member would answer is not asked
for. -/
@[macro_inline] def gate (present : Bool) (x : Term K s) : Term K s :=
  if present then x else none

@[simp] theorem gate_true (x : Term K s) : gate true x = x := rfl

@[simp] theorem gate_false (x : Term K s) : gate false x = none := rfl

variable [Scalar K]

/-- The sum of two terms, or the one that is there. -/
def sum : Term K s → Term K s → Term K s
  | some x, some y => some (x.add y)
  | x, none => x
  | none, y => y

@[simp] theorem sum_none (x : Term K s) : sum x none = x := by
  cases x <;> rfl

@[simp] theorem none_sum (x : Term K s) : sum none x = x := by
  cases x <;> rfl

/-- The sum of the terms that are there, from left to right and starting with the first. -/
def sumAll (terms : List (Term K s)) : Term K s :=
  match terms.filterMap id with
  | [] => none
  | x :: xs => some (xs.foldl Value.add x)

/-- The product of two terms that are both there. -/
def product (m : Pairing s t u) : Term K s → Term K t → Term K u
  | some x, some y => some (m.apply x y)
  | _, _ => none

/-- The term times a number. -/
def scale (x : Term K s) (a : K) : Term K s :=
  x.map (·.scale a)

/-- A sum of two terms is there if one of them is. -/
@[simp] theorem isSome_sum (x y : Term K s) : (sum x y).isSome = (x.isSome || y.isSome) := by
  cases x <;> cases y <;> rfl

/-- A product is there if both of its factors are. -/
@[simp] theorem isSome_product (m : Pairing s t u) (x : Term K s) (y : Term K t) :
    (product m x y).isSome = (x.isSome && y.isSome) := by
  cases x <;> cases y <;> rfl

/-- A multiple is there if the term is. -/
@[simp] theorem isSome_scale (x : Term K s) (a : K) : (x.scale a).isSome = x.isSome := by
  cases x <;> rfl

/-- A sum is there if one of its terms is. -/
theorem isSome_sumAll (terms : List (Term K s)) :
    (sumAll terms).isSome = terms.any Option.isSome := by
  unfold sumAll
  induction terms with
  | nil => rfl
  | cons x xs ih => cases x <;> simp_all

end Term

end Directional
