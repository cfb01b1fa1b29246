import Mathlib.Tactic.LinearCombination
import Mathlib.Tactic.Ring
import Directional.Pairing
import Directional.Proofs.Exact.Sum

namespace Directional

variable {R S : Type} [CommRing R] [CommRing S]

namespace Value

variable {s t u : Shape}

/-- Applies `φ` to every number. -/
def map (φ : R → S) : {s : Shape} → Value R s → Value S s
  | .scalar, x => φ x
  | .matrix _ _, x => Mat.ofFn fun i j => φ (x.get i j)

/-- Values form a commutative group under addition, since numbers do. -/
theorem add_assoc (x y z : Value R s) : (x.add y).add z = x.add (y.add z) := by
  cases s with
  | scalar =>
    change x + y + z = x + (y + z)
    ring
  | matrix r c =>
    apply Mat.ext
    intro i j
    simp only [add, Mat.get_add]
    ring

/-- Addition does not depend on the order, in any shape. -/
theorem add_comm (x y : Value R s) : x.add y = y.add x := by
  cases s with
  | scalar =>
    change x + y = y + x
    ring
  | matrix r c =>
    apply Mat.ext
    intro i j
    simp only [add, Mat.get_add]
    ring

@[simp] theorem add_zero (x : Value R s) : x.add zero = x := by
  cases s with
  | scalar =>
    change x + 0 = x
    ring
  | matrix r c =>
    apply Mat.ext
    intro i j
    simp only [add, zero, Mat.get_add, Mat.get_zero]
    ring

@[simp] theorem zero_add (x : Value R s) : zero.add x = x := by
  rw [add_comm, add_zero]

instance : Std.Associative (add (K := R) (s := s)) :=
  ⟨add_assoc⟩

instance : Std.Commutative (add (K := R) (s := s)) :=
  ⟨add_comm⟩

/-- A value that is twice itself is zero. -/
theorem eq_zero_of_eq_add_self {x : Value R s} (h : x = x.add x) : x = zero := by
  cases s with
  | scalar =>
    change x = x + x at h
    change x = 0
    linear_combination -h
  | matrix r c =>
    apply Mat.ext
    intro i j
    have hij : x.get i j = x.get i j + x.get i j := by
      conv_lhs => rw [h]
      exact Mat.get_add x x i j
    simp only [zero, Mat.get_zero]
    linear_combination -hij

/-- An additive function makes zero of zero. -/
theorem map_zero_of_add {φ : Value R s → Value S t}
    (h : ∀ u v, φ (u.add v) = (φ u).add (φ v)) : φ zero = zero := by
  apply eq_zero_of_eq_add_self
  rw [← h, add_zero]

/-- An additive map of the numbers keeps sums of values. -/
theorem map_add (φ : R →+ S) (x y : Value R s) : (x.add y).map φ = (x.map φ).add (y.map φ) := by
  have hadd (a b : R) : φ (a + b) = φ a + φ b := AddMonoidHom.map_add φ a b
  cases s with
  | scalar => exact hadd x y
  | matrix r c =>
    apply Mat.ext
    intro i j
    simp only [map, add, Mat.get_ofFn, Mat.get_add, hadd]

theorem map_zero (φ : R →+ S) : (zero : Value R s).map φ = zero :=
  map_zero_of_add (map_add φ)

/-- A multiple of a sum is the sum of the multiples. -/
theorem add_scale (x y : Value R s) (a : R) : (x.add y).scale a = (x.scale a).add (y.scale a) := by
  cases s with
  | scalar =>
    change (x + y) * a = x * a + y * a
    ring
  | matrix r c =>
    apply Mat.ext
    intro i j
    simp only [add, scale, Mat.get_add, Mat.get_scale]
    ring

/-- Multiples of zero, and by zero, are zero. -/
@[simp] theorem zero_scale (a : R) : (zero : Value R s).scale a = zero :=
  map_zero_of_add (φ := (scale · a)) fun x y => add_scale x y a

@[simp] theorem scale_zero (x : Value R s) : x.scale 0 = zero := by
  cases s with
  | scalar => exact mul_zero x
  | matrix r c => exact Mat.ext fun i j => (Mat.get_scale x 0 i j).trans (by simp [zero])

@[simp] theorem scale_one (x : Value R s) : x.scale 1 = x := by
  cases s with
  | scalar => exact mul_one x
  | matrix r c => exact Mat.ext fun i j => (Mat.get_scale x 1 i j).trans (by simp)

end Value

/-- The order in which an inner product is summed makes no difference. -/
theorem Mat.inner_eq_sum {r c : Nat} (a b : Mat R r c) :
    a.inner b = ∑ i, ∑ j, a.get i j * b.get i j :=
  entrySum_eq_sum _

/-- Inner products are additive in both of their matrices. -/
theorem Mat.inner_add_left {r c : Nat} (a a' b : Mat R r c) :
    (a + a').inner b = a.inner b + a'.inner b := by
  simp only [inner_eq_sum, get_add, ← Finset.sum_add_distrib]
  refine Finset.sum_congr rfl fun i _ => Finset.sum_congr rfl fun j _ => ?_
  ring

theorem Mat.inner_add_right {r c : Nat} (a b b' : Mat R r c) :
    a.inner (b + b') = a.inner b + a.inner b' := by
  simp only [inner_eq_sum, get_add, ← Finset.sum_add_distrib]
  refine Finset.sum_congr rfl fun i _ => Finset.sum_congr rfl fun j _ => ?_
  ring

/-- The order in which the products of an entry are summed makes no difference. -/
theorem Mat.get_mul_eq_sum {r k c : Nat} (a : Mat R r k) (b : Mat R k c) (i : Fin r) (j : Fin c) :
    (a.mul b).get i j = ∑ l, a.get i l * b.get l j := by
  rw [get_mul, sumOfProducts_eq_sum]

namespace Pairing

variable {s t u : Shape}

/-- All ways to multiply are additive in the left value. -/
theorem apply_add_left (m : Pairing s t u) (x x' : Value R s) (y : Value R t) :
    m.apply (x.add x') y = (m.apply x y).add (m.apply x' y) := by
  cases m with
  | scalars =>
    change (x + x') * y = x * y + x' * y
    ring
  | matrices r k c =>
    apply Mat.ext
    intro i j
    simp only [apply, Value.add, Mat.get_add, Mat.get_mul_eq_sum]
    rw [← Finset.sum_add_distrib]
    apply Finset.sum_congr rfl
    intro l _
    ring
  | scalarMatrix r c =>
    apply Mat.ext
    intro i j
    simp only [apply, Value.add, Mat.get_add, Mat.get_scale]
    ring
  | matrixScalar r c => exact Value.add_scale x x' y
  | inner s =>
    cases s with
    | scalar =>
      change (x + x') * y = x * y + x' * y
      ring
    | matrix r c => exact Mat.inner_add_left x x' y

theorem apply_add_right (m : Pairing s t u) (x : Value R s) (y y' : Value R t) :
    m.apply x (y.add y') = (m.apply x y).add (m.apply x y') := by
  cases m with
  | scalars =>
    change x * (y + y') = x * y + x * y'
    ring
  | matrices r k c =>
    apply Mat.ext
    intro i j
    simp only [apply, Value.add, Mat.get_add, Mat.get_mul_eq_sum]
    rw [← Finset.sum_add_distrib]
    apply Finset.sum_congr rfl
    intro l _
    ring
  | scalarMatrix r c => exact Value.add_scale y y' x
  | matrixScalar r c =>
    apply Mat.ext
    intro i j
    simp only [apply, Value.add, Mat.get_add, Mat.get_scale]
    ring
  | inner s =>
    cases s with
    | scalar =>
      change x * (y + y') = x * y + x * y'
      ring
    | matrix r c => exact Mat.inner_add_right x y y'

/-- So a product with zero is zero, on either side. -/
@[simp] theorem apply_zero_left (m : Pairing s t u) (y : Value R t) : m.apply .zero y = .zero :=
  Value.map_zero_of_add (φ := (m.apply · y)) fun x x' => m.apply_add_left x x' y

@[simp] theorem apply_zero_right (m : Pairing s t u) (x : Value R s) : m.apply x .zero = .zero :=
  Value.map_zero_of_add (m.apply_add_right x)

end Pairing

end Directional
