import Mathlib.Algebra.Order.Field.Basic
import Mathlib.Data.Nat.Factorial.Cast
import Directional.Proofs.Exact.Field
import Directional.Leaf.Elementary

namespace Directional

/-- The comparisons of a number type are those of an ordered field, all of whose numbers are
finite. -/
class Scalar.ExactOrder (K : Type) [Field K] [LinearOrder K] [Primitives K] : Prop where
  lt_iff {x y : K} : Scalar.lt x y = true ↔ x < y
  same_iff {x y : K} : Scalar.same x y = true ↔ x = y
  isFinite (x : K) : Scalar.isFinite x = true

instance : Scalar.ExactOrder ℚ where
  lt_iff := decide_eq_true_iff
  same_iff := decide_eq_true_iff
  isFinite _ := rfl

variable {K : Type} [Field K] [Primitives K]

namespace Scalar

/-- Repeated squaring computes the power. -/
theorem powerOnto_eq (result base : K) (n : Nat) : powerOnto result base n = result * base ^ n := by
  induction n using Nat.strong_induction_on generalizing result base with
  | h n ih =>
    have hsplit : base ^ n = base ^ (n % 2) * (base * base) ^ (n / 2) := by
      rw [← pow_two, ← pow_mul, ← pow_add, Nat.mod_add_div]
    rw [powerOnto]
    by_cases hzero : n / 2 = 0
    · obtain rfl | rfl : n = 0 ∨ n = 1 := by omega
      · simp
      · simp
    · have hlower := ih (n / 2) (by omega)
      obtain heven | hodd := Nat.mod_two_eq_zero_or_one n
      · simp only [heven, zero_ne_one, hzero, if_false, hlower, hsplit, pow_zero, one_mul]
      · simp only [hodd, hzero, if_true, if_false, hlower, hsplit, pow_one, mul_assoc]

/-- A power with a natural exponent is that of the field. -/
theorem natPower_eq_pow (x : K) (n : Nat) : natPower x n = x ^ n := by
  rw [natPower, powerOnto_eq]
  exact one_mul _

/-- A power with an integer exponent is that of the field. -/
theorem intPower_eq_zpow (x : K) (n : Int) : intPower x n = x ^ n := by
  rw [intPower, natPower_eq_pow]
  obtain hn | hn := Int.lt_or_le n 0
  · obtain ⟨m, rfl⟩ : ∃ m : Nat, n = -m := ⟨n.natAbs, by omega⟩
    rw [if_pos hn, Int.natAbs_neg, Int.natAbs_natCast, zpow_neg, zpow_natCast]
    exact one_div _
  · rw [if_neg (by omega), ← zpow_natCast, Int.natAbs_of_nonneg hn]

end Scalar

/-- Lowering a whole exponent does not wrap around unless the exponent is one of the three smallest
words. -/
theorem toInt_sub_ofNat {k : Int32} {j : Nat} (hj : j < 4) (hk : -2 ^ 31 ≤ k.toInt - 3) :
    (k - Int32.ofNat j).toInt = k.toInt - j := by
  have hupper := k.toInt_lt
  have hsmall : (Int32.ofNat j).toInt = j := Int32.toInt_ofNat_of_lt (by omega)
  rw [Int32.toInt_sub, hsmall, Int.bmod_eq_of_le] <;> omega

namespace ElementaryFunction

variable {k l : Int32}

/-- A lowered exponent as a quotient less a natural number. -/
theorem loweredExponent_eq (k l : Int32) (j : Nat) :
    (loweredExponent k l j : K) = (k.toInt : K) / (l.toInt : K) - j :=
  congrArg ((k.toInt : K) / (l.toInt : K) - ·) (Int.cast_natCast j)

/-- Each derivative puts the exponent that it lowers in front. -/
theorem powerFactor_succ (k l : Int32) (j : Nat) :
    (powerFactor k l (j + 1) : K) = powerFactor k l j * ((k.toInt : K) / (l.toInt : K) - j) := by
  rw [← loweredExponent_eq]
  rfl

/-- The factors of a whole exponent are its falling factorials. -/
theorem powerFactor_eq_descFactorial {n : Nat} (hk : k.toInt = n) (j : Nat) :
    (powerFactor k 1 j : K) = n.descFactorial j := by
  have hone : ((1 : Int32).toInt : K) = 1 := Int.cast_one
  induction j with
  | zero => exact Nat.cast_one.symm
  | succ j ih =>
    rw [powerFactor_succ, ih, hk, hone, div_one, Int.cast_natCast, Nat.descFactorial_succ]
    obtain hj | hj := Nat.lt_or_ge n j
    · rw [Nat.descFactorial_of_lt hj]
      simp
    · rw [Nat.cast_mul, Nat.cast_sub hj, mul_comm]

variable [LinearOrder K] [Scalar.ExactOrder K]

/-- A derivative that is not computed is zero because its factor is. -/
theorem powerDerivative_eq {k l : Int32} {x : K} {j : Nat} {u : K}
    (hwhole : l = 1 → powerFactor k l j ≠ (0 : K) → Scalar.intPower x (k - Int32.ofNat j).toInt = u)
    (hroot : l ≠ 1 → powerFactor k l j ≠ (0 : K) → Scalar.pow x (loweredExponent k l j) = u) :
    powerDerivative k l x j = powerFactor k l j * u := by
  have hvanishes : powerVanishes K k l j = true ↔ powerFactor k l j = (0 : K) :=
    Scalar.ExactOrder.same_iff
  rw [powerDerivative]
  by_cases hzero : powerFactor k l j = (0 : K)
  · rw [if_pos (hvanishes.2 hzero), hzero]
    exact (zero_mul u).symm
  · rw [if_neg (fun h => hzero (hvanishes.1 h))]
    by_cases hl : l = 1
    · rw [if_pos hl, hwhole hl hzero]
    · rw [if_neg hl, hroot hl hzero]

/-- At an argument with a root, all exponents are whole exponents of the root. -/
theorem powerDerivative_of_root [IsStrictOrderedRing K] {t : K} {n : Nat} (hl : l.toInt = n)
    (hn : 0 < n) (hk : -2 ^ 31 ≤ k.toInt - 3) {j : Nat} (hj : j < 4)
    (hroot : l ≠ 1 → ∀ m : ℤ, Scalar.pow (t ^ n) ((m : K) / n) = t ^ m) :
    powerDerivative k l (t ^ n) j = powerFactor k l j * t ^ (k.toInt - j * n) := by
  apply powerDerivative_eq
  · rintro rfl -
    obtain rfl : n = 1 := Int.ofNat_inj.1 hl.symm
    rw [Scalar.intPower_eq_zpow, toInt_sub_ofNat hj hk, pow_one, Nat.cast_one, mul_one]
  · intro hne _
    have hcast : (n : K) ≠ 0 := Nat.cast_ne_zero.2 hn.ne'
    have hexponent : (loweredExponent k l j : K) = ((k.toInt - j * n : ℤ) : K) / n := by
      rw [loweredExponent_eq, hl]
      push_cast
      rw [sub_div, mul_div_cancel_right₀ _ hcast]
    rw [hexponent, hroot hne]

/-- A whole exponent that is not negative is never lowered below zero. -/
theorem powerDerivative_of_natural {n : Nat} (hk : k.toInt = n) (x : K) {j : Nat} (hj : j < 4) :
    powerDerivative k 1 x j = n.descFactorial j * x ^ (n - j) := by
  rw [← powerFactor_eq_descFactorial hk]
  apply powerDerivative_eq
  · intro _ hfactor
    have hle : j ≤ n := by
      by_contra hlt
      rw [powerFactor_eq_descFactorial hk, Nat.descFactorial_of_lt (by omega)] at hfactor
      exact hfactor Nat.cast_zero
    rw [Scalar.intPower_eq_zpow, toInt_sub_ofNat hj (by omega), hk, ← Nat.cast_sub hle,
      zpow_natCast]
  · exact fun hone => absurd rfl hone

end ElementaryFunction

end Directional
