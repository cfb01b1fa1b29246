import Mathlib.Algebra.Polynomial.Derivative
import Mathlib.Algebra.Polynomial.Div
import Mathlib.Tactic.FieldSimp
import Mathlib.Tactic.IntervalCases
import Directional.Proofs.Exact.Real
import Directional.Proofs.Leaf.Domain

namespace Directional

open Polynomial

variable {K : Type} [Field K]

/-- The polynomial `P` in `h` solves the equation `(x + h) * P' = q * P` of a power of `x + h` with
the exponent `q`, as far as the coefficients below the one with number `n` show. -/
def SolvesPower (n : ℕ) (x q : K) (P : K[X]) : Prop :=
  X ^ n ∣ (X + C x) * derivative P - C q * P

namespace SolvesPower

variable {n : ℕ} {x p q : K} {P Q : K[X]}

/-- The equation says how each coefficient follows from the one before. -/
theorem iff_coeff : SolvesPower n x q P ↔
    ∀ i < n, x * ((i + 1) * P.coeff (i + 1)) = (q - i) * P.coeff i := by
  have hcoeff (i : ℕ) : ((X + C x) * derivative P - C q * P).coeff i =
      x * ((i + 1) * P.coeff (i + 1)) - (q - i) * P.coeff i := by
    have hshift : (X * derivative P).coeff i = i * P.coeff i := by
      cases i with
      | zero => simp
      | succ i =>
        rw [coeff_X_mul, coeff_derivative]
        push_cast
        ring
    rw [add_mul, coeff_sub, coeff_add, hshift, coeff_C_mul, coeff_C_mul, coeff_derivative]
    ring
  rw [SolvesPower, X_pow_dvd_iff]
  simp only [hcoeff, sub_eq_zero]

/-- The constant one solves the equation of the exponent zero. -/
theorem one : SolvesPower n x 0 (1 : K[X]) := by
  simp [SolvesPower]

/-- The identity solves the equation of the exponent one. -/
theorem linear : SolvesPower n x 1 (X + C x) := by
  simp [SolvesPower]

/-- Products of solutions solve the equation of the sum of the exponents. -/
theorem mul (hP : SolvesPower n x p P) (hQ : SolvesPower n x q Q) :
    SolvesPower n x (p + q) (P * Q) := by
  have hsplit : (X + C x) * derivative (P * Q) - C (p + q) * (P * Q) =
      ((X + C x) * derivative P - C p * P) * Q + P * ((X + C x) * derivative Q - C q * Q) := by
    rw [derivative_mul, C_add]
    ring
  rw [SolvesPower, hsplit]
  exact dvd_add (Dvd.dvd.mul_right hP Q) (Dvd.dvd.mul_left hQ P)

/-- Powers of a solution solve the equation of a multiple of the exponent. -/
theorem pow (hP : SolvesPower n x p P) (m : ℕ) : SolvesPower n x (m * p) (P ^ m) := by
  induction m with
  | zero => simpa using one
  | succ m ih =>
    have hexponent : ((m + 1 : ℕ) : K) * p = m * p + p := by
      push_cast
      ring
    rw [hexponent, pow_succ]
    exact ih.mul hP

/-- Away from zero a solution is known by its first coefficient. -/
theorem dvd_sub [CharZero K] (hx : x ≠ 0) (hP : SolvesPower n x q P) (hQ : SolvesPower n x q Q)
    (hfirst : P.coeff 0 = Q.coeff 0) : X ^ (n + 1) ∣ P - Q := by
  rw [iff_coeff] at hP hQ
  have hcoeff (i : ℕ) (hi : i < n + 1) : P.coeff i = Q.coeff i := by
    induction i with
    | zero => exact hfirst
    | succ i ih =>
      have hstep : x * ((i + 1) * P.coeff (i + 1)) = x * ((i + 1) * Q.coeff (i + 1)) := by
        rw [hP i (by omega), hQ i (by omega), ih (by omega)]
      exact mul_left_cancel₀ (Nat.cast_add_one_ne_zero i) (mul_left_cancel₀ hx hstep)
  rw [X_pow_dvd_iff]
  intro i hi
  rw [coeff_sub, hcoeff i hi, sub_self]

end SolvesPower

/-- The Taylor polynomial of third order with the given derivatives, in the distance from the
argument. -/
noncomputable def Jet.series (c : Jet K) : K[X] :=
  C c.value + C c.first * X + C (c.second / (2).factorial) * X ^ 2 +
    C (c.third / (3).factorial) * X ^ 3

namespace Jet

variable (c : Jet K)

/-- The coefficients of the polynomial are the numbers kept, divided by factorials. -/
theorem coeff_series_zero : c.series.coeff 0 = c.value := by
  simp [series]

theorem coeff_series_one : c.series.coeff 1 = c.first := by
  simp [series, coeff_C]

theorem coeff_series_two : c.series.coeff 2 = c.second / (2).factorial := by
  simp [series, coeff_X_pow]

theorem coeff_series_three : c.series.coeff 3 = c.third / (3).factorial := by
  simp [series, coeff_X_pow]

end Jet

/-- The polynomial `P` in `h` is the power of `x + h` with the exponent `k / n` to third order: its
power with the exponent `n` is that with the exponent `k`, where a negative `k` is read as the
reciprocal of the positive one. -/
def IsPower (k : ℤ) (n : ℕ) (x : K) (P : K[X]) : Prop :=
  (0 ≤ k → X ^ 4 ∣ P ^ n - (X + C x) ^ k.toNat) ∧
  (k < 0 → X ^ 4 ∣ P ^ n * (X + C x) ^ (-k).toNat - 1)

namespace ElementaryFunction

variable [Primitives K] {k l : Int32}

/-- The coefficients of a power are its derivatives, divided by factorials. -/
theorem coeff_series (k l : Int32) (x : K) {j : ℕ} (hj : j < 4) :
    ((pow k l).jet x).series.coeff j = powerDerivative k l x j / j.factorial := by
  interval_cases j <;>
    simp [jet, Jet.coeff_series_zero, Jet.coeff_series_one, Jet.coeff_series_two,
      Jet.coeff_series_three]

variable [LinearOrder K] [IsStrictOrderedRing K] [Scalar.ExactOrder K]

/-- The series of a whole power is the binomial formula, also at zero. -/
theorem isPower_of_natural {n : ℕ} (hk : k.toInt = n) (x : K) :
    IsPower n 1 x ((pow k 1).jet x).series := by
  have hcoeff (j : ℕ) (hj : j < 4) :
      ((pow k 1).jet x).series.coeff j = ((X + C x) ^ n).coeff j := by
    have hfactorial : (j.factorial : K) ≠ 0 := Nat.cast_ne_zero.2 j.factorial_ne_zero
    rw [coeff_series k 1 x hj, powerDerivative_of_natural hk x hj, coeff_X_add_C_pow,
      Nat.descFactorial_eq_factorial_mul_choose, Nat.cast_mul]
    field_simp
  constructor
  · intro _
    rw [pow_one, Int.toNat_natCast, X_pow_dvd_iff]
    intro j hj
    rw [coeff_sub, hcoeff j hj, sub_self]
  · intro hnegative
    omega

section Root

variable {t : K} {n : ℕ} (hl : l.toInt = n) (hn : 0 < n) (hk : -2 ^ 31 ≤ k.toInt - 3)
  (hroot : l ≠ 1 → ∀ m : ℤ, Scalar.pow (t ^ n) ((m : K) / n) = t ^ m)

include hl hn hk hroot

/-- At an argument with a root the coefficients are whole powers of the root. -/
theorem coeff_series_of_root {j : ℕ} (hj : j < 4) :
    ((pow k l).jet (t ^ n)).series.coeff j =
      powerFactor k l j * t ^ (k.toInt - j * n) / j.factorial := by
  rw [coeff_series k l _ hj, powerDerivative_of_root hl hn hk hj hroot]

/-- At an argument with a root the numbers kept solve the equation of the quotient. -/
theorem solvesPower_series (ht : t ≠ 0) :
    SolvesPower 3 (t ^ n) ((k.toInt : K) / n) ((pow k l).jet (t ^ n)).series := by
  rw [SolvesPower.iff_coeff]
  intro i hi
  have hlower : t ^ n * t ^ (k.toInt - (i + 1 : ℕ) * n) = t ^ (k.toInt - i * n) := by
    rw [← zpow_natCast, ← zpow_add₀ ht]
    congr 1
    push_cast
    ring
  have hfactor : (powerFactor k l (i + 1) : K) = powerFactor k l i * ((k.toInt : K) / n - i) := by
    rw [powerFactor_succ, hl, Int.cast_natCast]
  have hfactorial : (i.factorial : K) ≠ 0 := Nat.cast_ne_zero.2 i.factorial_ne_zero
  have hsucc : ((i : K) + 1) ≠ 0 := Nat.cast_add_one_ne_zero i
  rw [coeff_series_of_root hl hn hk hroot (by omega),
    coeff_series_of_root hl hn hk hroot (by omega), hfactor, ← hlower, Nat.factorial_succ,
    Nat.cast_mul]
  field_simp
  push_cast
  ring

/-- The first one of them is a whole power of the root. -/
theorem eval_series_of_root : ((pow k l).jet (t ^ n)).series.eval 0 = t ^ k.toInt := by
  have hfactor : (powerFactor k l 0 : K) = 1 := rfl
  rw [← coeff_zero_eq_eval_zero, coeff_series_of_root hl hn hk hroot (by omega), hfactor]
  simp

/-- Both sides solve the equation of the power with the exponent `b`, and they start alike. -/
theorem dvd_of_root (ht : t ≠ 0) {a b : ℕ} (hab : k.toInt + a = b) :
    X ^ 4 ∣ ((pow k l).jet (t ^ n)).series ^ n * (X + C (t ^ n)) ^ a - (X + C (t ^ n)) ^ b := by
  have hexponent : (n : K) * ((k.toInt : K) / n) + a * 1 = b * 1 := by
    have hcast : (n : K) ≠ 0 := Nat.cast_ne_zero.2 hn.ne'
    rw [mul_div_cancel₀ _ hcast, mul_one, mul_one, ← Int.cast_natCast b, ← hab]
    push_cast
    rfl
  have hleft := ((solvesPower_series hl hn hk hroot ht).pow n).mul (SolvesPower.linear.pow a)
  rw [hexponent] at hleft
  apply hleft.dvd_sub (pow_ne_zero n ht) (SolvesPower.linear.pow b)
  have hpowers : (t ^ k.toInt) ^ n * (t ^ n) ^ a = (t ^ n) ^ b := by
    simp only [← zpow_natCast, ← zpow_mul, ← zpow_add₀ ht]
    congr 1
    rw [← hab]
    ring
  simpa [coeff_zero_eq_eval_zero, eval_series_of_root hl hn hk hroot] using hpowers

/-- Up to the third order its power with the denominator is that of `x + h` with the numerator. -/
theorem isPower_of_root (ht : t ≠ 0) :
    IsPower k.toInt n (t ^ n) ((pow k l).jet (t ^ n)).series := by
  constructor
  · intro hk0
    simpa using dvd_of_root hl hn hk hroot ht (a := 0) (b := k.toInt.toNat) (by omega)
  · intro hk0
    simpa using dvd_of_root hl hn hk hroot ht (a := (-k.toInt).toNat) (b := 0) (by omega)

end Root

omit [IsStrictOrderedRing K] in
/-- A number that is not zero is in the domain of all powers with a whole exponent, and a positive
one is in that of all powers. -/
theorem domainLeft?_pow_of_ne {x : K} (hne : x ≠ 0) (hpos : l ≠ 1 → 0 < x) :
    (pow k l).domainLeft? x = none := by
  have hnegative : ¬(l ≠ 1 ∧ Scalar.lt x 0 = true) := by
    rintro ⟨hl, hlt⟩
    exact lt_asymm (hpos hl) (Scalar.ExactOrder.lt_iff.1 hlt)
  have hzero : Scalar.same x 0 = false := by
    rw [Bool.eq_false_iff]
    exact fun h => hne (Scalar.ExactOrder.same_iff.1 h)
  simp [domainLeft?, hnegative, hzero]

/-- Zero is in the domain of no power with a negative exponent. -/
theorem ne_zero_of_negative {x : K} (hk : k.toInt < 0) (h : (pow k 1).domainLeft? x = none) :
    x ≠ 0 := by
  rintro rfl
  have hpole : hasPole K k 1 = true := by
    have hfactor : powerVanishes K k 1 0 = false := by
      rw [Bool.eq_false_iff]
      exact fun h => one_ne_zero (Scalar.ExactOrder.same_iff.1 h : (1 : K) = 0)
    have hexponent : Scalar.lt (loweredExponent k 1 0 : K) 0 = true := by
      have hone : ((1 : Int32).toInt : K) = 1 := Int.cast_one
      rw [Scalar.ExactOrder.lt_iff, loweredExponent_eq, hone, div_one, Nat.cast_zero, sub_zero]
      exact Int.cast_lt_zero.2 hk
    exact List.any_eq_true.2 ⟨0, by decide, by rw [hfactor, hexponent]; rfl⟩
  have hzero : Scalar.same (0 : K) 0 = true := Scalar.ExactOrder.same_iff.2 rfl
  rw [domainLeft?, if_neg (fun h => h.1 rfl), hpole, hzero] at h
  cases h

end ElementaryFunction

/-- A power keeps the Taylor coefficients of `x ^ (k / l)`, over an exact ordered field. The
polynomial of third order that has the kept numbers as derivatives is this power to third order: at
every argument that is accepted where the exponent is whole, also at zero, and for other exponents
at every positive number with a root, which is always accepted, if the powers of that number with
the exponents `m / l` are those of its root with the exponents `m`. -/
theorem Elementary.power_keeps_taylor_coefficients [Primitives K] [LinearOrder K]
    [IsStrictOrderedRing K] [Scalar.ExactOrder K] {k l : Int32} {n : ℕ} (hl : l.toInt = n)
    (hn : 0 < n) (hk : -2 ^ 31 ≤ k.toInt - 3) :
    (n = 1 → ∀ {x : K} {e : Elementary K}, Elementary.at? (.pow k l) x = .ok e →
      IsPower k.toInt 1 x e.jet.series) ∧
    (2 ≤ n → ∀ {t : K}, 0 < t → (∀ m : ℤ, Scalar.pow (t ^ n) ((m : K) / n) = t ^ m) →
      ∃ e, Elementary.at? (.pow k l) (t ^ n) = .ok e ∧ IsPower k.toInt n (t ^ n) e.jet.series) := by
  constructor
  · rintro rfl x e h
    obtain rfl : l = 1 := Int32.toInt_inj.1 hl
    obtain ⟨-, haccepted, rfl⟩ := Elementary.at?_eq_ok_iff.1 h
    obtain hnegative | hnonnegative := Int.lt_or_le k.toInt 0
    · have hne := ElementaryFunction.ne_zero_of_negative hnegative haccepted
      simpa using ElementaryFunction.isPower_of_root (t := x) hl hn hk (absurd rfl ·) hne
    · have hnatural : k.toInt = k.toInt.toNat := (Int.toNat_of_nonneg hnonnegative).symm
      rw [hnatural]
      exact ElementaryFunction.isPower_of_natural hnatural x
  · intro hroot t ht hpow
    have hpos : 0 < t ^ n := pow_pos ht n
    have haccepted : (ElementaryFunction.pow k l).domainLeft? (t ^ n) = none :=
      ElementaryFunction.domainLeft?_pow_of_ne hpos.ne' fun _ => hpos
    refine ⟨_, Elementary.at?_eq_ok_iff.2 ⟨Scalar.ExactOrder.isFinite _, haccepted, rfl⟩, ?_⟩
    exact ElementaryFunction.isPower_of_root hl hn hk (fun _ => hpow) ht.ne'

/-- The square root of the real number four, the reciprocal of the square at a negative number, and
the square at zero. -/
theorem Elementary.power_keeps_taylor_coefficients_root_reciprocal_square :
    let reciprocal : Elementary ℚ := ⟨.pow (-2) 1, -3, ⟨1 / 9, 2 / 27, 6 / 81, 24 / 243⟩⟩
    let square : Elementary ℚ := ⟨.pow 2 1, 0, ⟨0, 0, 2, 0⟩⟩
    ((0 : ℝ) < 2 ∧ (∀ m : ℤ, Scalar.pow ((2 : ℝ) ^ 2) ((m : ℝ) / (2 : ℕ)) = 2 ^ m) ∧
      ∃ root : Elementary ℝ, Elementary.at? (.pow 1 2) 4 = .ok root ∧
        X ^ 4 ∣ root.jet.series ^ 2 - (X + C 4)) ∧
    (Elementary.at? (.pow (-2) 1) (-3) = .ok reciprocal ∧
      X ^ 4 ∣ reciprocal.jet.series * (X + C (-3)) ^ 2 - 1) ∧
    (Elementary.at? (.pow 2 1) 0 = .ok square ∧ X ^ 4 ∣ square.jet.series - X ^ 2) := by
  intro reciprocal square
  have hpow (m : ℤ) : Scalar.pow ((2 : ℝ) ^ 2) ((m : ℝ) / (2 : ℕ)) = 2 ^ m := by
    change ((2 : ℝ) ^ 2) ^ ((m : ℝ) / (2 : ℕ)) = 2 ^ m
    rw [← Real.rpow_natCast, ← Real.rpow_mul zero_le_two, mul_div_cancel₀ _ (by norm_num),
      Real.rpow_intCast]
  have jet_eq {k l : Int32} {x : ℚ} {c : Jet ℚ}
      (h : c.value = ElementaryFunction.powerDerivative k l x 0 ∧
        c.first = ElementaryFunction.powerDerivative k l x 1 ∧
        c.second = ElementaryFunction.powerDerivative k l x 2 ∧
        c.third = ElementaryFunction.powerDerivative k l x 3) :
      (⟨.pow k l, x, c⟩ : Elementary ℚ) = ⟨.pow k l, x, (ElementaryFunction.pow k l).jet x⟩ := by
    obtain ⟨v, f, s, t⟩ := c
    obtain ⟨rfl, rfl, rfl, rfl⟩ := h
    rfl
  have hreciprocal : Elementary.at? (.pow (-2) 1) (-3) = .ok reciprocal :=
    Elementary.at?_eq_ok_iff.2 ⟨rfl, by decide +kernel, jet_eq (by decide +kernel)⟩
  have hsquare : Elementary.at? (.pow 2 1) 0 = .ok square :=
    Elementary.at?_eq_ok_iff.2 ⟨rfl, by decide +kernel, jet_eq (by decide +kernel)⟩
  refine ⟨⟨two_pos, hpow, ?_⟩, ⟨hreciprocal, ?_⟩, hsquare, ?_⟩
  · obtain ⟨root, hroot, hpower⟩ := (power_keeps_taylor_coefficients (K := ℝ) (k := 1) (l := 2)
      (n := 2) (by decide) (by decide) (by decide)).2 (by decide) two_pos hpow
    have hfour : (2 : ℝ) ^ 2 = 4 := by norm_num
    rw [hfour] at hroot hpower
    exact ⟨root, hroot, by simpa using hpower.1 (by decide)⟩
  · have hpower := (power_keeps_taylor_coefficients (k := -2) (by decide) (by decide)
      (by decide)).1 rfl hreciprocal
    simpa using hpower.2 (by decide)
  · have hpower := (power_keeps_taylor_coefficients (k := 2) (by decide) (by decide)
      (by decide)).1 rfl hsquare
    simpa using hpower.1 (by decide)

end Directional
