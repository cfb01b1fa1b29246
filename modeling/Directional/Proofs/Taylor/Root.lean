import Directional.Proofs.Taylor.Power

namespace Directional

open Polynomial

namespace ElementaryFunction

variable {K : Type} [Field K] [Primitives K]

/-- The closed forms of the derivatives of a square root. -/
theorem jet_sqrt {s : K} (hsqrt : Scalar.sqrt (s ^ 2) = s) :
    ElementaryFunction.sqrt.jet (s ^ 2) =
      ⟨s, 1 / 2 / s, -(1 / 4) / (s ^ 2 * s), 3 / 8 / (s ^ 2 * s ^ 2 * s)⟩ := by
  simp only [jet, hsqrt, Scalar.int_eq_cast, Int.cast_ofNat]

/-- The closed forms of the derivatives of a cube root. -/
theorem jet_cbrt {c : K} (hcbrt : Scalar.cbrt (c ^ 3) = c) :
    ElementaryFunction.cbrt.jet (c ^ 3) =
      ⟨c, 1 / (3 * c ^ 2), -2 / (9 * c ^ 5), 10 / (27 * c ^ 8)⟩ := by
  have hpowers : c * c = c ^ 2 ∧ c ^ 2 * c ^ 2 = c ^ 4 ∧ 9 * c ^ 4 * c = 9 * c ^ 5 ∧
      27 * c ^ 4 * c ^ 4 = 27 * c ^ 8 := by
    refine ⟨?_, ?_, ?_, ?_⟩ <;> ring
  simp only [jet, hcbrt, Scalar.int_eq_cast, Int.cast_ofNat, hpowers]

section Cube

variable [CharZero K] {c : K}

/-- The closed forms solve the differential equation of the power with the exponent `1 / 3`, on
either side of zero. -/
theorem solvesPower_series_cbrt (hc : c ≠ 0) (hcbrt : Scalar.cbrt (c ^ 3) = c) :
    SolvesPower 3 (c ^ 3) (1 / 3) (ElementaryFunction.cbrt.jet (c ^ 3)).series := by
  have htwo : ((2).factorial : K) = 2 := Nat.cast_ofNat (n := 2)
  have hthree : ((3).factorial : K) = 6 := Nat.cast_ofNat (n := 6)
  rw [jet_cbrt hcbrt, SolvesPower.iff_coeff]
  intro i hi
  interval_cases i
  · rw [Jet.coeff_series_zero, Jet.coeff_series_one]
    field_simp
    norm_num
  · rw [Jet.coeff_series_one, Jet.coeff_series_two, htwo]
    field_simp
    norm_num
  · rw [Jet.coeff_series_two, Jet.coeff_series_three, htwo, hthree]
    field_simp
    norm_num

/-- The cube and the argument plus the distance solve the same equation, and they start alike. -/
theorem dvd_series_cbrt_cubed (hc : c ≠ 0) (hcbrt : Scalar.cbrt (c ^ 3) = c) :
    X ^ 4 ∣ (ElementaryFunction.cbrt.jet (c ^ 3)).series ^ 3 - (X + C (c ^ 3)) := by
  have hcube := (solvesPower_series_cbrt hc hcbrt).pow 3
  have hexponent : ((3 : ℕ) : K) * (1 / 3) = 1 := by norm_num
  rw [hexponent] at hcube
  apply hcube.dvd_sub (pow_ne_zero 3 hc) SolvesPower.linear
  have hvalue : (ElementaryFunction.cbrt.jet (c ^ 3)).value = c := hcbrt
  rw [coeff_zero_eq_eval_zero, eval_pow, ← coeff_zero_eq_eval_zero, Jet.coeff_series_zero, hvalue,
    coeff_add, coeff_X_zero, coeff_C_zero, zero_add]

end Cube

section Roots

variable [LinearOrder K] [IsStrictOrderedRing K] [Scalar.ExactOrder K]

/-- A power with the exponent `1 / n` keeps the root of its argument and, for each derivative, a
multiple of the root divided by a power of the argument. -/
theorem jet_pow_one_div {l : Int32} {t : K} {n : ℕ} (hl : l.toInt = n) (hn : 0 < n) (ht : t ≠ 0)
    (hroot : l ≠ 1 → ∀ m : ℤ, Scalar.pow (t ^ n) ((m : K) / n) = t ^ m) :
    (pow 1 l).jet (t ^ n) =
      { value := t
        first := 1 / n * t / t ^ n
        second := 1 / n * (1 / n - 1) * t / (t ^ n) ^ 2
        third := 1 / n * (1 / n - 1) * (1 / n - 2) * t / (t ^ n) ^ 3 } := by
  have hk : (1 : Int32).toInt = 1 := rfl
  have hderivative (j : ℕ) (hj : j < 4) :
      powerDerivative 1 l (t ^ n) j = powerFactor 1 l j * t / (t ^ n) ^ j := by
    rw [powerDerivative_of_root hl hn (by decide) hj hroot, zpow_sub₀ ht, mul_comm (j : ℤ),
      zpow_mul, zpow_natCast, zpow_natCast, hk, zpow_one, mul_div_assoc]
  have hzero : (powerFactor 1 l 0 : K) = 1 := rfl
  simp only [jet, hderivative 0 (by decide), hderivative 1 (by decide), hderivative 2 (by decide),
    hderivative 3 (by decide), powerFactor_succ, hzero, hk, hl]
  simp

/-- A square root keeps what the power with the exponent `1 / 2` keeps. -/
theorem jet_sqrt_eq_jet_pow {s : K} (hs : s ≠ 0) (hsqrt : Scalar.sqrt (s ^ 2) = s)
    (hpow : ∀ m : ℤ, Scalar.pow (s ^ 2) ((m : K) / (2 : ℕ)) = s ^ m) :
    ElementaryFunction.sqrt.jet (s ^ 2) = (pow 1 2).jet (s ^ 2) := by
  rw [jet_sqrt hsqrt, jet_pow_one_div (by decide) (by decide) hs fun _ => hpow]
  simp only [Nat.cast_ofNat, Jet.mk.injEq, true_and]
  refine ⟨?_, ?_, ?_⟩ <;> field_simp <;> norm_num

/-- A cube root keeps what the power with the exponent `1 / 3` keeps. At negative numbers, which the
power does not accept, it has a power series whose cube is the argument. -/
theorem jet_cbrt_eq_jet_pow {c : K} (hc : c ≠ 0) (hcbrt : Scalar.cbrt (c ^ 3) = c)
    (hpow : ∀ m : ℤ, Scalar.pow (c ^ 3) ((m : K) / (3 : ℕ)) = c ^ m) :
    ElementaryFunction.cbrt.jet (c ^ 3) = (pow 1 3).jet (c ^ 3) := by
  rw [jet_cbrt hcbrt, jet_pow_one_div (by decide) (by decide) hc fun _ => hpow]
  simp only [Nat.cast_ofNat, Jet.mk.injEq, true_and]
  refine ⟨?_, ?_, ?_⟩ <;> field_simp <;> norm_num

omit [IsStrictOrderedRing K] in
/-- A negative number is in the domain of no power with another denominator than one. -/
theorem at?_pow_of_negative {k l : Int32} (hl : l ≠ 1) {x : K} (hx : x < 0) :
    Elementary.at? (pow k l) x = .error (.outOfDomain "pow" "[0, inf)" x) :=
  Elementary.at?_eq_error (Scalar.ExactOrder.isFinite x)
    (if_pos ⟨hl, Scalar.ExactOrder.lt_iff.2 hx⟩)

end Roots

end ElementaryFunction

/-- Square and cube roots agree with powers. Over an exact ordered field, let a positive number have
the root `s` or `c`, let the primitive root of the number be that one, and its powers with the
exponents `m / 2` or `m / 3` those of the root with the exponents `m`. Then the root and the power
with the exponent `1 / 2` or `1 / 3` both accept the number and keep the same four numbers. Let a
number of either sign, which is not zero, have the cube root `c`, and let the primitive cube root be
that one. Then the Taylor polynomial of third order with the four numbers that the leaf keeps has
the number plus the distance for its cube, up to terms of fourth order, also if the number is
negative, when the power with the exponent `1 / 3` rejects it. -/
theorem Elementary.roots_agree_with_powers {K : Type} [Field K] [Primitives K] [LinearOrder K]
    [IsStrictOrderedRing K] [Scalar.ExactOrder K] :
    (∀ {x s : K}, 0 < x → 0 < s → s ^ 2 = x → Scalar.sqrt x = s →
      (∀ m : ℤ, Scalar.pow x ((m : K) / 2) = s ^ m) →
      ∃ e e', Elementary.at? .sqrt x = .ok e ∧ Elementary.at? (.pow 1 2) x = .ok e' ∧
        e.jet = e'.jet) ∧
    (∀ {x c : K}, 0 < x → 0 < c → c ^ 3 = x → Scalar.cbrt x = c →
      (∀ m : ℤ, Scalar.pow x ((m : K) / 3) = c ^ m) →
      ∃ e e', Elementary.at? .cbrt x = .ok e ∧ Elementary.at? (.pow 1 3) x = .ok e' ∧
        e.jet = e'.jet) ∧
    ∀ {x c : K}, x ≠ 0 → c ^ 3 = x → Scalar.cbrt x = c →
      (∃ e, Elementary.at? .cbrt x = .ok e ∧ X ^ 4 ∣ e.jet.series ^ 3 - (X + C x)) ∧
      (x < 0 → Elementary.at? (.pow 1 3) x = .error (.outOfDomain "pow" "[0, inf)" x)) := by
  refine ⟨?_, ?_, ?_⟩
  · rintro x s hx hs rfl hsqrt hpow
    have haccepted : ElementaryFunction.sqrt.domainLeft? (s ^ 2) = none := by
      have hnegative : ¬Scalar.lt (s ^ 2) 0 = true :=
        fun h => lt_asymm hx (Scalar.ExactOrder.lt_iff.1 h)
      exact if_neg hnegative
    have haccepted' : (ElementaryFunction.pow 1 2).domainLeft? (s ^ 2) = none :=
      ElementaryFunction.domainLeft?_pow_of_ne hx.ne' fun _ => hx
    exact ⟨_, _, Elementary.at?_eq_ok_iff.2 ⟨Scalar.ExactOrder.isFinite _, haccepted, rfl⟩,
      Elementary.at?_eq_ok_iff.2 ⟨Scalar.ExactOrder.isFinite _, haccepted', rfl⟩,
      ElementaryFunction.jet_sqrt_eq_jet_pow hs.ne' hsqrt hpow⟩
  · rintro x c hx hc rfl hcbrt hpow
    have haccepted : (ElementaryFunction.pow 1 3).domainLeft? (c ^ 3) = none :=
      ElementaryFunction.domainLeft?_pow_of_ne hx.ne' fun _ => hx
    exact ⟨_, _, Elementary.at?_eq_ok_iff.2 ⟨Scalar.ExactOrder.isFinite _, rfl, rfl⟩,
      Elementary.at?_eq_ok_iff.2 ⟨Scalar.ExactOrder.isFinite _, haccepted, rfl⟩,
      ElementaryFunction.jet_cbrt_eq_jet_pow hc.ne' hcbrt hpow⟩
  · rintro x c hx rfl hcbrt
    have hc : c ≠ 0 := fun h => hx (by rw [h, zero_pow three_ne_zero])
    exact ⟨⟨_, Elementary.at?_eq_ok_iff.2 ⟨Scalar.ExactOrder.isFinite _, rfl, rfl⟩,
      ElementaryFunction.dvd_series_cbrt_cubed hc hcbrt⟩,
      ElementaryFunction.at?_pow_of_negative (by decide)⟩

/-- The rational numbers with primitive roots and powers that are right at `64` and `-64`. -/
abbrev rootsOfSixtyFour : Primitives ℚ :=
  { (inferInstance : Primitives ℚ) with
    sqrt := fun _ => 8
    cbrt := fun x => if 0 < x then 4 else -4
    pow := fun _ y => 2 ^ (6 * y).num }

/-- The roots of `64`, and the cube root of `-64`. -/
theorem Elementary.roots_agree_with_powers_sixty_four :
    letI : Primitives ℚ := rootsOfSixtyFour
    ((0 : ℚ) < 64 ∧ (0 : ℚ) < 8 ∧ (8 : ℚ) ^ 2 = 64 ∧ Scalar.sqrt (64 : ℚ) = 8 ∧
      (∀ m : ℤ, Scalar.pow (64 : ℚ) ((m : ℚ) / 2) = 8 ^ m) ∧
      ∃ e e', Elementary.at? .sqrt (64 : ℚ) = .ok e ∧ Elementary.at? (.pow 1 2) 64 = .ok e' ∧
        e.jet = e'.jet) ∧
    ((0 : ℚ) < 4 ∧ (4 : ℚ) ^ 3 = 64 ∧ Scalar.cbrt (64 : ℚ) = 4 ∧
      (∀ m : ℤ, Scalar.pow (64 : ℚ) ((m : ℚ) / 3) = 4 ^ m) ∧
      ∃ e e', Elementary.at? .cbrt (64 : ℚ) = .ok e ∧ Elementary.at? (.pow 1 3) 64 = .ok e' ∧
        e.jet = e'.jet) ∧
    ((-64 : ℚ) ≠ 0 ∧ (-4 : ℚ) ^ 3 = -64 ∧ Scalar.cbrt (-64 : ℚ) = -4 ∧
      (∃ e, Elementary.at? .cbrt (-64 : ℚ) = .ok e ∧
        X ^ 4 ∣ e.jet.series ^ 3 - (X + C (-64))) ∧
      Elementary.at? (.pow 1 3) (-64 : ℚ) = .error (.outOfDomain "pow" "[0, inf)" (-64))) := by
  let _ : Primitives ℚ := rootsOfSixtyFour
  have _ : Scalar.ExactOrder ℚ := ⟨decide_eq_true_iff, decide_eq_true_iff, fun _ => rfl⟩
  have hhalf (m : ℤ) : Scalar.pow (64 : ℚ) ((m : ℚ) / 2) = 8 ^ m := by
    have hexponent : 6 * ((m : ℚ) / 2) = (3 * m : ℤ) := by
      push_cast
      ring
    change (2 : ℚ) ^ (6 * ((m : ℚ) / 2)).num = 8 ^ m
    rw [hexponent, Rat.num_intCast, zpow_mul]
    norm_num
  have hthird (m : ℤ) : Scalar.pow (64 : ℚ) ((m : ℚ) / 3) = 4 ^ m := by
    have hexponent : 6 * ((m : ℚ) / 3) = (2 * m : ℤ) := by
      push_cast
      ring
    change (2 : ℚ) ^ (6 * ((m : ℚ) / 3)).num = 4 ^ m
    rw [hexponent, Rat.num_intCast, zpow_mul]
    norm_num
  have hsqrt : Scalar.sqrt (64 : ℚ) = 8 := rfl
  have hcbrt : Scalar.cbrt (64 : ℚ) = 4 := rfl
  have hnegative : Scalar.cbrt (-64 : ℚ) = -4 := rfl
  obtain ⟨hroot, hcube, hseries⟩ := roots_agree_with_powers (K := ℚ)
  refine ⟨⟨by norm_num, by norm_num, by norm_num, hsqrt, hhalf, ?_⟩,
    ⟨by norm_num, by norm_num, hcbrt, hthird, ?_⟩, by norm_num, by norm_num, hnegative, ?_⟩
  · exact hroot (by norm_num) (by norm_num) (by norm_num) hsqrt hhalf
  · exact hcube (by norm_num) (by norm_num) (by norm_num) hcbrt hthird
  · obtain ⟨haccepted, hrejected⟩ := hseries (by norm_num) (by norm_num) hnegative
    exact ⟨haccepted, hrejected (by norm_num)⟩

end Directional
