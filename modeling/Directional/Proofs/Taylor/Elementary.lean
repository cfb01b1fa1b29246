import Directional.Proofs.Exact.Real
import Directional.Proofs.Taylor.Power

namespace Directional

open Polynomial

variable {K : Type} [Field K]

/-- Two polynomials agree up to terms of third order if their first three coefficients do. -/
theorem X_cubed_dvd_sub_iff {P Q : K[X]} :
    X ^ 3 ∣ P - Q ↔
      P.coeff 0 = Q.coeff 0 ∧ P.coeff 1 = Q.coeff 1 ∧ P.coeff 2 = Q.coeff 2 := by
  rw [X_pow_dvd_iff]
  simp only [coeff_sub, sub_eq_zero]
  constructor
  · exact fun h => ⟨h 0 (by omega), h 1 (by omega), h 2 (by omega)⟩
  · rintro ⟨h₀, h₁, h₂⟩ i hi
    interval_cases i
    · exact h₀
    · exact h₁
    · exact h₂

/-- The coefficient of second order of a product. -/
theorem coeff_mul_two (P Q : K[X]) :
    (P * Q).coeff 2 =
      P.coeff 0 * Q.coeff 2 + P.coeff 1 * Q.coeff 1 + P.coeff 2 * Q.coeff 0 := by
  rw [coeff_mul, Finset.Nat.sum_antidiagonal_eq_sum_range_succ_mk]
  simp [Finset.sum_range_succ]

namespace Jet

variable (six : (6 : K) ≠ 0) (c : Jet K)

include six in
private theorem two_and_three_ne_zero : (2 : K) ≠ 0 ∧ (3 : K) ≠ 0 := by
  have hsix : (2 : K) * 3 = 6 := by norm_num
  rw [← hsix] at six
  exact ⟨left_ne_zero_of_mul six, right_ne_zero_of_mul six⟩

private theorem coeff_series_two_eq : c.series.coeff 2 = c.second / 2 := by
  have hfactorial : ((2).factorial : K) = 2 := Nat.cast_ofNat (n := 2)
  rw [coeff_series_two, hfactorial]

/-- The coefficients of the derivative are the numbers kept from the first one on. -/
theorem coeff_derivative_zero : (derivative c.series).coeff 0 = c.first := by
  rw [coeff_derivative, coeff_series_one]
  simp

include six

theorem coeff_derivative_one : (derivative c.series).coeff 1 = c.second := by
  obtain ⟨htwo, -⟩ := two_and_three_ne_zero six
  rw [coeff_derivative, coeff_series_two_eq]
  push_cast
  field_simp
  norm_num

theorem coeff_derivative_two : (derivative c.series).coeff 2 = c.third / 2 := by
  obtain ⟨htwo, hthree⟩ := two_and_three_ne_zero six
  have hfactorial : ((3).factorial : K) = 2 * 3 := by
    have h : ((3).factorial : K) = 6 := Nat.cast_ofNat (n := 6)
    rw [h]
    norm_num
  rw [coeff_derivative, coeff_series_three, hfactorial]
  push_cast
  field_simp
  norm_num

/-- The equation of the tangent. -/
theorem dvd_derivative_sub_one_add_sq_iff :
    X ^ 3 ∣ derivative c.series - (1 + c.series ^ 2) ↔
      c.first = 1 + c.value ^ 2 ∧ c.second = 2 * c.value * c.first ∧
        c.third = 2 * (c.value * c.second + c.first ^ 2) := by
  obtain ⟨htwo, -⟩ := two_and_three_ne_zero six
  rw [X_cubed_dvd_sub_iff, pow_two]
  simp only [coeff_add, coeff_one, mul_coeff_zero, mul_coeff_one, coeff_mul_two,
    coeff_derivative_zero, coeff_derivative_one six, coeff_derivative_two six, coeff_series_zero,
    coeff_series_one, coeff_series_two_eq]
  have hsecond : 0 + (c.value * c.first + c.first * c.value) = 2 * c.value * c.first := by ring
  have hthird : 0 + (c.value * (c.second / 2) + c.first * c.first + c.second / 2 * c.value) =
      2 * (c.value * c.second + c.first ^ 2) / 2 := by
    field_simp
    ring
  simp only [if_true, one_ne_zero, two_ne_zero, if_false, hsecond, hthird, div_left_inj' htwo,
    pow_two]

/-- The equation of the inverses of sine and cosine at `x`. -/
theorem dvd_derivative_sq_mul_sub_one_iff (x : K) :
    X ^ 3 ∣ derivative c.series ^ 2 * (1 - (X + C x) ^ 2) - 1 ↔
      c.first ^ 2 * (1 - x ^ 2) = 1 ∧ c.first * c.second * (1 - x ^ 2) = c.first ^ 2 * x ∧
        (c.second ^ 2 + c.first * c.third) * (1 - x ^ 2) =
          4 * c.first * c.second * x + c.first ^ 2 := by
  obtain ⟨htwo, -⟩ := two_and_three_ne_zero six
  have hdistance : (1 - (X + C x) ^ 2 : K[X]) = C (1 - x ^ 2) - C (2 * x) * X - X ^ 2 := by
    simp only [C_sub, C_pow, C_mul, C_1, C_ofNat]
    ring
  have hsquare : c.first * c.second + c.second * c.first = 2 * (c.first * c.second) := by ring
  have hcross : c.first * (c.third / 2) + c.second * c.second + c.third / 2 * c.first =
      c.second ^ 2 + c.first * c.third := by
    field_simp
    ring
  rw [X_cubed_dvd_sub_iff, pow_two (derivative _), hdistance]
  simp only [coeff_one, mul_coeff_zero, mul_coeff_one, coeff_mul_two, coeff_sub, coeff_C,
    coeff_X_pow, coeff_X, coeff_derivative_zero, coeff_derivative_one six,
    coeff_derivative_two six, hsquare, hcross]
  norm_num
  refine and_congr (by rw [pow_two c.first])
    (and_congr ⟨fun h => ?_, fun h => ?_⟩ ⟨fun h => ?_, fun h => ?_⟩)
  · exact mul_left_cancel₀ htwo (by linear_combination h)
  · linear_combination 2 * h
  · linear_combination h
  · linear_combination h

/-- The equation of the logarithm to a base whose natural logarithm is `b`, at `x`. -/
theorem dvd_derivative_mul_sub_one_iff (b x : K) :
    X ^ 3 ∣ derivative c.series * C b * (X + C x) - 1 ↔
      c.first * b * x = 1 ∧ c.second * b * x = -(c.first * b) ∧
        c.third * b * x = -(2 * c.second * b) := by
  obtain ⟨htwo, -⟩ := two_and_three_ne_zero six
  have hthird : c.third = 2 * (c.third / 2) := by field_simp
  rw [X_cubed_dvd_sub_iff]
  simp only [coeff_one, mul_coeff_zero, mul_coeff_one, coeff_mul_two, coeff_add, coeff_C, coeff_X,
    coeff_derivative_zero, coeff_derivative_one six, coeff_derivative_two six]
  norm_num
  refine fun _ => and_congr ⟨fun h => ?_, fun h => ?_⟩ ⟨fun h => ?_, fun h => ?_⟩
  · linear_combination h
  · linear_combination h
  · linear_combination 2 * h + b * x * hthird
  · exact mul_left_cancel₀ htwo (by linear_combination h - b * x * hthird)

/-- The equation of an exponential function. -/
theorem dvd_derivative_sub_iff (b : K) :
    X ^ 3 ∣ derivative c.series - C b * c.series ↔
      c.first = b * c.value ∧ c.second = b * c.first ∧ c.third = b * c.second := by
  obtain ⟨htwo, -⟩ := two_and_three_ne_zero six
  rw [X_cubed_dvd_sub_iff]
  simp only [coeff_C_mul, coeff_derivative_zero, coeff_derivative_one six, coeff_derivative_two six,
    coeff_series_zero, coeff_series_one, coeff_series_two_eq, ← mul_div_assoc, div_left_inj' htwo]

/-- The equation of the sine and of the cosine. -/
theorem dvd_derivative_derivative_add_iff :
    X ^ 2 ∣ derivative (derivative c.series) + c.series ↔
      c.second = -c.value ∧ c.third = -c.first := by
  obtain ⟨htwo, -⟩ := two_and_three_ne_zero six
  rw [X_pow_dvd_iff]
  have hzero : (derivative (derivative c.series)).coeff 0 = c.second := by
    rw [coeff_derivative, coeff_derivative_one six]
    simp
  have hone : (derivative (derivative c.series)).coeff 1 = c.third := by
    rw [coeff_derivative, coeff_derivative_two six]
    push_cast
    field_simp
    norm_num
  simp only [coeff_add]
  constructor
  · refine fun h => ⟨eq_neg_of_add_eq_zero_left ?_, eq_neg_of_add_eq_zero_left ?_⟩
    · rw [← hzero, ← coeff_series_zero c]
      exact h 0 (by omega)
    · rw [← hone, ← coeff_series_one c]
      exact h 1 (by omega)
  · rintro ⟨hsecond, hthird⟩ i hi
    interval_cases i
    · rw [hzero, coeff_series_zero, hsecond, neg_add_cancel]
    · rw [hone, coeff_series_one, hthird, neg_add_cancel]

end Jet

namespace ElementaryFunction

variable [Primitives K] (six : (6 : K) ≠ 0) (x : K)

include six

/-- The tangent solves `y' = 1 + y²`. All that the formulas for the derivatives use of the given
value is what the equation says. -/
theorem jet_tan_solves :
    X ^ 3 ∣ derivative (tan.jet x).series - (1 + (tan.jet x).series ^ 2) := by
  rw [Jet.dvd_derivative_sub_one_add_sq_iff six]
  simp only [jet, Scalar.int_two]
  refine ⟨?_, trivial, ?_⟩ <;> ring

/-- The derivatives of the arc sine, and so their negatives, solve the equation. -/
theorem arcJet_solves {x s : K} (hs : s ^ 2 = 1 - x ^ 2) (hne : s ≠ 0)
    (hsqrt : Scalar.sqrt (1 - x * x) = s) (v : K) {sign : K} (hsign : sign ^ 2 = 1) :
    let arc := arcJet v x
    X ^ 3 ∣ derivative
      (Jet.series ⟨v, sign * arc.first, sign * arc.second, sign * arc.third⟩) ^ 2 *
        (1 - (X + C x) ^ 2) - 1 := by
  intro arc
  have hr : (1 : K) - x * x = s ^ 2 := by rw [hs, pow_two]
  rw [hr] at hsqrt
  rw [Jet.dvd_derivative_sq_mul_sub_one_iff six, ← hs]
  simp only [arc, arcJet, hr, hsqrt, Scalar.int_two]
  refine ⟨?_, ?_, ?_⟩
  · field_simp
    exact hsign
  · field_simp
  · field_simp
    rw [hs]
    ring

/-- The logarithms solve `b * (x + h) * y' = 1`. -/
theorem logJet_solves {x b : K} (hx : x ≠ 0) (hb : b ≠ 0) (v : K) :
    X ^ 3 ∣ derivative (logJet v x b).series * C b * (X + C x) - 1 := by
  rw [Jet.dvd_derivative_mul_sub_one_iff six]
  simp only [logJet, Scalar.int_two]
  refine ⟨?_, ?_, ?_⟩ <;> field_simp

/-- The exponential function solves `y' = y`. -/
theorem jet_exp_solves : X ^ 3 ∣ derivative (exp.jet x).series - C 1 * (exp.jet x).series := by
  rw [Jet.dvd_derivative_sub_iff six]
  simp [jet]

/-- The powers of two solve `y' = ln 2 * y`. -/
theorem jet_exp2_solves :
    X ^ 3 ∣ derivative (exp2.jet x).series - C Scalar.ln2 * (exp2.jet x).series := by
  rw [Jet.dvd_derivative_sub_iff six]
  simp only [jet]
  refine ⟨trivial, ?_, ?_⟩ <;> ring

/-- The sine solves `y'' = -y`. -/
theorem jet_sin_solves :
    X ^ 2 ∣ derivative (derivative (sin.jet x).series) + (sin.jet x).series := by
  rw [Jet.dvd_derivative_derivative_add_iff six]
  exact ⟨rfl, rfl⟩

theorem jet_cos_solves :
    X ^ 2 ∣ derivative (derivative (cos.jet x).series) + (cos.jet x).series := by
  rw [Jet.dvd_derivative_derivative_add_iff six]
  exact ⟨rfl, (neg_neg _).symm⟩

omit six in
/-- The logarithms accept no zero, if a number is at most itself. -/
theorem ne_zero_of_logarithm {f : ElementaryFunction} (hf : f = ln ∨ f = log10 ∨ f = log2)
    (hle : Scalar.le (0 : K) 0 = true) {x : K} (haccepted : f.domainLeft? x = none) : x ≠ 0 := by
  rintro rfl
  obtain rfl | rfl | rfl := hf <;> simp [domainLeft?, hle] at haccepted

end ElementaryFunction

/-- The elementary functions solve their differential equations as far as the numbers kept can
tell. Over a field in which `6` is not zero, let `T` be the polynomial of third order that has the
numbers kept at an accepted argument `x` as value and derivatives. Then `T' = 1 + T ^ 2` for the
tangent, `T' ^ 2 * (1 - (x + h) ^ 2) = 1` for the arcs, where the primitive square root of
`1 - x * x` is one, `T' * b * (x + h) = 1` for the logarithms and `T' = b * T` for the exponential
functions of the base whose natural logarithm is `b`, all up to terms of third order in `h`, and
`T'' = -T` up to terms of second order for the sine and the cosine. The polynomials are the
solutions that start where the functions do: they have the value of the primitive function at `x`,
and that of the sine has the primitive cosine as its first derivative. -/
theorem Elementary.functions_solve_differential_equations [Primitives K] (six : (6 : K) ≠ 0)
    (hle : Scalar.le (0 : K) 0 = true) (hln10 : (Scalar.ln10 : K) ≠ 0)
    (hln2 : (Scalar.ln2 : K) ≠ 0) :
    (∀ {x : K} {e : Elementary K}, Elementary.at? .tan x = .ok e →
      X ^ 3 ∣ derivative e.jet.series - (1 + e.jet.series ^ 2)) ∧
    (∀ {x s : K} {f : ElementaryFunction} {e : Elementary K}, s ^ 2 = 1 - x ^ 2 → s ≠ 0 →
      Scalar.sqrt (1 - x * x) = s → f = .asin ∨ f = .acos → Elementary.at? f x = .ok e →
      X ^ 3 ∣ derivative e.jet.series ^ 2 * (1 - (X + C x) ^ 2) - 1) ∧
    (∀ {x : K} {e : Elementary K}, Elementary.at? .acos x = .ok e →
      ∃ e' : Elementary K, Elementary.at? .asin x = .ok e' ∧ e.jet.first = -e'.jet.first ∧
        e.jet.second = -e'.jet.second ∧ e.jet.third = -e'.jet.third) ∧
    (∀ {x b : K} {f : ElementaryFunction} {e : Elementary K},
      (f, b) ∈ [(.ln, 1), (.log10, Scalar.ln10), (.log2, Scalar.ln2)] →
      Elementary.at? f x = .ok e → X ^ 3 ∣ derivative e.jet.series * C b * (X + C x) - 1) ∧
    (∀ {x b : K} {f : ElementaryFunction} {e : Elementary K},
      (f, b) ∈ [(.exp, 1), (.exp2, Scalar.ln2)] →
      Elementary.at? f x = .ok e → X ^ 3 ∣ derivative e.jet.series - C b * e.jet.series) ∧
    (∀ {x : K} {f : ElementaryFunction} {e : Elementary K}, f = .sin ∨ f = .cos →
      Elementary.at? f x = .ok e →
      X ^ 2 ∣ derivative (derivative e.jet.series) + e.jet.series) ∧
    (∀ {x : K} {e : Elementary K}, Elementary.at? .cos x = .ok e →
      ∃ e' : Elementary K, Elementary.at? .sin x = .ok e' ∧ e.jet.value = e'.jet.first ∧
        e.jet.first = e'.jet.second ∧ e.jet.second = e'.jet.third) ∧
    (∀ {x v : K} {f : ElementaryFunction} {e : Elementary K},
      (f, v) ∈ [(.sin, Scalar.sin x), (.cos, Scalar.cos x), (.tan, Scalar.tan x),
        (.asin, Scalar.asin x), (.acos, Scalar.acos x), (.exp, Scalar.exp x),
        (.exp2, Scalar.exp2 x), (.ln, Scalar.ln x), (.log10, Scalar.log10 x),
        (.log2, Scalar.log2 x)] →
      Elementary.at? f x = .ok e → e.jet.value = v) ∧
    ∀ {x : K} {e : Elementary K}, Elementary.at? .sin x = .ok e → e.jet.first = Scalar.cos x := by
  refine ⟨?tangent, ?arcs, ?arcCosine, ?logarithms, ?exponentials, ?waves, ?cosine, ?values,
    ?sine⟩
  case tangent =>
    intro x e h
    obtain ⟨-, -, rfl⟩ := at?_eq_ok_iff.1 h
    exact ElementaryFunction.jet_tan_solves six x
  case arcs =>
    intro x s f e hs hne hsqrt hf h
    obtain ⟨-, -, rfl⟩ := at?_eq_ok_iff.1 h
    obtain rfl | rfl := hf
    · have hsolves := ElementaryFunction.arcJet_solves six hs hne hsqrt (Scalar.asin x) (one_pow 2)
      simp only [one_mul] at hsolves
      exact hsolves
    · have hsolves := ElementaryFunction.arcJet_solves six hs hne hsqrt (Scalar.acos x) neg_one_sq
      simp only [neg_one_mul] at hsolves
      exact hsolves
  case arcCosine =>
    intro x e h
    obtain ⟨hfinite, haccepted, rfl⟩ := at?_eq_ok_iff.1 h
    exact ⟨_, at?_eq_ok_iff.2 ⟨hfinite, haccepted, rfl⟩, rfl, rfl, rfl⟩
  case logarithms =>
    intro x b f e hb h
    obtain ⟨-, haccepted, rfl⟩ := at?_eq_ok_iff.1 h
    simp only [List.mem_cons, Prod.mk.injEq, List.not_mem_nil, or_false] at hb
    have hf := hb.imp And.left (Or.imp And.left And.left)
    have hx := ElementaryFunction.ne_zero_of_logarithm hf hle haccepted
    obtain ⟨rfl, rfl⟩ | ⟨rfl, rfl⟩ | ⟨rfl, rfl⟩ := hb
    · exact ElementaryFunction.logJet_solves six hx one_ne_zero _
    · exact ElementaryFunction.logJet_solves six hx hln10 _
    · exact ElementaryFunction.logJet_solves six hx hln2 _
  case exponentials =>
    intro x b f e hb h
    obtain ⟨-, -, rfl⟩ := at?_eq_ok_iff.1 h
    simp only [List.mem_cons, Prod.mk.injEq, List.not_mem_nil, or_false] at hb
    obtain ⟨rfl, rfl⟩ | ⟨rfl, rfl⟩ := hb
    · exact ElementaryFunction.jet_exp_solves six x
    · exact ElementaryFunction.jet_exp2_solves six x
  case waves =>
    intro x f e hf h
    obtain ⟨-, -, rfl⟩ := at?_eq_ok_iff.1 h
    obtain rfl | rfl := hf
    · exact ElementaryFunction.jet_sin_solves six x
    · exact ElementaryFunction.jet_cos_solves six x
  case cosine =>
    intro x e h
    obtain ⟨hfinite, haccepted, rfl⟩ := at?_eq_ok_iff.1 h
    exact ⟨_, at?_eq_ok_iff.2 ⟨hfinite, haccepted, rfl⟩, rfl, rfl, rfl⟩
  case values =>
    intro x v f e hv h
    obtain ⟨-, -, rfl⟩ := at?_eq_ok_iff.1 h
    simp only [List.mem_cons, Prod.mk.injEq, List.not_mem_nil, or_false] at hv
    obtain ⟨rfl, rfl⟩ | ⟨rfl, rfl⟩ | ⟨rfl, rfl⟩ | ⟨rfl, rfl⟩ | ⟨rfl, rfl⟩ | ⟨rfl, rfl⟩ |
      ⟨rfl, rfl⟩ | ⟨rfl, rfl⟩ | ⟨rfl, rfl⟩ | ⟨rfl, rfl⟩ := hv <;> rfl
  case sine =>
    intro x e h
    obtain ⟨-, -, rfl⟩ := at?_eq_ok_iff.1 h
    rfl

/-- Real functions: the tangent at zero, the arcs at `3 / 5`, where the root is `4 / 5`, and the
others at two. -/
theorem Elementary.functions_solve_differential_equations_real :
    ((6 : ℝ) ≠ 0 ∧ Scalar.le (0 : ℝ) 0 = true ∧ (Scalar.ln10 : ℝ) ≠ 0 ∧ (Scalar.ln2 : ℝ) ≠ 0) ∧
    (∃ e : Elementary ℝ, Elementary.at? .tan 0 = .ok e ∧
      X ^ 3 ∣ derivative e.jet.series - (1 + e.jet.series ^ 2)) ∧
    ((4 / 5 : ℝ) ^ 2 = 1 - (3 / 5) ^ 2 ∧ (4 / 5 : ℝ) ≠ 0 ∧
      Scalar.sqrt (1 - 3 / 5 * (3 / 5) : ℝ) = 4 / 5 ∧
      ∀ f : ElementaryFunction, f = .asin ∨ f = .acos →
        ∃ e : Elementary ℝ, Elementary.at? f (3 / 5) = .ok e ∧
          X ^ 3 ∣ derivative e.jet.series ^ 2 * (1 - (X + C (3 / 5)) ^ 2) - 1) ∧
    (∃ e : Elementary ℝ, Elementary.at? .acos (3 / 5) = .ok e ∧
      ∃ e' : Elementary ℝ, Elementary.at? .asin (3 / 5) = .ok e' ∧
        e.jet.first = -e'.jet.first ∧ e.jet.second = -e'.jet.second ∧
        e.jet.third = -e'.jet.third) ∧
    (∃ e : Elementary ℝ, Elementary.at? .log10 2 = .ok e ∧
      X ^ 3 ∣ derivative e.jet.series * C (Scalar.ln10) * (X + C 2) - 1) ∧
    (∃ e : Elementary ℝ, Elementary.at? .exp2 2 = .ok e ∧
      X ^ 3 ∣ derivative e.jet.series - C (Scalar.ln2) * e.jet.series) ∧
    (∃ e : Elementary ℝ, Elementary.at? .sin 2 = .ok e ∧
      X ^ 2 ∣ derivative (derivative e.jet.series) + e.jet.series) ∧
    (∃ e : Elementary ℝ, Elementary.at? .cos 2 = .ok e ∧
      ∃ e' : Elementary ℝ, Elementary.at? .sin 2 = .ok e' ∧ e.jet.value = e'.jet.first ∧
        e.jet.first = e'.jet.second ∧ e.jet.second = e'.jet.third) ∧
    ∃ e : Elementary ℝ, Elementary.at? .sin 2 = .ok e ∧ e.jet.value = Real.sin 2 ∧
      e.jet.first = Real.cos 2 := by
  have six : (6 : ℝ) ≠ 0 := by norm_num
  have hle : Scalar.le (0 : ℝ) 0 = true := decide_eq_true le_rfl
  have hlog {n : ℕ} (hn : 1 < n) : Real.log n ≠ 0 := (Real.log_pos (Nat.one_lt_cast.2 hn)).ne'
  have hln10 : (Scalar.ln10 : ℝ) ≠ 0 := hlog (by decide)
  have hln2 : (Scalar.ln2 : ℝ) ≠ 0 := hlog (by decide)
  have hroot : (4 / 5 : ℝ) ^ 2 = 1 - (3 / 5) ^ 2 := by norm_num
  have hne : (4 / 5 : ℝ) ≠ 0 := by norm_num
  have hsqrt : Scalar.sqrt (1 - 3 / 5 * (3 / 5) : ℝ) = 4 / 5 := by
    change √(1 - 3 / 5 * (3 / 5) : ℝ) = 4 / 5
    rw [Real.sqrt_eq_iff_mul_self_eq] <;> norm_num
  have accepts {f : ElementaryFunction} {x : ℝ} (h : f.domainLeft? x = none) :
      Elementary.at? f x = .ok ⟨f, x, f.jet x⟩ :=
    Elementary.at?_eq_ok_iff.2 ⟨rfl, h, rfl⟩
  have htan : ElementaryFunction.tan.domainLeft? (0 : ℝ) = none := by
    have hpole : ¬Scalar.lt (Scalar.abs (Scalar.cos (0 : ℝ))) Scalar.epsilon = true := by
      rw [Scalar.ExactOrder.lt_iff]
      change ¬|Real.cos 0| < ((2 : ℕ) : ℝ)⁻¹ ^ 52
      rw [Real.cos_zero, abs_one, not_lt]
      norm_num
    exact if_neg hpole
  have harc : ¬Scalar.le 1 (Scalar.abs (3 / 5 : ℝ)) = true := by
    change ¬decide (1 ≤ |(3 / 5 : ℝ)|) = true
    rw [decide_eq_true_iff, abs_of_pos (by norm_num)]
    norm_num
  have htwo : ¬Scalar.le (2 : ℝ) 0 = true := by
    change ¬decide ((2 : ℝ) ≤ 0) = true
    norm_num
  obtain ⟨tangent, arcs, arcCosine, logarithms, exponentials, waves, cosine, values, sine⟩ :=
    functions_solve_differential_equations six hle hln10 hln2
  refine ⟨⟨six, hle, hln10, hln2⟩, ⟨_, accepts htan, tangent (accepts htan)⟩,
    ⟨hroot, hne, hsqrt, ?_⟩, ?_, ?_, ?_, ?_, ?_, ?_⟩
  · intro f hf
    have hdomain : f.domainLeft? (3 / 5 : ℝ) = none := by
      obtain rfl | rfl := hf <;> exact if_neg harc
    exact ⟨_, accepts hdomain, arcs hroot hne hsqrt hf (accepts hdomain)⟩
  · exact ⟨_, accepts (if_neg harc), arcCosine (accepts (if_neg harc))⟩
  · exact ⟨_, accepts (if_neg htwo), logarithms (by simp) (accepts (if_neg htwo))⟩
  · exact ⟨_, accepts rfl, exponentials (by simp) (accepts rfl)⟩
  · exact ⟨_, accepts rfl, waves (.inl rfl) (accepts rfl)⟩
  · exact ⟨_, accepts rfl, cosine (accepts rfl)⟩
  · exact ⟨_, accepts rfl, values (f := .sin) List.mem_cons_self (accepts rfl), sine (accepts rfl)⟩

end Directional
