import Mathlib.Algebra.Order.BigOperators.Ring.Finset
import Directional.Proofs.Exact.Power
import Directional.Proofs.Leaf.Domain
import Directional.Proofs.Rounded.Binary64

namespace Directional

open Scalar

namespace Scalar

/-- What is not moved across the ends of a gap around zero keeps its sign, and stays outside of the
gap. -/
theorem sign_eq_and_lower {x r δ : ℚ} (hδ : 0 < δ) (hzero : x = 0 → r = 0)
    (hpos : δ ≤ x → δ ≤ r) (hneg : x ≤ -δ → r ≤ -δ) (hgap : x ≠ 0 → δ ≤ |x|) :
    SignType.sign r = SignType.sign x ∧ (x ≠ 0 → δ ≤ |r|) := by
  obtain hlt | rfl | hgt := lt_trichotomy x 0
  · have habs : δ ≤ -x := by
      rw [← abs_of_neg hlt]
      exact hgap hlt.ne
    have hr : r ≤ -δ := hneg (by linarith)
    have hrneg : r < 0 := by linarith
    refine ⟨by rw [sign_neg hrneg, sign_neg hlt], fun _ => ?_⟩
    rw [abs_of_neg hrneg]
    linarith
  · exact ⟨by rw [hzero rfl], fun hne => absurd rfl hne⟩
  · have habs : δ ≤ x := by
      rw [← abs_of_pos hgt]
      exact hgap hgt.ne'
    have hr : δ ≤ r := hpos habs
    have hrpos : 0 < r := by linarith
    refine ⟨by rw [sign_pos hrpos, sign_pos hgt], fun _ => ?_⟩
    rwa [abs_of_pos hrpos]

/-- Rounding keeps the sign, and a distance from zero that is a power of two. -/
theorem Rounds.sign_eq_and_lower {x r : ℚ} (h : Rounds x r) {e : ℤ} (he : |e| ≤ 200)
    (hgap : x ≠ 0 → (2 : ℚ) ^ e ≤ |x|) :
    SignType.sign r = SignType.sign x ∧ (x ≠ 0 → (2 : ℚ) ^ e ≤ |r|) := by
  refine Scalar.sign_eq_and_lower (by positivity) h.eq_zero (h.two_zpow_le he) ?_ hgap
  intro hx
  have hneg := h.neg.two_zpow_le he (le_neg.1 hx)
  exact le_neg.1 hneg

/-- The number `r` has the sign of `x`, and unless that is zero, its magnitude is neither small nor
large. -/
structure Resembles (n : ℕ) (x r : ℚ) : Prop where
  sign_eq : SignType.sign r = SignType.sign x
  lower : x ≠ 0 → (2 : ℚ) ^ (-31 * n : ℤ) ≤ |r|
  upper : |r| ≤ (2 : ℚ) ^ (32 * n : ℤ)

namespace Resembles

variable {n : ℕ} {x r : ℚ}

/-- Rounding keeps zero, and takes nothing else to it. -/
theorem eq_zero_iff (h : Resembles n x r) : r = 0 ↔ x = 0 := by
  rw [← sign_eq_zero_iff, h.sign_eq, sign_eq_zero_iff]

/-- Rounding keeps the sign of a negative number. -/
theorem neg_iff (h : Resembles n x r) : r < 0 ↔ x < 0 := by
  rw [← sign_eq_neg_one_iff, h.sign_eq, sign_eq_neg_one_iff]

theorem one : Resembles 0 1 1 :=
  ⟨rfl, fun _ => by norm_num, by norm_num⟩

/-- Products of rounded numbers of these sizes do not overflow. -/
theorem abs_mul_le {y s : ℚ} (hx : Resembles n x r) (hy : Resembles 1 y s) :
    |r * s| ≤ (2 : ℚ) ^ (32 * (n + 1 : ℕ) : ℤ) := by
  have hsplit : (32 * (n + 1 : ℕ) : ℤ) = 32 * n + 32 * (1 : ℕ) := by push_cast; ring
  rw [hsplit, zpow_add₀ two_ne_zero, abs_mul]
  exact mul_le_mul hx.upper hy.upper (abs_nonneg s) (by positivity)

/-- A rounded product of two numbers resembles the product of what they resemble. -/
theorem mul {y s t : ℚ} (hx : Resembles n x r) (hy : Resembles 1 y s) (hn : n < 4)
    (ht : Rounds (r * s) t) : Resembles (n + 1) (x * y) t := by
  have hsplit : (-31 * (n + 1 : ℕ) : ℤ) = -31 * n + -31 * (1 : ℕ) := by push_cast; ring
  have hzero : r * s ≠ 0 ↔ x * y ≠ 0 := by
    rw [mul_ne_zero_iff, mul_ne_zero_iff, Ne, hx.eq_zero_iff, Ne, hy.eq_zero_iff]
  have hgap : r * s ≠ 0 → (2 : ℚ) ^ (-31 * (n + 1 : ℕ) : ℤ) ≤ |r * s| := by
    intro hne
    obtain ⟨hxne, hyne⟩ := mul_ne_zero_iff.1 (hzero.1 hne)
    rw [hsplit, zpow_add₀ two_ne_zero, abs_mul]
    exact mul_le_mul (hx.lower hxne) (hy.lower hyne) (by positivity) (abs_nonneg r)
  obtain ⟨hsign, hlower⟩ := ht.sign_eq_and_lower (by rw [abs_le]; omega) hgap
  refine ⟨?_, fun hne => hlower (hzero.2 hne), ?_⟩
  · rw [hsign, sign_mul, sign_mul, hx.sign_eq, hy.sign_eq]
  · exact ht.abs_le_two_zpow (by rw [abs_le]; omega) (hx.abs_mul_le hy)

end Resembles

end Scalar

namespace ElementaryFunction

variable {K : Type} [Scalar K] {k l : Int32}

/-- A pole is a negative exponent whose factor does not vanish. -/
theorem hasPole_iff_exists : hasPole K k l = true ↔
    ∃ j < 4, ¬powerVanishes K k l j = true ∧ Scalar.lt (loweredExponent k l j : K) 0 = true := by
  simp only [hasPole, List.any_eq_true, List.mem_range, Bool.and_eq_true, Bool.not_eq_true',
    Bool.not_eq_true]

/-- The exponent of a power as a rational number. -/
def quotient (k l : Int32) : ℚ :=
  k.toInt / l.toInt

theorem abs_toInt_le (n : Int32) : |n.toInt| ≤ 2 ^ 31 := by
  have hlower := n.le_toInt
  have hupper := n.toInt_lt
  rw [abs_le]
  omega

theorem abs_quotient_le (hl : 0 < l.toInt) : |quotient k l| ≤ 2 ^ 31 := by
  have hone : (1 : ℚ) ≤ l.toInt := by exact_mod_cast hl
  have hword : |(k.toInt : ℚ)| ≤ 2 ^ 31 := by exact_mod_cast abs_toInt_le k
  have hpos : (0 : ℚ) < l.toInt := by linarith
  rw [quotient, abs_div, abs_of_pos hpos]
  exact (div_le_self (abs_nonneg _) hone).trans hword

/-- A quotient of words is a whole number, or at some distance from it. -/
theorem le_abs_quotient_sub (hl : 0 < l.toInt) {j : ℤ} (h : quotient k l - j ≠ 0) :
    (2 : ℚ) ^ (-31 : ℤ) ≤ |quotient k l - j| := by
  have hpos : (0 : ℚ) < l.toInt := by exact_mod_cast hl
  have hword : (l.toInt : ℚ) ≤ 2 ^ 31 := by exact_mod_cast (le_abs_self _).trans (abs_toInt_le l)
  have hcommon : quotient k l - j = (k.toInt - j * l.toInt : ℤ) / l.toInt := by
    rw [quotient, div_sub' hpos.ne']
    push_cast
    ring
  rw [hcommon] at h ⊢
  have hne : k.toInt - j * l.toInt ≠ 0 := by
    rintro hzero
    rw [hzero, Int.cast_zero, zero_div] at h
    exact h rfl
  have hone : (1 : ℚ) ≤ |((k.toInt - j * l.toInt : ℤ) : ℚ)| := by exact_mod_cast Int.one_le_abs hne
  rw [abs_div, abs_of_pos hpos, le_div_iff₀ hpos]
  calc (2 : ℚ) ^ (-31 : ℤ) * l.toInt ≤ 2 ^ (-31 : ℤ) * 2 ^ 31 := by gcongr
    _ = 1 := by norm_num
    _ ≤ _ := hone

variable [Valued K] [Rounded K]

/-- The computed exponent is the rounded quotient. -/
theorem exponent_approximates (hl : 0 < l.toInt) :
    Approximates (exponent k l : K) (quotient k l) := by
  have hk : Denotes (int k.toInt : K) k.toInt := Rounded.int (abs_toInt_le k)
  have hword : Denotes (int l.toInt : K) l.toInt := Rounded.int (abs_toInt_le l)
  have hne : value (int l.toInt : K) ≠ 0 := by
    rw [hword.value_eq]
    exact_mod_cast hl.ne'
  have hquotient : value (int k.toInt : K) / value (int l.toInt : K) = quotient k l := by
    rw [hk.value_eq, hword.value_eq, quotient]
  have hbound : |quotient k l| ≤ 2 ^ 200 := (abs_quotient_le hl).trans (by norm_num)
  have hdiv := Rounded.div hk.isFinite hword.isFinite hne (by rwa [hquotient])
  rwa [hquotient] at hdiv

/-- Rounding does not move a quotient of words across a small whole number, or closer to it. -/
theorem sign_exponent_sub (hl : 0 < l.toInt) {j : ℤ} (hj : |j| ≤ 4) :
    SignType.sign (value (exponent k l : K) - j) = SignType.sign (quotient k l - j) ∧
      (quotient k l - j ≠ 0 → (2 : ℚ) ^ (-31 : ℤ) ≤ |value (exponent k l : K) - j|) := by
  have hrounds : Rounds (quotient k l) (value (exponent k l : K)) :=
    (exponent_approximates hl).rounds
  have hsmall := abs_le.1 hj
  have habove : (j : ℚ) + 2 ^ (-31 : ℤ) = (j * 2 ^ 31 + 1 : ℤ) * 2 ^ (-31 : ℤ) := by
    push_cast
    norm_num
    ring
  have hbelow : (j : ℚ) - 2 ^ (-31 : ℤ) = (j * 2 ^ 31 - 1 : ℤ) * 2 ^ (-31 : ℤ) := by
    push_cast
    norm_num
    ring
  refine sign_eq_and_lower (by positivity) ?_ ?_ ?_ (le_abs_quotient_sub hl)
  · intro hzero
    rw [hrounds.eq_intCast (sub_eq_zero.1 hzero) (by rw [abs_le]; omega), sub_self]
  · intro hle
    have hbarrier := (hrounds (j * 2 ^ 31 + 1) (-31) (by rw [abs_le]; omega) (by norm_num)).1
    rw [← habove] at hbarrier
    linarith [hbarrier (by linarith)]
  · intro hle
    have hbarrier := (hrounds (j * 2 ^ 31 - 1) (-31) (by rw [abs_le]; omega) (by norm_num)).2
    rw [← hbelow] at hbarrier
    linarith [hbarrier (by linarith)]

/-- A computed exponent has the sign of the exact one. -/
theorem loweredExponent_resembles (hl : 0 < l.toInt) {j : ℕ} (hj : j < 4) :
    isFinite (loweredExponent k l j : K) = true ∧
      Resembles 1 (quotient k l - j) (value (loweredExponent k l j : K)) := by
  have hexponent := exponent_approximates (K := K) (k := k) hl
  have hint : Denotes (int j : K) j := Rounded.int (by rw [abs_le]; omega)
  obtain ⟨hsign, hlower⟩ := sign_exponent_sub (K := K) (k := k) (j := j) hl (by rw [abs_le]; omega)
  rw [Int.cast_natCast] at hsign hlower
  have habs : |value (exponent k l : K) - j| ≤ 2 ^ (32 : ℤ) := by
    have hupper : |value (exponent k l : K)| ≤ 2 ^ (31 : ℤ) :=
      hexponent.rounds.abs_le_two_zpow (by norm_num) (abs_quotient_le hl)
    have hsmall : |(j : ℚ)| ≤ 4 := by
      rw [Nat.abs_cast]
      exact_mod_cast hj.le
    calc |value (exponent k l : K) - j| ≤ 2 ^ (31 : ℤ) + 4 := (abs_sub _ _).trans (by gcongr)
      _ ≤ 2 ^ (32 : ℤ) := by norm_num
  have hsub := Rounded.sub hexponent.isFinite hint.isFinite
    (by rw [hint.value_eq]; exact habs.trans (by norm_num))
  rw [hint.value_eq] at hsub
  have hne : value (exponent k l : K) - j ≠ 0 → quotient k l - j ≠ 0 := by
    rw [← sign_ne_zero, hsign, sign_ne_zero]
    exact id
  obtain ⟨hround, hround'⟩ := hsub.rounds.sign_eq_and_lower (e := -31) (by norm_num)
    (fun h => hlower (hne h))
  refine ⟨hsub.isFinite, hround.trans hsign, fun h => hround' ?_, ?_⟩
  · rwa [← sign_ne_zero, hsign, sign_ne_zero]
  · exact hsub.rounds.abs_le_two_zpow (by norm_num) habs

/-- The product of the exponents that `j` derivatives lower, as a rational number. -/
def fallingFactor (k l : Int32) (j : ℕ) : ℚ :=
  ∏ i ∈ Finset.range j, (quotient k l - i)

/-- A computed factor has the sign of the exact one; in particular it vanishes together with it. -/
theorem powerFactor_resembles (hl : 0 < l.toInt) {j : ℕ} (hj : j ≤ 4) :
    isFinite (powerFactor k l j : K) = true ∧
      Resembles j (fallingFactor k l j) (value (powerFactor k l j : K)) := by
  induction j with
  | zero =>
    have hone : Denotes (1 : K) 1 := Rounded.one
    rw [powerFactor, fallingFactor, Finset.prod_range_zero, hone.value_eq]
    exact ⟨hone.isFinite, .one⟩
  | succ j ih =>
    obtain ⟨hfactor, hresembles⟩ := ih (by omega)
    obtain ⟨hlowered, hresembles'⟩ := loweredExponent_resembles (K := K) (k := k) hl hj
    have hbound := (hresembles.abs_mul_le hresembles').trans
      (zpow_le_zpow_right₀ one_le_two (by omega : (32 * (j + 1 : ℕ) : ℤ) ≤ (200 : ℕ)))
    rw [zpow_natCast] at hbound
    have hmul := Rounded.mul hfactor hlowered hbound
    rw [powerFactor, fallingFactor, Finset.prod_range_succ]
    exact ⟨hmul.isFinite, hresembles.mul hresembles' hj hmul.rounds⟩

/-- A factor vanishes if one of the exponents that were lowered is zero. -/
theorem fallingFactor_eq_zero_iff {j : ℕ} :
    fallingFactor k l j = 0 ↔ ∃ i < j, quotient k l = i := by
  simp only [fallingFactor, Finset.prod_eq_zero_iff, Finset.mem_range, sub_eq_zero]

/-- Rounding does not change which factors vanish. -/
theorem powerVanishes_iff (hl : 0 < l.toInt) {j : ℕ} (hj : j < 4) :
    powerVanishes K k l j = true ↔ ∃ i < j, quotient k l = i := by
  obtain ⟨hfinite, hresembles⟩ := powerFactor_resembles (K := K) (k := k) hl hj.le
  rw [powerVanishes, Rounded.same_zero hfinite, hresembles.eq_zero_iff, fallingFactor_eq_zero_iff]

/-- Rounding does not change which exponents are negative. -/
theorem lt_loweredExponent_iff (hl : 0 < l.toInt) {j : ℕ} (hj : j < 4) :
    Scalar.lt (loweredExponent k l j : K) 0 = true ↔ quotient k l < j := by
  obtain ⟨hfinite, hresembles⟩ := loweredExponent_resembles (K := K) (k := k) hl hj
  rw [Rounded.lt_zero hfinite, hresembles.neg_iff, sub_neg]

/-- A power has a pole at zero unless its exponent is zero, one or two, or at least three: the
factors vanish behind a small whole exponent, and no exponent is lowered by more than three. -/
theorem hasPole_iff (hl : 0 < l.toInt) :
    hasPole K k l = true ↔
      ¬(quotient k l = 0 ∨ quotient k l = 1 ∨ quotient k l = 2 ∨ 3 ≤ quotient k l) := by
  rw [hasPole_iff_exists]
  constructor
  · rintro ⟨j, hj, hvanishes, hlt⟩ hgood
    rw [powerVanishes_iff hl hj] at hvanishes
    rw [lt_loweredExponent_iff hl hj] at hlt
    have hle : (j : ℚ) ≤ 3 := by exact_mod_cast Nat.le_of_lt_succ hj
    obtain hzero | hone | htwo | hthree := hgood
    · exact hvanishes ⟨0, by rw [hzero] at hlt; exact_mod_cast hlt, by exact_mod_cast hzero⟩
    · exact hvanishes ⟨1, by rw [hone] at hlt; exact_mod_cast hlt, by exact_mod_cast hone⟩
    · exact hvanishes ⟨2, by rw [htwo] at hlt; exact_mod_cast hlt, by exact_mod_cast htwo⟩
    · linarith
  · intro hbad
    push Not at hbad
    obtain ⟨hzero, hone, htwo, hthree⟩ := hbad
    refine ⟨3, by omega, ?_, (lt_loweredExponent_iff hl (by omega)).2 (by exact_mod_cast hthree)⟩
    rw [powerVanishes_iff hl (by omega)]
    rintro ⟨i, hi, hwhole⟩
    match i, hi with
    | 0, _ => exact hzero (by exact_mod_cast hwhole)
    | 1, _ => exact hone (by exact_mod_cast hwhole)
    | 2, _ => exact htwo (by exact_mod_cast hwhole)

/-- The arguments at which a power has a value and three derivatives. -/
def InPowerDomain (k l : Int32) (x : ℚ) : Prop :=
  (l = 1 ∨ 0 ≤ x) ∧
    (x ≠ 0 ∨ quotient k l = 0 ∨ quotient k l = 1 ∨ quotient k l = 2 ∨ 3 ≤ quotient k l)

/-- The check of an argument by its value and its sign. -/
theorem domainLeft?_pow {x : K} (hx : isFinite x = true) :
    (pow k l).domainLeft? x =
      if l ≠ 1 ∧ value x < 0 then some "[0, inf)"
      else if value x = 0 ∧ hasPole K k l = true then some "x != 0"
      else none := by
  rw [domainLeft?]
  simp only [Rounded.lt_zero hx, Bool.and_eq_true, Rounded.same_zero hx]

/-- A root rejects negative numbers. -/
theorem domainLeft?_pow_of_neg {x : K} (hx : isFinite x = true) (hroot : l ≠ 1)
    (hneg : value x < 0) : (pow k l).domainLeft? x = some "[0, inf)" := by
  rw [domainLeft?_pow hx, if_pos ⟨hroot, hneg⟩]

/-- A power that has a pole rejects zero. -/
theorem domainLeft?_pow_of_zero (hl : 0 < l.toInt) {x : K} (hx : Denotes x 0)
    (hout : ¬InPowerDomain k l 0) : (pow k l).domainLeft? x = some "x != 0" := by
  have hpole : hasPole K k l = true := by
    rw [hasPole_iff hl]
    exact fun hgood => hout ⟨.inr le_rfl, .inr hgood⟩
  rw [domainLeft?_pow hx.isFinite, if_neg, if_pos ⟨hx.value_eq, hpole⟩]
  rw [hx.value_eq]
  exact fun h => lt_irrefl 0 h.2

/-- The check passes inside of the domain and nowhere else. -/
theorem domainLeft?_pow_eq_none_iff (hl : 0 < l.toInt) {x : K} (hx : isFinite x = true) :
    (pow k l).domainLeft? x = none ↔ InPowerDomain k l (value x) := by
  have hnegative : l = 1 ∨ 0 ≤ value x ↔ ¬(l ≠ 1 ∧ value x < 0) := by
    rw [not_and_or, not_not, not_lt]
  have hzero : value x ≠ 0 ∨ quotient k l = 0 ∨ quotient k l = 1 ∨ quotient k l = 2 ∨
      3 ≤ quotient k l ↔ ¬(value x = 0 ∧ hasPole K k l = true) := by
    rw [hasPole_iff hl, not_and_or, not_not]
  rw [domainLeft?_pow hx, InPowerDomain, hnegative, hzero]
  split
  · simp_all
  · split <;> simp_all

/-- A derivative of a power is computed without a power of its argument that has a negative
exponent. -/
inductive TakesNoNegativePower (k l : Int32) (x : K) (j : ℕ) : Prop where
  | vanishing (hfactor : powerVanishes K k l j = true) (heq : powerDerivative k l x j = 0)
  | whole (n : ℕ) (hwhole : l = 1) (hexponent : (k - Int32.ofNat j).toInt = n)
    (heq : powerDerivative k l x j = powerFactor k l j * natPower x n)
  | root (hroot : l ≠ 1) (hexponent : 0 ≤ value (loweredExponent k l j : K))
    (heq : powerDerivative k l x j = powerFactor k l j * Scalar.pow x (loweredExponent k l j))

/-- Without a pole, only powers whose exponent is not negative are taken. -/
theorem takesNoNegativePower (hl : 0 < l.toInt) (hpole : ¬hasPole K k l = true) (x : K) {j : ℕ}
    (hj : j < 4) : TakesNoNegativePower k l x j := by
  by_cases hvanishes : powerVanishes K k l j = true
  · exact .vanishing hvanishes (by rw [powerDerivative, if_pos hvanishes])
  have hle : (j : ℚ) ≤ quotient k l := by
    by_contra hlt
    exact hpole (hasPole_iff_exists.2
      ⟨j, hj, hvanishes, (lt_loweredExponent_iff hl hj).2 (not_le.1 hlt)⟩)
  by_cases hone : l = 1
  · subst hone
    have hwhole : (j : ℤ) ≤ k.toInt := by
      have hquotient : quotient k 1 = k.toInt := by
        rw [quotient, show (1 : Int32).toInt = 1 from rfl, Int.cast_one, div_one]
      rw [hquotient] at hle
      exact_mod_cast hle
    obtain ⟨n, hn⟩ := Int.eq_ofNat_of_zero_le (sub_nonneg.2 hwhole)
    have hexponent : (k - Int32.ofNat j).toInt = n := by
      rw [toInt_sub_ofNat hj (by omega), hn]
    refine .whole n rfl hexponent ?_
    rw [powerDerivative, if_neg hvanishes, if_pos rfl, hexponent, intPower_natCast]
  · refine .root hone ?_ ?_
    · rw [← not_lt, ← Rounded.lt_zero (loweredExponent_resembles hl hj).1,
        lt_loweredExponent_iff hl hj, not_lt]
      exact hle
    · rw [powerDerivative, if_neg hvanishes, if_neg hone]

/-- What is computed without negative powers of zero is finite. -/
theorem TakesNoNegativePower.isFinite (hl : 0 < l.toInt) {x : K} (hx : Denotes x 0)
    (hpow : l ≠ 1 → ∀ y : K, isFinite y = true → 0 ≤ value y → IsBit (Scalar.pow x y)) {j : ℕ}
    (hj : j < 4) (h : TakesNoNegativePower k l x j) :
    Scalar.isFinite (powerDerivative k l x j) = true := by
  obtain ⟨hfactor, hresembles⟩ := powerFactor_resembles (K := K) (k := k) hl hj.le
  have hproduct {y : K} (hy : IsBit y) : Scalar.isFinite (powerFactor k l j * y) = true := by
    have hle : |value y| ≤ 1 := by
      obtain hzero | hone := hy
      · rw [hzero.value_eq, abs_zero]
        exact zero_le_one
      · rw [hone.value_eq, abs_one]
    have hbound : |value (powerFactor k l j : K) * value y| ≤ 2 ^ 200 := by
      rw [abs_mul]
      refine (mul_le_of_le_one_right (abs_nonneg _) hle).trans (hresembles.upper.trans ?_)
      rw [← zpow_natCast]
      exact zpow_le_zpow_right₀ one_le_two (by omega)
    exact (Rounded.mul hfactor (isFinite_of_isBit hy) hbound).isFinite
  cases h with
  | vanishing _ heq =>
    rw [heq]
    exact Rounded.zero.isFinite
  | whole n _ _ heq =>
    rw [heq]
    exact hproduct (isBit_natPower hx n)
  | root hroot hexponent heq =>
    rw [heq]
    exact hproduct (hpow hroot _ (loweredExponent_resembles hl hj).1 hexponent)

end ElementaryFunction

variable {K : Type} [Scalar K] {Γ : Nat → Shape} {k l : Int32}

/-- A power is evaluated at `x`: its leaf is built there, or moves there from where it is. -/
inductive PowerEvaluation (Γ : Nat → Shape) (k l : Int32) (x : K) :
    Except (DomainError K) (Builtin K Γ .scalar .scalar) → Prop where
  | built : PowerEvaluation Γ k l x (Seed.elementary (.pow k l) x).build
  | moved (e : Elementary K) (hfunction : e.function = .pow k l) :
    PowerEvaluation Γ k l x ((Builtin.elementary e).update x).toExcept

/-- A power that is built at an argument or moved there makes the same check. -/
theorem PowerEvaluation.eq {x : K} {r : Except (DomainError K) (Builtin K Γ .scalar .scalar)}
    (h : PowerEvaluation Γ k l x r) : r = .elementary <$> Elementary.at? (.pow k l) x := by
  cases h with
  | built => rfl
  | moved e hfunction =>
    rw [Builtin.update, Outcome.toExcept_map, Outcome.toExcept_ofExcept, hfunction]

variable [Valued K] [Rounded K]

open ElementaryFunction

/-- A power with the exponent `k / l` is evaluated at exactly the finite numbers of its domain, in
arithmetic that rounds, such as that of the floating-point numbers. Only a whole exponent takes
negative arguments. At zero, no negative power is taken, and the value and the derivatives are
finite; other exponents take powers that are not repeated products there, of which it is assumed
that they are zero or one unless their exponent is negative. -/
theorem power_domain_is_exact (hl : 0 < l.toInt) {x : K} (hx : isFinite x = true)
    (hpow : l ≠ 1 → ∀ y : K, isFinite y = true → value x = 0 → 0 ≤ value y → IsBit (Scalar.pow x y))
    {r : Except (DomainError K) (Builtin K Γ .scalar .scalar)} (hr : PowerEvaluation Γ k l x r) :
    ((∃ leaf, r = .ok leaf) ↔ InPowerDomain k l (value x)) ∧
      (l ≠ 1 → value x < 0 → r = .error (.outOfDomain "pow" "[0, inf)" x)) ∧
      (value x = 0 → ¬InPowerDomain k l 0 → r = .error (.outOfDomain "pow" "x != 0" x)) ∧
      (value x = 0 → ∀ leaf, r = .ok leaf → ∃ e : Elementary K, leaf = .elementary e ∧
        e.jet = ⟨powerDerivative k l x 0, powerDerivative k l x 1, powerDerivative k l x 2,
          powerDerivative k l x 3⟩ ∧
        (∀ j < 4, TakesNoNegativePower k l x j) ∧
        ∀ c ∈ [e.jet.value, e.jet.first, e.jet.second, e.jet.third], isFinite c = true) := by
  obtain rfl := hr.eq
  refine ⟨?_, ?_, ?_, ?_⟩
  · rw [← domainLeft?_pow_eq_none_iff hl hx]
    constructor
    · rintro ⟨leaf, hleaf⟩
      obtain ⟨e, he, -⟩ := map_eq_ok hleaf
      exact (Elementary.at?_eq_ok_iff.1 he).2.1
    · intro hin
      rw [Elementary.at?_eq_ok_iff.2 ⟨hx, hin, rfl⟩]
      exact ⟨_, rfl⟩
  · intro hroot hneg
    rw [Elementary.at?_eq_error hx (domainLeft?_pow_of_neg hx hroot hneg)]
    rfl
  · intro hzero hout
    rw [Elementary.at?_eq_error hx (domainLeft?_pow_of_zero hl ⟨hx, hzero⟩ hout)]
    rfl
  · intro hzero leaf hleaf
    obtain ⟨e, he, rfl⟩ := map_eq_ok hleaf
    obtain ⟨-, hin, rfl⟩ := Elementary.at?_eq_ok_iff.1 he
    -- Zero was accepted, so no derivative that is computed has a negative exponent.
    have hpole : ¬hasPole K k l = true := by
      intro hpole
      rw [domainLeft?_pow_eq_none_iff hl hx, hzero] at hin
      exact (hasPole_iff hl).1 hpole (hin.2.resolve_left (fun h => h rfl))
    have htakes : ∀ j < 4, TakesNoNegativePower k l x j :=
      fun j hj => takesNoNegativePower hl hpole x hj
    have hfinite : ∀ j < 4, isFinite (powerDerivative k l x j) = true :=
      fun j hj => (htakes j hj).isFinite hl ⟨hx, hzero⟩ (fun hroot y hy => hpow hroot y hy hzero) hj
    refine ⟨_, rfl, rfl, htakes, ?_⟩
    simp only [List.forall_mem_cons, List.not_mem_nil, false_implies, implies_true, and_true]
    exact ⟨hfinite 0 (by omega), hfinite 1 (by omega), hfinite 2 (by omega), hfinite 3 (by omega)⟩

/-- The cube of a floating-point number has a value and derivatives at zero, the third of which is a
power with the exponent zero. So has the zeroth power that is evaluated like a root. -/
theorem power_domain_is_exact_at_zero :
    (0 < (1 : Int32).toInt ∧ isFinite (0 : Float) = true ∧
      ∃ e : Elementary Float,
        (Seed.elementary (.pow 3 1) 0 : Seed Float (fun _ => .scalar) .scalar .scalar).build =
          .ok (.elementary e) ∧
        (∀ j < 4, TakesNoNegativePower 3 1 (0 : Float) j) ∧
        ∀ c ∈ [e.jet.value, e.jet.first, e.jet.second, e.jet.third], isFinite c = true) ∧
    (0 < (2 : Int32).toInt ∧ isFinite (0 : ℚ) = true ∧
      ((2 : Int32) ≠ 1 → ∀ y : ℚ, isFinite y = true → value (0 : ℚ) = 0 → 0 ≤ value y →
        IsBit (Scalar.pow 0 y)) ∧
      ∃ leaf, (Seed.elementary (.pow 0 2) 0 : Seed ℚ (fun _ => .scalar) .scalar .scalar).build =
        .ok leaf) := by
  have hpow : (2 : Int32) ≠ 1 → ∀ y : ℚ, isFinite y = true → value (0 : ℚ) = 0 → 0 ≤ value y →
      IsBit (Scalar.pow 0 y) := fun _ _ _ _ _ => .inr ⟨rfl, rfl⟩
  refine ⟨⟨by decide, Rounded.zero.isFinite, ?_⟩, by decide, rfl, hpow, ?_⟩
  · have hzero : Denotes (0 : Float) 0 := Rounded.zero
    obtain ⟨haccepted, -, -, hcached⟩ := power_domain_is_exact (Γ := fun _ => .scalar) (k := 3)
      (l := 1) (by decide) hzero.isFinite (fun h => absurd rfl h) .built
    have hdomain : InPowerDomain 3 1 (value (0 : Float)) := by
      rw [hzero.value_eq]
      exact ⟨.inl rfl, .inr (.inr (.inr (.inr (by decide +kernel))))⟩
    obtain ⟨leaf, hleaf⟩ := haccepted.2 hdomain
    obtain ⟨e, rfl, -, htakes, hfinite⟩ := hcached hzero.value_eq leaf hleaf
    exact ⟨e, hleaf, htakes, hfinite⟩
  · have haccepted := (power_domain_is_exact (Γ := fun _ => .scalar) (k := 0) (l := 2)
      (x := (0 : ℚ)) (by decide) rfl hpow .built).1
    exact haccepted.2 ⟨.inr le_rfl, .inr (.inl (by decide +kernel))⟩

end Directional
