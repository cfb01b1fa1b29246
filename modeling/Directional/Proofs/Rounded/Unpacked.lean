import Mathlib
import Directional.Proofs.Rounded.Basic

namespace Directional.Binary64

open Float.Model Float.Model.UnpackedFloat Scalar

/-- A number is rounded if it is replaced by one of the two points of a grid next to it, and by
itself if it is one. The grid is the finest one, or the points next to the number have 53 bits. -/
theorem rounds_of_grid {x : ℚ} {floor rounded : ℕ} {E : ℤ} (hlower : floor ≤ x)
    (hupper : x < floor + 1) (hrounded : rounded = floor ∨ rounded = floor + 1 ∧ x ≠ floor)
    (hgrid : E = -1074 ∨ 2 ^ 52 ≤ floor) : Rounds (x * 2 ^ E) (rounded * 2 ^ E) := by
  intro m e hm he
  have hscale : (m : ℚ) * 2 ^ e = m * 2 ^ (e - E) * 2 ^ E := by
    rw [mul_assoc, ← zpow_add₀ two_ne_zero, sub_add_cancel]
  have hpos : (0 : ℚ) < 2 ^ E := by positivity
  rw [hscale, mul_le_mul_iff_left₀ hpos, mul_le_mul_iff_left₀ hpos, mul_le_mul_iff_left₀ hpos,
    mul_le_mul_iff_left₀ hpos]
  have hfloor : (floor : ℚ) ≤ rounded := by
    obtain rfl | ⟨rfl, -⟩ := hrounded
    · exact le_rfl
    · push_cast
      linarith
  obtain hle | hlt := le_or_gt E e
  · -- The barrier is a point of the grid.
    obtain ⟨n, hn⟩ := Int.eq_ofNat_of_zero_le (sub_nonneg.2 hle)
    have hpoint : (m : ℚ) * 2 ^ (e - E) = (m * 2 ^ n : ℤ) := by
      rw [hn]
      push_cast
      rfl
    rw [hpoint]
    constructor
    · intro hbelow
      have hint : m * 2 ^ n < (floor : ℤ) + 1 := by exact_mod_cast hbelow.trans_lt hupper
      have hfloor' : ((m * 2 ^ n : ℤ) : ℚ) ≤ floor := by exact_mod_cast Int.lt_add_one_iff.1 hint
      exact hfloor'.trans hfloor
    · intro habove
      obtain rfl | ⟨rfl, hne⟩ := hrounded
      · exact hlower.trans habove
      · have hstrict : (floor : ℚ) < (m * 2 ^ n : ℤ) :=
          (lt_of_le_of_ne hlower (Ne.symm hne)).trans_le habove
        have hint : (floor : ℤ) < m * 2 ^ n := by exact_mod_cast hstrict
        exact_mod_cast Int.add_one_le_iff.2 hint
  · -- The barrier has too few bits for this grid, and is at most the first of its points.
    have hbits : 2 ^ 52 ≤ floor := by
      refine hgrid.resolve_left ?_
      have := abs_le.1 he
      omega
    have hbarrier : (m : ℚ) * 2 ^ (e - E) ≤ 2 ^ 52 := by
      have hmantissa : (m : ℚ) ≤ 2 ^ 53 := by exact_mod_cast (le_abs_self m).trans hm
      have hscale' : (2 : ℚ) ^ (e - E) ≤ 2 ^ (-1 : ℤ) := zpow_le_zpow_right₀ one_le_two (by omega)
      calc (m : ℚ) * 2 ^ (e - E) ≤ 2 ^ 53 * 2 ^ (-1 : ℤ) := by gcongr
        _ = 2 ^ 52 := by norm_num
    have hbits' : (2 : ℚ) ^ 52 ≤ floor := by exact_mod_cast hbits
    refine ⟨fun _ => by linarith, fun habove => ?_⟩
    have hexact : x = floor := by linarith
    obtain rfl | ⟨-, hne⟩ := hrounded
    · rwa [← hexact]
    · exact absurd hexact hne

/-- An extended mantissa is what is left of `x` in front of the point, and tells whether anything
was behind it. An operation computes as much of the exact mantissa as it needs in this form. -/
structure Truncates (em : ExtendedMantissa) (x : ℚ) : Prop where
  lower : em.mantissa ≤ x
  upper : x < em.mantissa + 1
  exact_iff : x = em.mantissa ↔ em.roundBit = false ∧ em.stickyBit = false

namespace Truncates

variable {em : ExtendedMantissa} {x : ℚ}

/-- A shift by one bit halves the number, and leaves behind the point what it drops. -/
theorem shiftRightOne (h : Truncates em x) : Truncates em.shiftRightOne (x / 2) := by
  obtain ⟨hlower, hupper, hexact⟩ := h
  have hsplit : (em.mantissa : ℚ) = (em.mantissa % 2 : ℕ) + 2 * (em.mantissa / 2 : ℕ) := by
    exact_mod_cast (Nat.mod_add_div em.mantissa 2).symm
  have hnonneg : (0 : ℚ) ≤ (em.mantissa % 2 : ℕ) := Nat.cast_nonneg _
  have hle : ((em.mantissa % 2 : ℕ) : ℚ) ≤ 1 := by
    exact_mod_cast Nat.lt_succ_iff.1 (Nat.mod_lt em.mantissa Nat.two_pos)
  rw [hsplit] at hlower hupper hexact
  refine ⟨?_, ?_, ?_⟩
  · change ((em.mantissa / 2 : ℕ) : ℚ) ≤ x / 2
    linarith
  · change x / 2 < ((em.mantissa / 2 : ℕ) : ℚ) + 1
    linarith
  · -- The bit that is shifted out takes the place of the round bit.
    change x / 2 = ((em.mantissa / 2 : ℕ) : ℚ) ↔
      (em.mantissa % 2 != 0) = false ∧ (em.roundBit || em.stickyBit) = false
    obtain heven | hodd := Nat.mod_two_eq_zero_or_one em.mantissa
    · rw [heven, Nat.cast_zero, zero_add] at hexact
      rw [div_eq_iff two_ne_zero, mul_comm, hexact, heven, Bool.or_eq_false_iff]
      exact (and_iff_right rfl).symm
    · rw [hodd, Nat.cast_one] at hlower
      rw [hodd]
      refine iff_of_false (fun heq => ?_) (fun hbits => Bool.noConfusion hbits.1)
      linarith

/-- A shift divides by a power of two. -/
theorem shiftRight (h : Truncates em x) (n : ℕ) : Truncates (em >>> n) (x / 2 ^ n) := by
  induction n with
  | zero =>
    rw [pow_zero, div_one]
    exact h
  | succ n ih =>
    rw [pow_succ, ← div_div]
    exact ih.shiftRightOne

/-- Rounding goes to one of the two mantissas next to the number. -/
theorem roundedMantissa (h : Truncates em x) :
    em.roundedMantissa = em.mantissa ∨ em.roundedMantissa = em.mantissa + 1 ∧ x ≠ em.mantissa := by
  obtain ⟨-, -, hexact⟩ := h
  obtain ⟨mantissa, _ | _, _ | _⟩ := em
  · exact .inl rfl
  · exact .inl rfl
  · obtain heven | hodd := Nat.mod_two_eq_zero_or_one mantissa
    · refine .inl ?_
      change mantissa + mantissa % 2 = mantissa
      rw [heven]
      rfl
    · refine .inr ⟨?_, ?_⟩
      · change mantissa + mantissa % 2 = mantissa + 1
        rw [hodd]
      · simpa using hexact
  · refine .inr ⟨rfl, ?_⟩
    simpa using hexact

/-- What is left after all but 53 bits of a mantissa have been shifted out has at most 53 bits. -/
theorem lt_two_pow {m n : ℕ} (h : Truncates em (x / 2 ^ n)) (hx : x < m + 1)
    (hlog : m.log2 ≤ 52 + n) : em.mantissa < 2 ^ 53 := by
  have hpow : (0 : ℚ) < 2 ^ n := by positivity
  have hupper : em.mantissa * 2 ^ n < m + 1 := by
    exact_mod_cast ((le_div_iff₀ hpow).1 h.lower).trans_lt hx
  have hself : m < 2 ^ (m.log2 + 1) := Nat.lt_log2_self
  have hmono : 2 ^ (m.log2 + 1) ≤ 2 ^ 53 * 2 ^ n := by
    rw [← pow_add]
    exact Nat.pow_le_pow_right (by omega) (by omega)
  exact lt_of_mul_lt_mul_right (by omega : em.mantissa * 2 ^ n < 2 ^ 53 * 2 ^ n) (Nat.zero_le _)

/-- A mantissa of full length stays one. -/
theorem two_pow_le {m n : ℕ} (h : Truncates em (x / 2 ^ n)) (hx : m ≤ x) (hm : m ≠ 0)
    (hlog : m.log2 = 52 + n) : 2 ^ 52 ≤ em.mantissa := by
  have hpow : (0 : ℚ) < 2 ^ n := by positivity
  have hlower : m < (em.mantissa + 1) * 2 ^ n := by
    exact_mod_cast hx.trans_lt ((div_lt_iff₀ hpow).1 h.upper)
  have hself : 2 ^ m.log2 ≤ m := Nat.log2_self_le hm
  rw [hlog, pow_add] at hself
  exact Nat.lt_succ_iff.1 (lt_of_mul_lt_mul_right (hself.trans_lt hlower) (Nat.zero_le _))

/-- A mantissa with nothing behind the point is exact. -/
theorem exact (m : ℕ) : Truncates (.ofMantissaAndAccuracy m .exact) m :=
  ⟨le_rfl, lt_add_one _, iff_of_true rfl ⟨rfl, rfl⟩⟩

end Truncates

/-- A quotient of mantissas with its remainder tells how the exact quotient goes on. -/
theorem Truncates.ofFraction (m : ℕ) {d : ℕ} (hd : 0 < d) :
    Truncates (.ofMantissaAndAccuracy (m / d) (accuracyOfFraction (m % d) d)) (m / d : ℚ) := by
  have hpos : (0 : ℚ) < d := by exact_mod_cast hd
  have hsplit : (m : ℚ) = (m % d : ℕ) + d * (m / d : ℕ) := by
    exact_mod_cast (Nat.mod_add_div m d).symm
  have hremainder : ((m % d : ℕ) : ℚ) < d := by exact_mod_cast Nat.mod_lt m hd
  have hlower : ((m / d : ℕ) : ℚ) ≤ m / d := by
    rw [le_div_iff₀ hpos]
    linarith [Nat.cast_nonneg (α := ℚ) (m % d)]
  have hupper : (m : ℚ) / d < (m / d : ℕ) + 1 := by
    rw [div_lt_iff₀ hpos]
    linarith
  have hexact : (m : ℚ) / d = (m / d : ℕ) ↔ m % d = 0 := by
    rw [div_eq_iff hpos.ne', hsplit, mul_comm, add_eq_right, Nat.cast_eq_zero]
  rw [accuracyOfFraction]
  split
  · case isTrue hzero => exact ⟨hlower, hupper, iff_of_true (hexact.2 hzero) ⟨rfl, rfl⟩⟩
  · case isFalse hne =>
    cases compare (2 * (m % d)) d <;>
      exact ⟨hlower, hupper, iff_of_false (mt hexact.1 hne)
        (by simp [ExtendedMantissa.ofMantissaAndAccuracy])⟩

/-- A shift to the left adds to the length. -/
theorem log2_mul_two_pow {m : ℕ} (hm : 0 < m) (n : ℕ) : (m * 2 ^ n).log2 = m.log2 + n := by
  have hlower : 2 ^ m.log2 ≤ m := Nat.log2_self_le hm.ne'
  have hupper : m < 2 ^ (m.log2 + 1) := Nat.lt_log2_self
  refine (Nat.log2_eq_iff (by positivity)).2 ⟨?_, ?_⟩
  · rw [pow_add]
    gcongr
  · rw [add_right_comm, pow_add]
    gcongr

/-- Dividing takes no more from the length than the divisor has. -/
theorem log2_le_log2_div (m : ℕ) {d : ℕ} (hd : 0 < d) : m.log2 ≤ (m / d).log2 + d.log2 + 1 := by
  obtain rfl | hm := m.eq_zero_or_pos
  · exact Nat.zero_le _
  have hquotient : m / d + 1 ≤ 2 ^ ((m / d).log2 + 1) := Nat.lt_log2_self
  have hdivisor : d ≤ 2 ^ (d.log2 + 1) := Nat.lt_log2_self.le
  refine Nat.lt_succ_iff.1 ((Nat.log2_lt hm.ne').2 ?_)
  calc m < (m / d + 1) * d := Nat.lt_mul_of_div_lt (Nat.lt_succ_self _) hd
    _ ≤ 2 ^ ((m / d).log2 + 1) * 2 ^ (d.log2 + 1) := Nat.mul_le_mul hquotient hdivisor
    _ = 2 ^ ((m / d).log2 + d.log2 + 1).succ := by rw [← pow_add]; congr 1; omega

/-- A rational number with a sign. -/
def signed : Sign → ℚ → ℚ
  | .negative, q => -q
  | .positive, q => q

theorem abs_signed (s : Sign) (q : ℚ) : |signed s q| = |q| := by
  cases s
  · exact abs_neg q
  · rfl

/-- Rounding is the same for both signs. -/
theorem rounds_signed {x r : ℚ} (h : Rounds x r) (s : Sign) :
    Rounds (signed s x) (signed s r) := by
  cases s
  · exact h.neg
  · exact h

/-- A signed integer as a signed rational number. -/
theorem cast_apply (s : Sign) (n : ℤ) : ((s.apply n : ℤ) : ℚ) = signed s n := by
  cases s
  · exact Int.cast_neg n
  · rfl

theorem signed_neg (s : Sign) (q : ℚ) : signed (-s) q = -signed s q := by
  cases s
  · exact (neg_neg q).symm
  · rfl

theorem signed_mul_right (s : Sign) (q r : ℚ) : signed s q * r = signed s (q * r) := by
  cases s
  · exact neg_mul q r
  · rfl

/-- The sign of a product is the product of the signs. -/
theorem signed_mul_signed (s t : Sign) (q r : ℚ) :
    signed s q * signed t r = signed (s * t) (q * r) := by
  cases s with
  | negative =>
    cases t with
    | negative => exact neg_mul_neg q r
    | positive => exact neg_mul q r
  | positive =>
    cases t with
    | negative => exact mul_neg q r
    | positive => rfl

theorem signed_div_signed (s t : Sign) (q r : ℚ) :
    signed s q / signed t r = signed (s / t) (q / r) := by
  cases s with
  | negative =>
    cases t with
    | negative => exact neg_div_neg_eq q r
    | positive => exact neg_div r q
  | positive =>
    cases t with
    | negative => exact div_neg q
    | positive => rfl

/-- What an unpacked number stands for. -/
def toRat : UnpackedFloat → ℚ
  | .finite s m e _ => signed s (m * 2 ^ e)
  | _ => 0

/-- The finite numbers of the format, up to those with too large an exponent. -/
inductive Canonical : UnpackedFloat → Prop where
  | zero (s : Sign) : Canonical (.zero s)
  | finite (s : Sign) (m : ℕ) (e : ℤ) (hm : 0 < m) (hbits : m < 2 ^ 53) (hmin : -1074 ≤ e)
    (hnormal : e = -1074 ∨ 2 ^ 52 ≤ m) : Canonical (.finite s m e hm)

/-- The exponent at which a number of a length is stored. -/
theorem targetExponent_eq (n : ℤ) : Format.binary64.targetExponent n = max (n - 53) (-1074) := by
  simp [Format.targetExponent, Format.mantissaBits, Format.minExponent]

/-- A number with at most 53 bits in front of the smallest exponent is not shifted. -/
theorem shiftToTargetExponent_of_lt {m : ℕ} {e : ℤ} (hm : m < 2 ^ 53) (he : -1074 ≤ e) :
    shiftToTargetExponent Format.binary64 m e .exact =
      (.ofMantissaAndAccuracy m .exact, e) := by
  have hbits : m.log2 ≤ 52 := by
    obtain rfl | hne := eq_or_ne m 0
    · decide
    · exact Nat.lt_succ_iff.1 ((Nat.log2_lt hne).2 hm)
  have hshift : (Format.binary64.targetExponent (totalExponent m e) - e).toNat = 0 := by
    rw [targetExponent_eq, totalExponent]
    omega
  simp only [shiftToTargetExponent, shiftToExponent, hshift]
  exact Prod.ext rfl (add_zero e)

/-- A mantissa that rounding has filled up is shifted once. -/
theorem shiftToTargetExponent_two_pow {e : ℤ} (he : -1074 ≤ e) :
    shiftToTargetExponent Format.binary64 (2 ^ 53) e .exact =
      (.ofMantissaAndAccuracy (2 ^ 52) .exact, e + 1) := by
  have hshift : (Format.binary64.targetExponent (totalExponent (2 ^ 53) e) - e).toNat = 1 := by
    rw [targetExponent_eq, totalExponent, Nat.log2_two_pow]
    omega
  simp only [shiftToTargetExponent, shiftToExponent, hshift]
  rfl

/-- The number with the given mantissa and exponent, which is zero if the mantissa is. -/
def store (s : Sign) (shifted : ExtendedMantissa × ℤ) : UnpackedFloat :=
  if h : shifted.1.mantissa = 0 then .zero s
  else .finite s shifted.1.mantissa shifted.2 (Nat.pos_of_ne_zero h)

/-- An exact mantissa is stored as it is. -/
theorem store_exact (s : Sign) {m : ℕ} (e : ℤ) (hm : 0 < m) :
    store s (.ofMantissaAndAccuracy m .exact, e) = .finite s m e hm :=
  dif_neg hm.ne'

/-- A mantissa is shifted once more after it has been rounded, which loses nothing. -/
theorem store_spec (s : Sign) {m : ℕ} {e : ℤ} (hm : m ≤ 2 ^ 53) (he : -1074 ≤ e)
    (hnormal : e = -1074 ∨ 2 ^ 52 ≤ m) :
    Canonical (store s (shiftToTargetExponent Format.binary64 m e .exact)) ∧
      toRat (store s (shiftToTargetExponent Format.binary64 m e .exact)) =
        signed s (m * 2 ^ e) := by
  obtain hlt | rfl := hm.lt_or_eq
  · rw [shiftToTargetExponent_of_lt hlt he]
    obtain rfl | hpos := m.eq_zero_or_pos
    · refine ⟨.zero s, ?_⟩
      change 0 = signed s ((0 : ℕ) * 2 ^ e)
      rw [Nat.cast_zero, zero_mul]
      cases s
      · exact neg_zero.symm
      · rfl
    · rw [store_exact s e hpos]
      exact ⟨.finite s m e _ hlt he hnormal, rfl⟩
  · rw [shiftToTargetExponent_two_pow he, store_exact s (e + 1) (Nat.two_pow_pos 52)]
    refine ⟨.finite s (2 ^ 52) (e + 1) _ (by norm_num) (by omega) (.inr le_rfl), ?_⟩
    change signed s ((2 ^ 52 : ℕ) * 2 ^ (e + 1)) = _
    rw [zpow_add₀ two_ne_zero]
    congr 1
    push_cast
    ring

/-- The result of rounding belongs to the format, and is the exact number after rounding. -/
theorem roundWithAccuracy_spec (s : Sign) {m : ℕ} {e : ℤ} {accuracy : Accuracy} {x : ℚ}
    (hx : Truncates (.ofMantissaAndAccuracy m accuracy) x)
    (he : e ≤ Format.binary64.targetExponent (totalExponent m e)) :
    Canonical (roundWithAccuracy Format.binary64 s m e accuracy) ∧
      Rounds (signed s (x * 2 ^ e)) (toRat (roundWithAccuracy Format.binary64 s m e accuracy)) := by
  obtain ⟨n, hn⟩ := Int.eq_ofNat_of_zero_le (sub_nonneg.2 he)
  have htarget : Format.binary64.targetExponent (totalExponent m e) = e + n := by omega
  have hshift : (Format.binary64.targetExponent (totalExponent m e) - e).toNat = n := by omega
  have hlarge := htarget
  rw [targetExponent_eq, totalExponent] at hlarge
  set em := ExtendedMantissa.ofMantissaAndAccuracy m accuracy >>> n with hem
  have hstore : roundWithAccuracy Format.binary64 s m e accuracy =
      store s (shiftToTargetExponent Format.binary64 em.roundedMantissa (e + n) .exact) := by
    rw [hem, ← hshift]
    rfl
  have htruncates : Truncates em (x / 2 ^ n) := hx.shiftRight n
  have hmantissa : (ExtendedMantissa.ofMantissaAndAccuracy m accuracy).mantissa = m := by
    cases accuracy with
    | exact => rfl
    | inexact o => cases o <;> rfl
  have hlower := hx.lower
  have hupper := hx.upper
  rw [hmantissa] at hlower hupper
  have hbits : em.mantissa < 2 ^ 53 := htruncates.lt_two_pow hupper (by omega)
  -- Unless the number lies at the bottom of the format, the shift leaves a mantissa of full length.
  have hnormal : e + n = -1074 ∨ 2 ^ 52 ≤ em.mantissa := by
    refine or_iff_not_imp_left.2 fun hne => ?_
    have hlog : m.log2 = 52 + n := by omega
    have hm : m ≠ 0 := by
      rintro rfl
      rw [Nat.log2_zero] at hlog
      omega
    exact htruncates.two_pow_le hlower hm hlog
  have hrounded := htruncates.roundedMantissa
  obtain ⟨hcanonical, hvalue⟩ := store_spec s (m := em.roundedMantissa) (e := e + n) (by omega)
    (by omega) (by omega)
  have hscale : x * 2 ^ e = x / 2 ^ n * 2 ^ (e + n) := by
    rw [zpow_add₀ two_ne_zero, zpow_natCast]
    field_simp
  rw [hstore, hvalue, hscale]
  exact ⟨hcanonical,
    rounds_signed (rounds_of_grid htruncates.lower htruncates.upper hrounded hnormal) s⟩

/-- A lower exponent with a longer mantissa gives the same number. -/
theorem decreaseExponent_value (m : ℕ) (e t : ℤ) :
    ((decreaseExponent m e t).1 : ℚ) * 2 ^ (decreaseExponent m e t).2 = m * 2 ^ e := by
  rw [decreaseExponent, Nat.shiftLeft_eq]
  push_cast
  rw [zpow_sub₀ two_ne_zero, zpow_natCast]
  field_simp

theorem decreaseExponent_value_of_le (m : ℕ) {e t : ℤ} (h : t ≤ e) :
    ((decreaseExponent m e t).1 : ℚ) * 2 ^ t = m * 2 ^ e := by
  have hexponent : (decreaseExponent m e t).2 = t := by
    rw [decreaseExponent]
    omega
  rw [← decreaseExponent_value m e t, hexponent]

theorem totalExponent_decreaseExponent {m : ℕ} (hm : 0 < m) (e t : ℤ) :
    totalExponent (decreaseExponent m e t).1 (decreaseExponent m e t).2 = totalExponent m e := by
  rw [decreaseExponent, Nat.shiftLeft_eq, totalExponent, totalExponent, log2_mul_two_pow hm]
  omega

/-- A rounded number is one of the format, and the exact number is not moved across any other. -/
theorem round_spec (s : Sign) {m : ℕ} (hm : 0 < m) (e : ℤ) :
    Canonical (UnpackedFloat.round Format.binary64 s m e) ∧
      Rounds (signed s (m * 2 ^ e)) (toRat (UnpackedFloat.round Format.binary64 s m e)) := by
  set t := Format.binary64.targetExponent (totalExponent m e) with ht
  have hle : (decreaseExponent m e t).2 ≤
      Format.binary64.targetExponent
        (totalExponent (decreaseExponent m e t).1 (decreaseExponent m e t).2) := by
    rw [totalExponent_decreaseExponent hm, ← ht, decreaseExponent]
    omega
  have hround := roundWithAccuracy_spec s (.exact _) hle
  rw [decreaseExponent_value] at hround
  exact hround

/-- A signed mantissa is rounded to the format. -/
theorem normalize_spec (n : ℤ) (e : ℤ) :
    Canonical (UnpackedFloat.normalize Format.binary64 n e .positive) ∧
      Rounds (n * 2 ^ e) (toRat (UnpackedFloat.normalize Format.binary64 n e .positive)) := by
  obtain hneg | rfl | hpos := lt_trichotomy n 0
  · have hnormalize : UnpackedFloat.normalize Format.binary64 n e .positive =
        UnpackedFloat.round Format.binary64 .negative (-n).toNat e := by
      rw [UnpackedFloat.normalize, compare_lt_iff_lt.2 hneg]
    have hmagnitude : (n : ℚ) * 2 ^ e = signed .negative ((-n).toNat * 2 ^ e) := by
      have hcast : (((-n).toNat : ℕ) : ℚ) = -n := by
        exact_mod_cast Int.toNat_of_nonneg (by omega : 0 ≤ -n)
      rw [signed, hcast, neg_mul, neg_neg]
    rw [hnormalize, hmagnitude]
    exact round_spec .negative (by omega) e
  · refine ⟨.zero .positive, ?_⟩
    rw [Int.cast_zero, zero_mul]
    exact .refl 0
  · have hnormalize : UnpackedFloat.normalize Format.binary64 n e .positive =
        UnpackedFloat.round Format.binary64 .positive n.toNat e := by
      rw [UnpackedFloat.normalize, compare_gt_iff_gt.2 hpos]
    have hmagnitude : (n : ℚ) * 2 ^ e = signed .positive (n.toNat * 2 ^ e) := by
      have hcast : ((n.toNat : ℕ) : ℚ) = n := by exact_mod_cast Int.toNat_of_nonneg hpos.le
      rw [signed, hcast]
    rw [hnormalize, hmagnitude]
    exact round_spec .positive (by omega) e

/-- The sign is changed without rounding. -/
theorem neg_spec {u : UnpackedFloat} (h : Canonical u) :
    Canonical u.neg ∧ toRat u.neg = -toRat u := by
  cases h with
  | zero s => exact ⟨.zero (-s), neg_zero.symm⟩
  | finite s m e hm hbits hmin hnormal =>
    exact ⟨.finite (-s) m e hm hbits hmin hnormal, signed_neg s _⟩

/-- Differences round. -/
theorem sub_spec {u v : UnpackedFloat} (hu : Canonical u) (hv : Canonical v) :
    Canonical (UnpackedFloat.sub Format.binary64 u v) ∧
      Rounds (toRat u - toRat v) (toRat (UnpackedFloat.sub Format.binary64 u v)) := by
  cases hu with
  | zero s₁ =>
    cases hv with
    | zero s₂ =>
      have hzero : Rounds (0 - 0) 0 := by
        rw [sub_zero]
        exact .refl 0
      cases s₁ <;> cases s₂ <;> exact ⟨.zero _, hzero⟩
    | finite s₂ m₂ e₂ hm₂ hbits hmin hnormal =>
      refine ⟨.finite (-s₂) m₂ e₂ hm₂ hbits hmin hnormal, ?_⟩
      change Rounds (0 - signed s₂ (m₂ * 2 ^ e₂)) (signed (-s₂) (m₂ * 2 ^ e₂))
      rw [signed_neg, zero_sub]
      exact .refl _
  | finite s₁ m₁ e₁ hm₁ hbits hmin hnormal =>
    cases hv with
    | zero s₂ =>
      refine ⟨.finite s₁ m₁ e₁ hm₁ hbits hmin hnormal, ?_⟩
      change Rounds (signed s₁ (m₁ * 2 ^ e₁) - 0) (signed s₁ (m₁ * 2 ^ e₁))
      rw [sub_zero]
      exact .refl _
    | finite s₂ m₂ e₂ hm₂ =>
      have hsub := normalize_spec (s₁.apply (decreaseExponent m₁ e₁ (min e₁ e₂)).1 -
        s₂.apply (decreaseExponent m₂ e₂ (min e₁ e₂)).1) (min e₁ e₂)
      have hvalue₁ := decreaseExponent_value_of_le m₁ (min_le_left e₁ e₂)
      have hvalue₂ := decreaseExponent_value_of_le m₂ (min_le_right e₁ e₂)
      rw [Int.cast_sub, cast_apply, cast_apply, sub_mul, signed_mul_right, signed_mul_right,
        Int.cast_natCast, Int.cast_natCast, hvalue₁, hvalue₂] at hsub
      exact hsub

/-- Products round. -/
theorem mul_spec {u v : UnpackedFloat} (hu : Canonical u) (hv : Canonical v) :
    Canonical (UnpackedFloat.mul Format.binary64 u v) ∧
      Rounds (toRat u * toRat v) (toRat (UnpackedFloat.mul Format.binary64 u v)) := by
  cases hu with
  | zero s₁ =>
    have hzero : Rounds (0 * toRat v) 0 := by
      rw [zero_mul]
      exact .refl 0
    cases hv with
    | zero s₂ => exact ⟨.zero (s₁ * s₂), hzero⟩
    | finite s₂ m₂ e₂ hm₂ => exact ⟨.zero (s₁ * s₂), hzero⟩
  | finite s₁ m₁ e₁ hm₁ hbits₁ hmin₁ hnormal₁ =>
    cases hv with
    | zero s₂ =>
      refine ⟨.zero (s₁ * s₂), ?_⟩
      change Rounds (_ * 0) 0
      rw [mul_zero]
      exact .refl 0
    | finite s₂ m₂ e₂ hm₂ hbits₂ hmin₂ hnormal₂ =>
      have hle : e₁ + e₂ ≤ Format.binary64.targetExponent (totalExponent (m₁ * m₂) (e₁ + e₂)) := by
        have hbits : (e₁ = -1074 ∧ e₂ = -1074) ∨ 52 ≤ (m₁ * m₂).log2 := by
          have hlog : 2 ^ 52 ≤ m₁ * m₂ → 52 ≤ (m₁ * m₂).log2 := (Nat.le_log2 (by positivity)).2
          obtain hmin₁ | hlarge₁ := hnormal₁
          · obtain hmin₂ | hlarge₂ := hnormal₂
            · exact .inl ⟨hmin₁, hmin₂⟩
            · exact .inr (hlog (hlarge₂.trans (Nat.le_mul_of_pos_left m₂ hm₁)))
          · exact .inr (hlog (hlarge₁.trans (Nat.le_mul_of_pos_right m₁ hm₂)))
        rw [targetExponent_eq, totalExponent]
        omega
      have hmul := roundWithAccuracy_spec (s₁ * s₂) (.exact (m₁ * m₂)) hle
      have hvalue : signed s₁ (m₁ * 2 ^ e₁) * signed s₂ (m₂ * 2 ^ e₂) =
          signed (s₁ * s₂) ((m₁ * m₂ : ℕ) * 2 ^ (e₁ + e₂)) := by
        rw [signed_mul_signed, zpow_add₀ two_ne_zero, Nat.cast_mul, mul_mul_mul_comm]
      rw [← hvalue] at hmul
      exact hmul

/-- Quotients round. -/
theorem div_spec {u v : UnpackedFloat} (hu : Canonical u) (hv : Canonical v) (hne : toRat v ≠ 0) :
    Canonical (UnpackedFloat.div Format.binary64 u v) ∧
      Rounds (toRat u / toRat v) (toRat (UnpackedFloat.div Format.binary64 u v)) := by
  cases hv with
  | zero s₂ => exact absurd rfl hne
  | finite s₂ m₂ e₂ hm₂ =>
    cases hu with
    | zero s₁ =>
      refine ⟨.zero (s₁ / s₂), ?_⟩
      change Rounds (0 / _) 0
      rw [zero_div]
      exact .refl 0
    | finite s₁ m₁ e₁ hm₁ =>
      set t := min (e₁ - e₂)
        (Format.binary64.targetExponent (totalExponent m₁ e₁ - totalExponent m₂ e₂)) with ht
      set n := (e₁ - e₂ - t).toNat with hn
      have hlog := log2_le_log2_div (m₁ * 2 ^ n) hm₂
      rw [log2_mul_two_pow hm₁] at hlog
      have hle : t ≤ Format.binary64.targetExponent (totalExponent (m₁ * 2 ^ n / m₂) t) := by
        rw [targetExponent_eq, totalExponent, totalExponent] at ht
        rw [targetExponent_eq, totalExponent]
        omega
      have hdiv := roundWithAccuracy_spec (s₁ / s₂) (.ofFraction (m₁ * 2 ^ n) hm₂) hle
      have hvalue : signed s₁ (m₁ * 2 ^ e₁) / signed s₂ (m₂ * 2 ^ e₂) =
          signed (s₁ / s₂) ((m₁ * 2 ^ n : ℕ) / m₂ * 2 ^ t) := by
        have hexponent : e₁ = n + t + e₂ := by omega
        rw [signed_div_signed, hexponent, zpow_add₀ two_ne_zero, zpow_add₀ two_ne_zero,
          zpow_natCast]
        push_cast
        field_simp
      rw [← hvalue] at hdiv
      rw [← Nat.shiftLeft_eq] at hdiv
      exact hdiv

end Directional.Binary64
