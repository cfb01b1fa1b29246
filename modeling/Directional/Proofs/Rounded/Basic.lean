import Mathlib.Algebra.Order.Field.Power
import Mathlib.Data.Sign.Basic
import Mathlib.Tactic.Linarith
import Mathlib.Tactic.NormNum
import Directional.Proofs.Exact.Field
import Directional.Scalar.Power

namespace Directional.Scalar

/-- The number `r` is `x` after rounding: the two are on the same side of every number with a
mantissa of 53 bits and an exponent that is far from where such numbers end. What an operation
computes may differ from the exact result, but it is never moved across such a number. -/
def Rounds (x r : ℚ) : Prop :=
  ∀ m e : ℤ, |m| ≤ 2 ^ 53 → |e| ≤ 200 →
    ((m : ℚ) * 2 ^ e ≤ x → (m : ℚ) * 2 ^ e ≤ r) ∧ (x ≤ (m : ℚ) * 2 ^ e → r ≤ (m : ℚ) * 2 ^ e)

/-- An exact result is not moved at all. -/
theorem Rounds.refl (x : ℚ) : Rounds x x :=
  fun _ _ _ _ => ⟨id, id⟩

namespace Rounds

variable {x r : ℚ}

/-- A number that can be represented is not rounded. -/
theorem eq_of_eq (h : Rounds x r) {m e : ℤ} (hx : x = m * 2 ^ e) (hm : |m| ≤ 2 ^ 53)
    (he : |e| ≤ 200) : r = x := by
  subst hx
  exact le_antisymm ((h m e hm he).2 le_rfl) ((h m e hm he).1 le_rfl)

/-- A whole number of up to 53 bits is kept. -/
theorem eq_intCast (h : Rounds x r) {n : ℤ} (hx : x = n) (hn : |n| ≤ 2 ^ 53) : r = n := by
  have hshape : x = n * 2 ^ (0 : ℤ) := by rw [hx, zpow_zero, mul_one]
  rw [h.eq_of_eq hshape hn (by norm_num), hx]

/-- Zero is kept. -/
theorem eq_zero (h : Rounds x r) (hx : x = 0) : r = 0 := by
  have hcast : x = (0 : ℤ) := by rw [hx, Int.cast_zero]
  rw [h.eq_intCast hcast (by norm_num), Int.cast_zero]

/-- Rounding keeps above a power of two. -/
theorem two_zpow_le (h : Rounds x r) {e : ℤ} (he : |e| ≤ 200) (hx : 2 ^ e ≤ x) : 2 ^ e ≤ r := by
  have hbarrier := (h 1 e (by norm_num) he).1
  rw [Int.cast_one, one_mul] at hbarrier
  exact hbarrier hx

/-- Rounding keeps below a power of two. -/
theorem le_two_zpow (h : Rounds x r) {e : ℤ} (he : |e| ≤ 200) (hx : x ≤ 2 ^ e) : r ≤ 2 ^ e := by
  have hbarrier := (h 1 e (by norm_num) he).2
  rw [Int.cast_one, one_mul] at hbarrier
  exact hbarrier hx

/-- The barriers lie symmetrically around zero. -/
theorem neg (h : Rounds x r) : Rounds (-x) (-r) := by
  intro m e hm he
  have hbarrier := h (-m) e (by rwa [abs_neg]) he
  rw [Int.cast_neg, neg_mul] at hbarrier
  constructor
  · exact fun hx => le_neg.1 (hbarrier.2 (le_neg.1 hx))
  · exact fun hx => neg_le.1 (hbarrier.1 (neg_le.1 hx))

/-- Rounding keeps within bounds. -/
theorem abs_le_two_zpow (h : Rounds x r) {e : ℤ} (he : |e| ≤ 200) (hx : |x| ≤ 2 ^ e) :
    |r| ≤ 2 ^ e := by
  obtain ⟨hlower, hupper⟩ := abs_le.1 hx
  have hneg := h.neg.le_two_zpow he (neg_le.1 hlower)
  exact abs_le.2 ⟨neg_le.1 hneg, h.le_two_zpow he hupper⟩

end Rounds

/-- What the finite numbers of a type stand for. -/
class Valued (K : Type) where
  value : K → ℚ

export Valued (value)

variable {K : Type} [Scalar K] [Valued K]

/-- A finite number that stands for `q`, up to rounding. -/
structure Approximates (x : K) (q : ℚ) : Prop where
  isFinite : isFinite x = true
  rounds : Rounds q (value x)

/-- A finite number that stands for `q`. -/
structure Denotes (x : K) (q : ℚ) : Prop where
  isFinite : isFinite x = true
  value_eq : value x = q

/-- Words have exact representations, operations round once as long as nothing overflows, and the
comparisons with zero are exact. -/
class Rounded (K : Type) [Scalar K] [Valued K] : Prop where
  zero : Denotes (0 : K) 0
  one : Denotes (1 : K) 1
  int {n : ℤ} (hn : |n| ≤ 2 ^ 31) : Denotes (int n : K) n
  sub {x y : K} (hx : isFinite x = true) (hy : isFinite y = true)
    (hbound : |value x - value y| ≤ 2 ^ 200) : Approximates (x - y) (value x - value y)
  mul {x y : K} (hx : isFinite x = true) (hy : isFinite y = true)
    (hbound : |value x * value y| ≤ 2 ^ 200) : Approximates (x * y) (value x * value y)
  div {x y : K} (hx : isFinite x = true) (hy : isFinite y = true) (hne : value y ≠ 0)
    (hbound : |value x / value y| ≤ 2 ^ 200) : Approximates (x / y) (value x / value y)
  lt_zero {x : K} (hx : isFinite x = true) : lt x 0 = true ↔ value x < 0
  same_zero {x : K} (hx : isFinite x = true) : same x 0 = true ↔ value x = 0

instance : Valued ℚ where
  value x := x

/-- Exact arithmetic is arithmetic that happens not to round. -/
instance : Rounded ℚ where
  zero := ⟨rfl, rfl⟩
  one := ⟨rfl, rfl⟩
  int _ := ⟨rfl, rfl⟩
  sub _ _ _ := ⟨rfl, .refl _⟩
  mul _ _ _ := ⟨rfl, .refl _⟩
  div _ _ _ _ := ⟨rfl, .refl _⟩
  lt_zero _ := decide_eq_true_iff
  same_zero _ := decide_eq_true_iff

/-- What approximates a whole number denotes it. -/
theorem Approximates.denotes {x : K} {q : ℚ} {n : ℤ} (h : Approximates x q) (hq : q = n)
    (hn : |n| ≤ 2 ^ 53) : Denotes x q :=
  ⟨h.isFinite, by rw [h.rounds.eq_intCast hq hn, hq]⟩

/-- A number that is zero or one, as powers of zero are. -/
def IsBit (x : K) : Prop :=
  Denotes x 0 ∨ Denotes x 1

theorem isFinite_of_isBit {x : K} (h : IsBit x) : isFinite x = true :=
  h.elim Denotes.isFinite Denotes.isFinite

variable [Rounded K]

/-- A finite number times zero is zero. -/
theorem denotes_mul_zero {x y : K} (hx : isFinite x = true) (hy : Denotes y 0) :
    Denotes (x * y) 0 := by
  have hzero : value x * value y = 0 := by rw [hy.value_eq, mul_zero]
  have hmul := Rounded.mul hx hy.isFinite (by rw [hzero, abs_zero]; positivity)
  rw [hzero] at hmul
  exact hmul.denotes Int.cast_zero.symm (by norm_num)

/-- A natural power of zero is zero or one: every factor that repeated squaring multiplies on is
zero. -/
theorem isBit_powerOnto {result base : K} (hresult : IsBit result) (hbase : Denotes base 0)
    (n : ℕ) : IsBit (powerOnto result base n) := by
  induction n using Nat.strong_induction_on generalizing result base with
  | h n ih =>
    have hnext : IsBit (if n % 2 = 1 then result * base else result) := by
      split
      · exact .inl (denotes_mul_zero (isFinite_of_isBit hresult) hbase)
      · exact hresult
    rw [powerOnto]
    split
    · exact hnext
    · exact ih (n / 2) (by omega) hnext (denotes_mul_zero hbase.isFinite hbase)

/-- The powers of zero are zero and one. -/
theorem isBit_natPower {x : K} (hx : Denotes x 0) (n : ℕ) : IsBit (natPower x n) :=
  isBit_powerOnto (.inr Rounded.one) hx n

end Directional.Scalar
