import Directional.Decimal.Binary

namespace Directional.Decimal

/-- The decimal number `coefficient * 10 ^ exponent`, a point of the grid of the multiples of
`10 ^ exponent`. -/
structure Digits where
  coefficient : Nat
  exponent : Int
  deriving DecidableEq

/-- A positive number together with the interval of the numbers that round to it, all as numerators
over one denominator. The ends of the interval belong to it if `closed` holds. -/
structure Rounding where
  lower : Nat
  value : Nat
  upper : Nat
  denominator : Nat
  closed : Bool

namespace Rounding

/-- The numbers that round to the double `m * 2 ^ q`: half a unit up, and half a unit down or, next
to a gap of the smaller numbers that is half as wide, a quarter. The ends round to it if `m` is
even. -/
def ofBinary (m : Nat) (q : Int) : Rounding :=
  let below := if m = 1 <<< 52 ∧ -1074 < q then 1 else 2
  let factor := 1 <<< (q - 2).toNat
  { lower := (4 * m - below) * factor
    value := 4 * m * factor
    upper := (4 * m + 2) * factor
    denominator := 1 <<< (2 - q).toNat
    closed := m % 2 = 0 }

/-- Measures everything in units of `10 ^ k`. -/
def inUnitsOf (v : Rounding) (k : Int) : Rounding :=
  let factor := Nat.pow 10 (-k).toNat
  { lower := v.lower * factor
    value := v.value * factor
    upper := v.upper * factor
    denominator := v.denominator * Nat.pow 10 k.toNat
    closed := v.closed }

/-- Whether the integer `c` lies in the interval. -/
def contains (v : Rounding) (c : Nat) : Bool :=
  let c := c * v.denominator
  if v.closed then v.lower ≤ c && c ≤ v.upper else v.lower < c && c < v.upper

/-- The integer in the interval that is nearest to the value, if one of the value's two integer
neighbours lies in it. Of two at the same distance it is the larger one. -/
def nearest? (v : Rounding) : Option Nat :=
  let floor := v.value / v.denominator
  let remainder := v.value % v.denominator
  match v.contains floor, v.contains (floor + 1) with
  | true, true => some (if v.denominator ≤ 2 * remainder then floor + 1 else floor)
  | true, false => some floor
  | false, true => some (floor + 1)
  | false, false => none

/-- The value lies inside of the interval, and all of that is positive. -/
structure Inside (v : Rounding) : Prop where
  lower_pos : 0 < v.lower
  lower_lt : v.lower < v.value
  lt_upper : v.value < v.upper
  denominator_pos : 0 < v.denominator

/-- The interval of a positive double. -/
theorem inside_ofBinary {m : Nat} (hm : 0 < m) (q : Int) : (ofBinary m q).Inside := by
  have hshift (k : Nat) : 0 < 1 <<< k := by
    rw [Nat.one_shiftLeft]
    exact Nat.two_pow_pos k
  constructor
  · apply Nat.mul_pos _ (hshift _)
    split <;> omega
  · apply Nat.mul_lt_mul_of_pos_right _ (hshift _)
    split <;> omega
  · exact Nat.mul_lt_mul_of_pos_right (by omega) (hshift _)
  · exact hshift _

/-- The unit makes no difference to where the value lies. -/
theorem Inside.inUnitsOf {v : Rounding} (h : v.Inside) (k : Int) : (v.inUnitsOf k).Inside := by
  have hpow (k : Nat) : 0 < Nat.pow 10 k := Nat.pow_pos (by decide)
  constructor
  · exact Nat.mul_pos h.lower_pos (hpow _)
  · exact Nat.mul_lt_mul_of_pos_right h.lower_lt (hpow _)
  · exact Nat.mul_lt_mul_of_pos_right h.lt_upper (hpow _)
  · exact Nat.mul_pos h.denominator_pos (hpow _)

/-- What lies in the interval is not beyond its ends. -/
theorem le_of_contains {v : Rounding} {c : Nat} (h : v.contains c = true) :
    v.lower ≤ c * v.denominator ∧ c * v.denominator ≤ v.upper := by
  unfold contains at h
  split at h <;> simp at h <;> omega

/-- What lies between the ends of the interval, and is none of them, lies in the interval. -/
theorem contains_of_lt {v : Rounding} {c : Nat} (hlower : v.lower < c * v.denominator)
    (hupper : c * v.denominator < v.upper) : v.contains c = true := by
  unfold contains
  split <;> simp <;> omega

/-- An integer between the value and one that lies in the interval lies in it, too. -/
theorem Inside.contains_of_between {v : Rounding} (h : v.Inside) {c d : Nat}
    (hd : v.contains d = true)
    (hc : d ≤ c ∧ c * v.denominator ≤ v.value ∨ c ≤ d ∧ v.value ≤ c * v.denominator) :
    v.contains c = true := by
  obtain ⟨-, hlower, hupper, -⟩ := h
  unfold contains at hd ⊢
  obtain ⟨hdc, hvalue⟩ | ⟨hcd, hvalue⟩ := hc
  · have hle : d * v.denominator ≤ c * v.denominator := Nat.mul_le_mul_right _ hdc
    split at hd <;> simp_all <;> omega
  · have hle : c * v.denominator ≤ d * v.denominator := Nat.mul_le_mul_right _ hcd
    split at hd <;> simp_all <;> omega

/-- The integer that is found is one of the value's neighbours, and lies in the interval. If both do
it is the one to which the remainder points. -/
theorem nearest?_eq_some {v : Rounding} {c : Nat} (h : v.nearest? = some c) :
    let floor := v.value / v.denominator
    let remainder := v.value % v.denominator
    c = floor ∧ v.contains floor = true ∧
        (v.contains (floor + 1) = true → 2 * remainder < v.denominator) ∨
      c = floor + 1 ∧ v.contains (floor + 1) = true ∧
        (v.contains floor = true → v.denominator ≤ 2 * remainder) := by
  simp only [nearest?] at h
  grind

/-- How far an integer is from the value, as a numerator. -/
def distance (v : Rounding) (c : Nat) : Nat :=
  (v.value - c * v.denominator) + (c * v.denominator - v.value)

section Nearest

variable {v : Rounding} (h : v.Inside) {c d : Nat}
include h

/-- Every integer in the interval has one of the value's neighbours between it and the value. -/
theorem Inside.neighbour_of_contains (hd : v.contains d = true) :
    d ≤ v.value / v.denominator ∧ v.contains (v.value / v.denominator) = true ∨
      v.value / v.denominator + 1 ≤ d ∧ v.contains (v.value / v.denominator + 1) = true := by
  have hfloor := Nat.div_mul_le_self v.value v.denominator
  have hceil := Nat.lt_div_mul_add (a := v.value) h.denominator_pos
  obtain hlt | hle := Nat.lt_or_ge (v.value / v.denominator) d
  · refine .inr ⟨hlt, h.contains_of_between hd (.inr ⟨hlt, ?_⟩)⟩
    rw [Nat.add_mul, Nat.one_mul]
    omega
  · exact .inl ⟨hle, h.contains_of_between hd (.inl ⟨hle, hfloor⟩)⟩

/-- If no integer is found there is none in the interval. -/
theorem Inside.contains_eq_false (hnone : v.nearest? = none) (d : Nat) : v.contains d = false := by
  rw [Bool.eq_false_iff]
  intro hd
  have hneighbour := h.neighbour_of_contains hd
  simp only [nearest?] at hnone
  grind

/-- The integer that is found lies in the interval, and no other one there is nearer. -/
theorem Inside.contains_and_le_distance (hsome : v.nearest? = some c) :
    v.contains c = true ∧ ∀ d, v.contains d = true → v.distance c ≤ v.distance d := by
  have hsplit := Nat.div_add_mod' v.value v.denominator
  have hremainder := Nat.mod_lt v.value h.denominator_pos
  have hfloor : v.distance (v.value / v.denominator) = v.value % v.denominator := by
    unfold distance
    omega
  have hceil : v.distance (v.value / v.denominator + 1) =
      v.denominator - v.value % v.denominator := by
    unfold distance
    rw [Nat.add_mul, Nat.one_mul]
    omega
  have hbelow {d : Nat} (hd : d ≤ v.value / v.denominator) :
      v.distance (v.value / v.denominator) ≤ v.distance d := by
    have hle := Nat.mul_le_mul_right v.denominator hd
    unfold distance
    omega
  have habove {d : Nat} (hd : v.value / v.denominator + 1 ≤ d) :
      v.distance (v.value / v.denominator + 1) ≤ v.distance d := by
    have hle := Nat.mul_le_mul_right v.denominator hd
    rw [hceil]
    rw [Nat.add_mul, Nat.one_mul] at hle
    unfold distance
    omega
  -- The other neighbour may be as near only if it lies in the interval, where the tie is decided.
  obtain ⟨rfl, hc, htie⟩ | ⟨rfl, hc, htie⟩ := nearest?_eq_some hsome
  · refine ⟨hc, fun d hd => ?_⟩
    obtain ⟨hle, -⟩ | ⟨hle, hnext⟩ := h.neighbour_of_contains hd
    · exact hbelow hle
    · have hfar := habove hle
      have hnear := htie hnext
      omega
  · refine ⟨hc, fun d hd => ?_⟩
    obtain ⟨hle, hnext⟩ | ⟨hle, -⟩ := h.neighbour_of_contains hd
    · have hfar := hbelow hle
      have hnear := htie hnext
      omega
    · exact habove hle

end Nearest

/-- Tries the grids of the multiples of `10 ^ (bottom + n)`, `10 ^ (bottom + n - 1)` and so on.
The value itself is taken to lie on the last grid, that of `10 ^ bottom`. -/
def coarsest (v : Rounding) (bottom : Int) : Nat → Digits
  | 0 =>
    let v := v.inUnitsOf bottom
    ⟨v.value / v.denominator, bottom⟩
  | n + 1 =>
    match (v.inUnitsOf (bottom + (n + 1))).nearest? with
    | some c => ⟨c, bottom + (n + 1)⟩
    | none => v.coarsest bottom n

/-- The decimal number is as short as the interval allows: it lies in the interval, no number of its
own grid that does is nearer to the value, and the interval holds no number of a coarser grid. -/
structure IsShortest (v : Rounding) (d : Digits) : Prop where
  contains : (v.inUnitsOf d.exponent).contains d.coefficient = true
  nearest : ∀ c, (v.inUnitsOf d.exponent).contains c = true →
    (v.inUnitsOf d.exponent).distance d.coefficient ≤ (v.inUnitsOf d.exponent).distance c
  coarser : ∀ k, d.exponent < k → ∀ c, (v.inUnitsOf k).contains c = false

/-- The first grid that has a number in the interval is the coarsest one, if the search starts above
the interval. The last grid has the value itself. -/
theorem Inside.isShortest_coarsest {v : Rounding} (h : v.Inside) {bottom : Int}
    (hexact : (v.inUnitsOf bottom).denominator ∣ (v.inUnitsOf bottom).value) {n : Nat}
    (habove : ∀ k, bottom + n < k → ∀ c, (v.inUnitsOf k).contains c = false) :
    v.IsShortest (v.coarsest bottom n) := by
  induction n with
  | zero =>
    obtain ⟨-, hlower, hupper, -⟩ := h.inUnitsOf bottom
    have hvalue := Nat.div_mul_cancel hexact
    constructor
    · apply contains_of_lt <;> simpa only [coarsest, hvalue]
    · intro c _
      simp only [coarsest, distance, hvalue]
      omega
    · intro k hk
      exact habove k (by simpa [coarsest] using hk)
  | succ n ih =>
    have hunits := h.inUnitsOf (bottom + (n + 1))
    unfold coarsest
    split
    case h_1 c hc =>
      obtain ⟨hcontains, hnearest⟩ := hunits.contains_and_le_distance hc
      exact ⟨hcontains, hnearest, habove⟩
    case h_2 hnone =>
      apply ih
      intro k hk
      by_cases hlast : k = bottom + (n + 1)
      · rw [hlast]
        exact hunits.contains_eq_false hnone
      · exact habove k (by push_cast; omega)

/-- No number of a grid that is coarser than the digits of the interval's upper end lies in it. -/
theorem Inside.contains_eq_false_of_length_lt {v : Rounding} (h : v.Inside) {k : Int}
    (hk : (Nat.toDigits 10 (v.upper / v.denominator)).length < k) (c : Nat) :
    (v.inUnitsOf k).contains c = false := by
  obtain ⟨n, rfl⟩ := Int.eq_ofNat_of_zero_le (Int.le_trans (Int.natCast_nonneg _) (Int.le_of_lt hk))
  have hdigits : v.upper / v.denominator < Nat.pow 10 n :=
    (Nat.length_toDigits_le_iff (by decide) (by omega)).1 (by omega)
  have hupper : v.upper < v.denominator * Nat.pow 10 n := by
    rw [Nat.mul_comm]
    exact (Nat.div_lt_iff_lt_mul h.denominator_pos).1 hdigits
  rw [Bool.eq_false_iff]
  intro hc
  obtain ⟨hle, hge⟩ := le_of_contains hc
  have hone : Nat.pow 10 0 = 1 := rfl
  simp only [Rounding.inUnitsOf, Int.toNat_natCast, Int.toNat_neg_natCast, hone,
    Nat.mul_one] at hle hge
  have hlower := h.lower_pos
  cases c with
  | zero =>
    -- Zero lies below the interval.
    omega
  | succ c =>
    -- Every other point of the grid lies above it.
    have hunit : v.denominator * Nat.pow 10 n ≤ (c + 1) * (v.denominator * Nat.pow 10 n) :=
      Nat.le_mul_of_pos_left _ c.succ_pos
    omega

/-- A double is an integer multiple of its unit `2 ^ q`, and so of `10 ^ q` if that is smaller
than one. -/
theorem denominator_dvd_value (m : Nat) (q : Int) :
    ((ofBinary m q).inUnitsOf (min q 0)).denominator ∣
      ((ofBinary m q).inUnitsOf (min q 0)).value := by
  have hzero : (min q 0).toNat = 0 := by omega
  have hone : Nat.pow 10 0 = 1 := rfl
  simp only [Rounding.inUnitsOf, ofBinary, hzero, hone, Nat.one_shiftLeft, Nat.mul_one]
  obtain hq | hq := Int.le_total 0 q
  · -- The unit is a whole number.
    have htwo : (2 - q).toNat ≤ 2 := by omega
    have hfour : Nat.pow 2 (2 - q).toNat ∣ 4 := Nat.pow_dvd_pow 2 htwo
    rw [Nat.mul_assoc, Nat.mul_assoc]
    exact Nat.dvd_mul_right_of_dvd hfour _
  · -- The unit is a fraction, and its denominator divides the power of ten.
    have hsplit : (2 - q).toNat = 2 + (-min q 0).toNat := by omega
    have hnone : (q - 2).toNat = 0 := by omega
    have hten (n : Nat) : 2 ^ n ∣ Nat.pow 10 n := ⟨5 ^ n, Nat.mul_pow 2 5 n⟩
    rw [hsplit, hnone, Nat.pow_add, Nat.pow_zero, Nat.mul_one]
    exact Nat.mul_dvd_mul (Nat.dvd_mul_right _ _) (hten _)

end Rounding

/-- The decimal number with the fewest digits among those that round to the positive double
`m * 2 ^ q`, and of these the nearest. The coarsest grid with a point that rounds to the double
carries the fewest digits. The search starts above every number that rounds to it, and ends where
the double is itself an integer multiple: at `10 ^ q`, or at one. -/
def shortest (m : Nat) (q : Int) : Digits :=
  let v := Rounding.ofBinary m q
  let bottom := min q 0
  let top := (Nat.toDigits 10 (v.upper / v.denominator)).length
  v.coarsest bottom (top - bottom).toNat

/-- The digits that are found for a positive double lie in the interval of the numbers that round to
it. None that have the same exponent and lie there are nearer, and none that have a larger exponent
lie there at all. -/
theorem isShortest_shortest {m : Nat} (hm : 0 < m) (q : Int) :
    (Rounding.ofBinary m q).IsShortest (shortest m q) := by
  have h := Rounding.inside_ofBinary hm q
  apply h.isShortest_coarsest (Rounding.denominator_dvd_value m q)
  intro k hk
  apply h.contains_eq_false_of_length_lt
  omega

example : shortest 5960464477539062 24 = ⟨1, 23⟩ := by decide +kernel
example : shortest 1 (-1074) = ⟨5, -324⟩ := by decide +kernel

end Directional.Decimal
