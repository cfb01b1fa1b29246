import Mathlib
import Directional.Proofs.Rounded.Unpacked

namespace Directional.Binary64

open Float.Model Float.Model.UnpackedFloat Scalar

/-- The leading one of a normal mantissa is worth `2 ^ 52`. -/
theorem toNat_append_one (m : BitVec 52) : (1#1 ++ m).toNat = 2 ^ 52 + m.toNat := by
  rw [BitVec.toNat_append, ← Nat.shiftLeft_add_eq_or_of_lt m.isLt]
  rfl

theorem exponentBias_eq : Format.binary64.exponentBias = 1023 :=
  rfl

section Unpack

variable {b : BitVec Format.binary64.numBits}

/-- A word with no exponent and no mantissa is a zero. -/
theorem unpack_of_zero (he : unpackExponent b = 0#_) (hm : unpackMantissa b = 0#_) :
    UnpackedFloat.unpack Format.binary64 b = .zero (.ofBitVec (unpackSign b)) := by
  have hne : unpackExponent b ≠ -1#_ := by
    rw [he]
    decide
  rw [UnpackedFloat.unpack, if_neg hne, if_pos he, dif_pos hm]

/-- A word with the largest exponent is no finite number. -/
theorem isFinite_unpack_of_special (he : unpackExponent b = -1#_) :
    (UnpackedFloat.unpack Format.binary64 b).isFinite = false := by
  rw [UnpackedFloat.unpack, if_pos he]
  split <;> rfl

/-- A word with no exponent has its mantissa at the smallest unit. -/
theorem unpack_of_subnormal (he : unpackExponent b = 0#_) (hm : 0 < (unpackMantissa b).toNat) :
    UnpackedFloat.unpack Format.binary64 b =
      .finite (.ofBitVec (unpackSign b)) (unpackMantissa b).toNat (-1074) hm := by
  have hmantissa : unpackMantissa b ≠ 0#_ := by
    intro hzero
    rw [hzero] at hm
    exact lt_irrefl 0 hm
  have hne : unpackExponent b ≠ -1#_ := by
    rw [he]
    decide
  rw [UnpackedFloat.unpack, if_neg hne, if_pos he, dif_neg hmantissa]
  congr 1
  rw [he, exponentBias_eq]
  rfl

/-- Every other word has a leading one. -/
theorem unpack_of_normal (hmin : 0 < (unpackExponent b).toNat)
    (hmax : (unpackExponent b).toNat < 2047) :
    UnpackedFloat.unpack Format.binary64 b =
      .finite (.ofBitVec (unpackSign b)) (2 ^ 52 + (unpackMantissa b).toNat)
        ((unpackExponent b).toNat - 1075) (Nat.add_pos_left (Nat.two_pow_pos 52) _) := by
  have hne : unpackExponent b ≠ -1#_ := by
    intro h
    rw [h] at hmax
    exact absurd hmax (by decide)
  have hzero : unpackExponent b ≠ 0#_ := by
    intro h
    rw [h] at hmin
    exact absurd hmin (by decide)
  rw [UnpackedFloat.unpack, if_neg hne, if_neg hzero]
  congr 1
  exact toNat_append_one _

end Unpack

/-- What is unpacked to a finite number is one of the format. -/
theorem canonical_unpack {b : BitVec Format.binary64.numBits}
    (h : (UnpackedFloat.unpack Format.binary64 b).isFinite = true) :
    Canonical (UnpackedFloat.unpack Format.binary64 b) := by
  have hexponent : (unpackExponent b).toNat < 2 ^ 11 := (unpackExponent b).isLt
  have hmantissa : (unpackMantissa b).toNat < 2 ^ 52 := (unpackMantissa b).isLt
  obtain hzero | hpos := (unpackExponent b).toNat.eq_zero_or_pos
  · have he : unpackExponent b = 0#_ := BitVec.eq_of_toNat_eq hzero
    obtain hm | hm := (unpackMantissa b).toNat.eq_zero_or_pos
    · rw [unpack_of_zero he (BitVec.eq_of_toNat_eq hm)]
      exact .zero _
    · rw [unpack_of_subnormal he hm]
      exact .finite _ _ _ _ (by omega) le_rfl (.inl rfl)
  · obtain hlt | hge := Nat.lt_or_ge (unpackExponent b).toNat 2047
    · rw [unpack_of_normal hpos hlt]
      exact .finite _ _ _ _ (by omega) (by omega) (.inr (by omega))
    · have hmax : (unpackExponent b).toNat = (-1#11).toNat := by
        change _ = 2047
        omega
      rw [isFinite_unpack_of_special (BitVec.eq_of_toNat_eq hmax)] at h
      cases h

/-- The sign is packed without loss. -/
theorem ofBitVec_unpackSign {spec : Format} (s : Sign) (e : BitVec spec.exponentBits)
    (m : BitVec spec.mantissaBitsWithoutImplicit) :
    Sign.ofBitVec (unpackSign (packComponents spec s e m)) = s := by
  rw [unpackSign_packComponents, Sign.ofBitVec_toBitVec]

/-- The largest exponent of a finite number is below the one that is special. -/
theorem exponent_fits {e : ℤ} (hmax : e ≤ 971) :
    ¬2 ^ Format.binary64.exponentBits ≤ (e + Format.binary64.exponentBias +
      Format.binary64.mantissaBitsWithoutImplicit).toNat + 1 := by
  rw [exponentBias_eq]
  change ¬2 ^ 11 ≤ (e + 1023 + 52).toNat + 1
  omega

/-- A small number is packed without loss. -/
theorem unpack_pack_subnormal (s : Sign) {m : ℕ} (hm : 0 < m) (hbits : m < 2 ^ 52) :
    UnpackedFloat.unpack Format.binary64
      (UnpackedFloat.pack Format.binary64 (.finite s m (-1074) hm)) = .finite s m (-1074) hm := by
  have hlog : m.log2 + 1 ≠ Format.binary64.mantissaBits := by
    have h : m.log2 < 52 := (Nat.log2_lt hm.ne').2 hbits
    change m.log2 + 1 ≠ 53
    omega
  rw [UnpackedFloat.pack, if_neg (exponent_fits (by norm_num)), if_neg hlog]
  set b := packComponents Format.binary64 s 0#_ (BitVec.ofNat _ m) with hb
  have hmantissa : (unpackMantissa b).toNat = m := by
    rw [hb, unpackMantissa_packComponents]
    exact Nat.mod_eq_of_lt hbits
  have hexponent : unpackExponent b = 0#_ := unpackExponent_packComponents
  have hsign : .ofBitVec (unpackSign b) = s := ofBitVec_unpackSign s _ _
  rw [unpack_of_subnormal hexponent (by rwa [hmantissa]), UnpackedFloat.finite.injEq]
  exact ⟨hsign, hmantissa, rfl⟩

/-- A number of full length is packed without loss. -/
theorem unpack_pack_normal (s : Sign) {m : ℕ} {e : ℤ} (hm : 0 < m) (hlarge : 2 ^ 52 ≤ m)
    (hbits : m < 2 ^ 53) (hmin : -1074 ≤ e) (hmax : e ≤ 971) :
    UnpackedFloat.unpack Format.binary64 (UnpackedFloat.pack Format.binary64 (.finite s m e hm)) =
      .finite s m e hm := by
  have hlog : m.log2 + 1 = Format.binary64.mantissaBits := by
    have h : m.log2 = 52 := (Nat.log2_eq_iff hm.ne').2 ⟨hlarge, hbits⟩
    change m.log2 + 1 = 53
    omega
  rw [UnpackedFloat.pack, if_neg (exponent_fits hmax), if_pos hlog]
  set b := packComponents Format.binary64 s (BitVec.ofNat _
    (e + Format.binary64.exponentBias + Format.binary64.mantissaBitsWithoutImplicit).toNat)
    (BitVec.ofNat _ m) with hb
  -- The leading bit of the mantissa is not stored.
  have hmantissa : (unpackMantissa b).toNat = m - 2 ^ 52 := by
    rw [hb, unpackMantissa_packComponents]
    change m % 2 ^ 52 = m - 2 ^ 52
    rw [Nat.mod_eq_sub_mod hlarge, Nat.mod_eq_of_lt (by omega)]
  have hexponent : (unpackExponent b).toNat = (e + 1075).toNat := by
    rw [hb, unpackExponent_packComponents]
    change (e + 1023 + 52).toNat % 2 ^ 11 = (e + 1075).toNat
    omega
  have hsign : .ofBitVec (unpackSign b) = s := ofBitVec_unpackSign s _ _
  rw [unpack_of_normal (by omega) (by omega), UnpackedFloat.finite.injEq]
  exact ⟨hsign, by omega, by omega⟩

/-- A number of the format whose exponent is not too large is packed without loss. -/
theorem unpack_pack {u : UnpackedFloat} (hu : Canonical u) (hbound : |toRat u| ≤ 2 ^ 200) :
    (Float.Model.pack u).unpack = u := by
  cases hu with
  | zero s => cases s <;> rfl
  | finite s m e hm hbits hmin hnormal =>
    have hone : (1 : ℚ) ≤ m := by exact_mod_cast hm
    have hpow : (2 : ℚ) ^ e ≤ 2 ^ (200 : ℤ) := by
      rw [toRat, abs_signed, abs_of_nonneg (by positivity)] at hbound
      exact (le_mul_of_one_le_left (by positivity) hone).trans hbound
    have hmax : e ≤ 200 := (zpow_le_zpow_iff_right₀ one_lt_two).1 hpow
    obtain hlt | hlarge := Nat.lt_or_ge m (2 ^ 52)
    · obtain rfl := hnormal.resolve_right (by omega)
      exact unpack_pack_subnormal s hm hlt
    · exact unpack_pack_normal s hm hlarge hbits hmin (by omega)

instance : Valued Float where
  value x := toRat x.toModel.unpack

/-- What an operation rounds to is packed without loss, as long as it does not overflow. -/
theorem approximates_pack {u : UnpackedFloat} {q : ℚ} (h : Canonical u ∧ Rounds q (toRat u))
    (hbound : |q| ≤ 2 ^ 200) : Approximates (Float.ofModel (.pack u)) q := by
  obtain ⟨hcanonical, hrounds⟩ := h
  have hunpack : (Float.Model.pack u).unpack = u :=
    unpack_pack hcanonical (hrounds.abs_le_two_zpow (e := 200) (by norm_num) hbound)
  refine ⟨?_, ?_⟩
  · change (Float.Model.pack u).unpack.isFinite = true
    rw [hunpack]
    cases hcanonical <;> rfl
  · change Rounds q (toRat (Float.Model.pack u).unpack)
    rwa [hunpack]

/-- A whole number of up to 53 bits is packed as itself. -/
theorem denotes_pack {u : UnpackedFloat} {n : ℤ} (h : Canonical u ∧ Rounds n (toRat u))
    (hn : |n| ≤ 2 ^ 53) : Denotes (Float.ofModel (.pack u)) n := by
  have hbound : |(n : ℚ)| ≤ 2 ^ 200 := by
    have hle : |(n : ℚ)| ≤ 2 ^ 53 := by exact_mod_cast hn
    linarith
  exact (approximates_pack h hbound).denotes rfl hn

/-- A finite number is unpacked to a number of the format. -/
theorem canonical_of_isFinite {x : Float} (hx : isFinite x = true) : Canonical x.toModel.unpack :=
  canonical_unpack hx

/-- Words of up to 53 bits are whole numbers of the format. -/
theorem denotes_toFloat {n : UInt64} (hn : n.toNat < 2 ^ 53) : Denotes n.toFloat n.toNat := by
  have hspec := normalize_spec n.toNat 0
  rw [zpow_zero, mul_one] at hspec
  exact denotes_pack hspec (by rw [abs_le]; omega)

/-- A whole number is converted by way of a decimal fraction, with a power of ten that is one. -/
theorem denotes_ofNat {n : ℕ} (hn : n < 2 ^ 53) : Denotes (Float.ofNat n) n := by
  have hword : n.toUInt64.toNat = n := Nat.mod_eq_of_lt (by omega)
  have hn' : Denotes n.toUInt64.toFloat n.toUInt64.toNat := denotes_toFloat (by omega)
  have hpower : (Float.ofBits 0x3FF0000000000000).toModel.unpack =
      .finite .positive (2 ^ 52) (-52) (by decide) := rfl
  have hone : value (Float.ofBits 0x3FF0000000000000) = 1 := by
    change toRat (Float.ofBits 0x3FF0000000000000).toModel.unpack = 1
    rw [hpower]
    norm_num [toRat, signed]
  have hspec := mul_spec (canonical_of_isFinite hn'.isFinite)
    (canonical_of_isFinite (x := Float.ofBits 0x3FF0000000000000) rfl)
  have hproduct : Float.ofNat n = n.toUInt64.toFloat * Float.ofBits 0x3FF0000000000000 :=
    dif_pos ⟨hn, Nat.zero_le 22⟩
  change _ ∧ Rounds (value n.toUInt64.toFloat * value (Float.ofBits 0x3FF0000000000000)) _ at hspec
  rw [hn'.value_eq, hone, mul_one, hword, ← Int.cast_natCast] at hspec
  rw [hproduct, ← Int.cast_natCast]
  exact denotes_pack hspec (by rw [abs_le]; omega)

/-- Integers of up to 31 bits are numbers of the format. -/
theorem denotes_ofInt {n : ℤ} (hn : |n| ≤ 2 ^ 31) : Denotes (Float.ofInt n) n := by
  have hbounds := abs_le.1 hn
  cases n with
  | ofNat n =>
    rw [Int.ofNat_eq_natCast] at hbounds
    exact denotes_ofNat (by omega)
  | negSucc n =>
    have hsucc : Denotes (Float.ofNat (n + 1)) (n + 1 : ℕ) := denotes_ofNat (by omega)
    obtain ⟨hcanonical, hneg⟩ := neg_spec (canonical_of_isFinite hsucc.isFinite)
    have hvalue : toRat (Float.ofNat (n + 1)).toModel.unpack = (n + 1 : ℕ) := hsucc.value_eq
    have hcast : ((Int.negSucc n : ℤ) : ℚ) = -(n + 1 : ℕ) := Int.cast_negSucc n
    rw [hvalue, ← hcast] at hneg
    refine denotes_pack ⟨hcanonical, ?_⟩ (hn.trans (by norm_num))
    rw [hneg]
    exact .refl _

/-- Numbers compare with zero as the rational numbers do. -/
theorem compare_zero {u : UnpackedFloat} (h : Canonical u) (s : Sign) :
    u.compare (.zero s) = some (compare (toRat u) 0) := by
  cases h with
  | zero s' =>
    change some .eq = some (compare (0 : ℚ) 0)
    rw [compare_eq_iff_eq.2 rfl]
  | finite s' m e hm =>
    have hpos : (0 : ℚ) < m * 2 ^ e := by positivity
    cases s' with
    | negative =>
      change some .lt = some (compare (-((m : ℚ) * 2 ^ e)) 0)
      rw [compare_lt_iff_lt.2 (neg_neg_of_pos hpos)]
    | positive =>
      change some .gt = some (compare ((m : ℚ) * 2 ^ e) 0)
      rw [compare_gt_iff_gt.2 hpos]

instance : Rounded Float where
  zero := by
    have h := denotes_ofNat (n := 0) (by norm_num)
    rwa [Nat.cast_zero] at h
  one := by
    have h := denotes_ofNat (n := 1) (by norm_num)
    rwa [Nat.cast_one] at h
  int := denotes_ofInt
  sub hx hy hbound :=
    approximates_pack (sub_spec (canonical_of_isFinite hx) (canonical_of_isFinite hy)) hbound
  mul hx hy hbound :=
    approximates_pack (mul_spec (canonical_of_isFinite hx) (canonical_of_isFinite hy)) hbound
  div hx hy hne hbound :=
    approximates_pack (div_spec (canonical_of_isFinite hx) (canonical_of_isFinite hy) hne) hbound
  lt_zero {x} hx := by
    have hcompare := compare_zero (canonical_of_isFinite hx) .positive
    have hlt : x < 0 ↔ (x.toModel.unpack.compare (.zero .positive) == some .lt) = true :=
      decide_eq_true_iff
    change decide (x < 0) = true ↔ toRat x.toModel.unpack < 0
    rw [decide_eq_true_iff, hlt, hcompare, beq_iff_eq, Option.some_inj, compare_lt_iff_lt]
  same_zero {x} hx := by
    have hcompare := compare_zero (canonical_of_isFinite hx) .positive
    change (x.toModel.unpack.compare (.zero .positive) == some .eq) = true ↔
      toRat x.toModel.unpack = 0
    rw [hcompare, beq_iff_eq, Option.some_inj, compare_eq_iff_eq]

end Directional.Binary64
