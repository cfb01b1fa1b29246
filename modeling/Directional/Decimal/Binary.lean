namespace Directional.Decimal

/-- What a double-precision number denotes: a sign, and a significand times a power of two. -/
inductive Binary where
  | nan
  | infinite (negative : Bool)
  /-- The number `significand * 2 ^ exponent`, with a minus sign if `negative`. -/
  | finite (negative : Bool) (significand : Nat) (exponent : Int)
  deriving DecidableEq

namespace Binary

/-- Reads the bit pattern of a double: one sign bit, eleven exponent bits, and fifty-two fraction
bits below a leading one that only the smallest numbers lack. -/
def ofBits (bits : UInt64) : Binary :=
  let negative := bits.toBitVec.msb
  let exponent := (bits.toBitVec.extractLsb 62 52).toNat
  let fraction := (bits.toBitVec.extractLsb 51 0).toNat
  if exponent = 2047 then
    if fraction = 0 then .infinite negative else .nan
  else if exponent = 0 then .finite negative fraction (-1074)
  else .finite negative ((1 <<< 52) + fraction) ((exponent : Int) - 1075)

/-- What the double `x` denotes. -/
def ofFloat (x : Float) : Binary :=
  ofBits x.toBits

end Binary

end Directional.Decimal
