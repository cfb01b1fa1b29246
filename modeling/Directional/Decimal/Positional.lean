import Directional.Decimal.Shortest

namespace Directional.Decimal

/-- A decimal number without an exponent: zeros fill the places up to the point, and a point is
written only in front of decimal places. -/
def Digits.positional (d : Digits) : String :=
  let digits := Nat.toDigits 10 d.coefficient
  if 0 ≤ d.exponent then
    String.ofList (digits ++ List.replicate d.exponent.toNat '0')
  else
    let places := (-d.exponent).toNat
    let digits := List.replicate (places + 1 - digits.length) '0' ++ digits
    String.ofList (digits.take (digits.length - places) ++ '.' :: digits.drop (digits.length - places))

/-- The shortest text that reads back as the double, in positional notation. The sign of a negative
zero is written. -/
def Binary.text : Binary → String
  | .nan => "NaN"
  | .infinite negative => if negative then "-inf" else "inf"
  | .finite negative m q =>
    let digits := if m = 0 then "0" else (shortest m q).positional
    if negative then "-" ++ digits else digits

example : (Digits.mk 125 (-2)).positional = "1.25" := by cbv
example : (Digits.mk 3 (-3)).positional = "0.003" := by cbv
example : (Digits.mk 12 3).positional = "12000" := by cbv
example : (Binary.finite true 0 (-1074)).text = "-0" := by cbv

end Directional.Decimal
