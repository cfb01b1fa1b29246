namespace Directional

/-- The operations of a ring, without its laws. Values and their products need no more. -/
class Arithmetic (K : Type) extends Zero K, One K, Add K, Sub K, Mul K, Neg K, IntCast K

/-- Operations, comparisons and primitive functions of a number type, without laws. Comparisons
answer `Bool`, so that a value which compares with nothing (a NaN) is expressible. Whatever is
defined over them means one fixed sequence of operations: it runs on `Float`, and theorems may read
it over an exact field. -/
class Scalar (K : Type) extends Arithmetic K, Div K where
  le : K → K → Bool
  lt : K → K → Bool
  same : K → K → Bool
  isFinite : K → Bool
  abs : K → K
  sqrt : K → K
  cbrt : K → K
  sin : K → K
  cos : K → K
  tan : K → K
  asin : K → K
  acos : K → K
  exp : K → K
  exp2 : K → K
  ln : K → K
  log10 : K → K
  log2 : K → K
  /-- The power with a real exponent. -/
  pow : K → K → K
  /-- The natural logarithm of two. -/
  ln2 : K
  /-- The natural logarithm of ten. -/
  ln10 : K
  /-- The distance from one to the next larger number. -/
  epsilon : K

namespace Scalar

/-- The number `n`. -/
abbrev int {K : Type} [Scalar K] (n : Int) : K :=
  n

instance : Scalar Float where
  zero := 0
  one := 1
  intCast := Float.ofInt
  le x y := x ≤ y
  lt x y := x < y
  same x y := x == y
  isFinite := Float.isFinite
  abs := Float.abs
  sqrt := Float.sqrt
  cbrt := Float.cbrt
  sin := Float.sin
  cos := Float.cos
  tan := Float.tan
  asin := Float.asin
  acos := Float.acos
  exp := Float.exp
  exp2 := Float.exp2
  ln := Float.log
  log10 := Float.log10
  log2 := Float.log2
  pow := Float.pow
  ln2 := 0.693147180559945309417232121458176568
  ln10 := 2.30258509299404568401799145468436421
  epsilon := Float.scaleB 1 (-52)

instance : Scalar Float32 where
  zero := 0
  one := 1
  intCast := Float32.ofInt
  le x y := x ≤ y
  lt x y := x < y
  same x y := x == y
  isFinite := Float32.isFinite
  abs := Float32.abs
  sqrt := Float32.sqrt
  cbrt := Float32.cbrt
  sin := Float32.sin
  cos := Float32.cos
  tan := Float32.tan
  asin := Float32.asin
  acos := Float32.acos
  exp := Float32.exp
  exp2 := Float32.exp2
  ln := Float32.log
  log10 := Float32.log10
  log2 := Float32.log2
  pow := Float32.pow
  ln2 := 0.693147180559945309417232121458176568
  ln10 := 2.30258509299404568401799145468436421
  epsilon := Float32.scaleB 1 (-23)

end Scalar

end Directional
