import Directional.DomainError
import Directional.Matrix.Inner

namespace Directional

open Scalar (int)

variable {K : Type} [Scalar K] {n r c : Nat}

/-- The trace at its current matrix, of which only the trace is kept. -/
structure Trace (K : Type) (n : Nat) where
  value : K

/-- The trace of a matrix of finite entries. -/
def Trace.at? (a : Mat K n n) : Except (DomainError K) (Trace K n) := do
  DomainError.checkAllFinite "trace" a.entries
  return ⟨a.trace⟩

/-- The second principal invariant at its current matrix. -/
structure SecondInvariant (K : Type) (n : Nat) where
  matrix : Mat K n n
  trace : K
  value : K

namespace SecondInvariant

/-- Half the difference of the squared trace and the trace of the square, for a matrix of finite
entries. -/
def at? (a : Mat K n n) : Except (DomainError K) (SecondInvariant K n) := do
  DomainError.checkAllFinite "second invariant" a.entries
  let trace := a.trace
  return ⟨a, trace, (1 / int 2) * (trace * trace - (a * a).trace)⟩

/-- The bilinear form of which the invariant is half the square, at two matrices with the given
traces. -/
def mixed (a : Mat K n n) (traceA : K) (b : Mat K n n) : K :=
  traceA * b.trace - (a * b).trace

/-- The first derivative along a direction. -/
def first (l : SecondInvariant K n) (da : Mat K n n) : K :=
  mixed l.matrix l.trace da

/-- The second derivative along two directions. -/
def second (da db : Mat K n n) : K :=
  mixed da da.trace db

end SecondInvariant

/-- The strain tensor of a deformation gradient: its transpose times itself. -/
structure Strain (K : Type) (n : Nat) where
  gradient : Mat K n n
  value : Mat K n n

namespace Strain

/-- The strain of a deformation gradient of finite entries. -/
def at? (f : Mat K n n) : Except (DomainError K) (Strain K n) := do
  DomainError.checkAllFinite "strain" f.entries
  return ⟨f, f.transposeMul f⟩

/-- The symmetric bilinear form of which the strain is half the square. -/
def mixed (a b : Mat K n n) : Mat K n n :=
  a.transposeMul b + b.transposeMul a

/-- The first derivative along a direction. -/
def first (l : Strain K n) (df : Mat K n n) : Mat K n n :=
  mixed df l.gradient

/-- The second derivative along two directions. -/
def second (df dg : Mat K n n) : Mat K n n :=
  mixed df dg

end Strain

/-- The squared Frobenius norm at its current matrix. -/
structure SquaredNorm (K : Type) (r c : Nat) where
  matrix : Mat K r c
  value : K

namespace SquaredNorm

/-- The sum of the squares of the entries of a matrix, which are finite. -/
def at? (a : Mat K r c) : Except (DomainError K) (SquaredNorm K r c) := do
  DomainError.checkAllFinite "frobenius" a.entries
  return ⟨a, a.normSquared⟩

/-- The symmetric bilinear form of which the squared norm is half the square. -/
def mixed (a b : Mat K r c) : K :=
  int 2 * a.inner b

/-- The first derivative along a direction. -/
def first (l : SquaredNorm K r c) (da : Mat K r c) : K :=
  mixed l.matrix da

/-- The second derivative along two directions. -/
def second (da db : Mat K r c) : K :=
  mixed da db

end SquaredNorm

end Directional
