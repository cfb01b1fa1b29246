namespace Directional

/-- A value is a number or a matrix with a fixed number of rows and columns. -/
inductive Shape where
  | scalar
  | matrix (rows columns : Nat)
  deriving DecidableEq

namespace Shape

/-- The shape of an `n` by `n` matrix. -/
abbrev square (n : Nat) : Shape :=
  .matrix n n

end Shape

end Directional
