import Directional.Matrix.Basic

namespace Directional.Mat

variable {K : Type} {r c : Nat}

/-- The matrix `a` with its column `j` replaced by that of `b`. -/
def withColumn (a : Mat K r c) (j : Fin c) (b : Mat K r c) : Mat K r c :=
  ofFn fun i k => if k = j then b.get i k else a.get i k

/-- The entries of the other columns are those of `a`. -/
@[simp] theorem get_withColumn (a : Mat K r c) (j : Fin c) (b : Mat K r c) (i : Fin r) (k : Fin c) :
    (a.withColumn j b).get i k = if k = j then b.get i k else a.get i k :=
  get_ofFn _ i k

variable [Arithmetic K]

/-- The determinant of a two-dimensional matrix. -/
def det₂ (a : Mat K 2 2) : K :=
  a.get 0 0 * a.get 1 1 - a.get 0 1 * a.get 1 0

/-- The symmetric bilinear form of which the two-dimensional determinant is half the square:
`a` and `b` provide one column each, in both ways. -/
def mixedDet₂ (a b : Mat K 2 2) : K :=
  a.get 0 0 * b.get 1 1 + b.get 0 0 * a.get 1 1 - a.get 0 1 * b.get 1 0 - b.get 0 1 * a.get 1 0

/-- The determinant of a three-dimensional matrix: the first column times the cross product of the
other two. -/
def det₃ (a : Mat K 3 3) : K :=
  let y := fun i => a.get i 1
  let z := fun i => a.get i 2
  a.get 0 0 * (y 1 * z 2 - y 2 * z 1) + a.get 1 0 * (y 2 * z 0 - y 0 * z 2) +
    a.get 2 0 * (y 0 * z 1 - y 1 * z 0)

/-- The sum of numbers from left to right. The sum of no numbers is the negative zero, which is
neutral even in front of a negative zero. -/
def total (xs : List K) : K :=
  xs.foldl (· + ·) (-0)

/-- The first derivative of the three-dimensional determinant at `a`. The determinant is linear in
each column, so the direction takes the place of one column. -/
def det₃First (a x : Mat K 3 3) : K :=
  total ([0, 1, 2].map fun i => det₃ (a.withColumn i x))

/-- The second derivative of the three-dimensional determinant at `a`: the directions take the
places of two different columns. -/
def det₃Second (a x y : Mat K 3 3) : K :=
  total ([(0, 1), (0, 2), (1, 0), (1, 2), (2, 0), (2, 1)].map fun (i, j) =>
    det₃ ((a.withColumn i x).withColumn j y))

/-- The third derivative of the three-dimensional determinant: the directions take the places of
all columns. The column of the first direction is the one that is left over. -/
def det₃Third (x y z : Mat K 3 3) : K :=
  total ([(1, 2), (2, 1), (0, 2), (2, 0), (0, 1), (1, 0)].map fun (j, k) =>
    det₃ ((x.withColumn j y).withColumn k z))

end Directional.Mat

namespace Directional

/-- The dimensions that have a determinant. -/
inductive Dimension : Nat → Type where
  | plane : Dimension 2
  | space : Dimension 3

namespace Dimension

variable {K : Type} [Arithmetic K]

/-- The determinant of a matrix. -/
def det : {n : Nat} → Dimension n → Mat K n n → K
  | _, plane, a => a.det₂
  | _, space, a => a.det₃

/-- The first derivative of the determinant at `a`. -/
def detFirst : {n : Nat} → Dimension n → (a x : Mat K n n) → K
  | _, plane, a, x => a.mixedDet₂ x
  | _, space, a, x => a.det₃First x

/-- The second derivative of the determinant at `a`. In the plane it is the same everywhere. -/
def detSecond : {n : Nat} → Dimension n → (a x y : Mat K n n) → K
  | _, plane, _, x, y => x.mixedDet₂ y
  | _, space, a, x, y => a.det₃Second x y

end Dimension

end Directional
