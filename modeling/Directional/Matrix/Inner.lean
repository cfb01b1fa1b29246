import Directional.Matrix.Basic

namespace Directional.Mat

variable {K : Type} [Arithmetic K] {r c k : Nat}

/-- The sum of the entries of a column whose row number leaves the remainder `lane` on division
by eight, over the full blocks of eight rows. -/
def laneSum (x : Fin r → K) (lane : Fin 8) : K :=
  Fin.foldl (r / 8) (fun total b => total + x ⟨8 * b.val + lane.val, by omega⟩) 0

/-- Adds the entries of a column to `total`: the full blocks of eight rows as eight partial sums,
taken in pairs four apart, then the remaining rows one by one. -/
def addColumn (total : K) (x : Fin r → K) : K :=
  let total := total + (laneSum x 0 + laneSum x 4)
  let total := total + (laneSum x 1 + laneSum x 5)
  let total := total + (laneSum x 2 + laneSum x 6)
  let total := total + (laneSum x 3 + laneSum x 7)
  Fin.foldl (r % 8) (fun total i => total + x ⟨8 * (r / 8) + i.val, by omega⟩) total

/-- The sum of the entries of a column that stands alone. -/
def columnSum : {r : Nat} → (Fin r → K) → K
  | 2, x => x 0 + x 1
  | 3, x => x 0 + x 1 + x 2
  | 4, x => (x 0 + x 2) + (x 1 + x 3)
  | _, x => addColumn 0 x

/-- The sum of the entries in all places of an array with `r` rows and `c` columns, column by
column. A column of eight rows or more is summed in eight interleaved partial sums, and single
columns of two, three or four rows are summed pairwise. -/
def entrySum : {c : Nat} → (Fin r → Fin c → K) → K
  | 1, x => columnSum fun i => x i 0
  | c, x => Fin.foldl c (fun total j => addColumn total fun i => x i j) 0

/-- The sum of the products of the entries in the same place. -/
def inner (a b : Mat K r c) : K :=
  entrySum fun i j => a.get i j * b.get i j

/-- The inner product of two columns. -/
def columnInner (a : Mat K r c) (i : Fin c) (b : Mat K r k) (j : Fin k) : K :=
  columnSum fun l => a.get l i * b.get l j

/-- The sum of the squares of all entries, as a sum of column inner products. -/
def normSquared (a : Mat K r c) : K :=
  Fin.foldl c (fun total j => total + a.columnInner j a j) 0

/-- The product of the transpose of `a` with `b`: every column of `a` with every column of `b`. -/
def transposeMul (a : Mat K r c) (b : Mat K r k) : Mat K c k :=
  ofFn fun i j => a.columnInner i b j

/-- An entry of the product of a transpose with a matrix. -/
theorem get_transposeMul (a : Mat K r c) (b : Mat K r k) (i : Fin c) (j : Fin k) :
    (a.transposeMul b).get i j = a.columnInner i b j :=
  get_ofFn _ i j

end Directional.Mat
