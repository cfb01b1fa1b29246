import Directional.Scalar

namespace Directional

/-- The sizes of small matrices, for which index literals are written, are not zero. -/
instance neZero_two : @NeZero Nat Zero.ofOfNat0 2 := ⟨Nat.succ_ne_zero 1⟩
instance neZero_three : @NeZero Nat Zero.ofOfNat0 3 := ⟨Nat.succ_ne_zero 2⟩
instance neZero_four : @NeZero Nat Zero.ofOfNat0 4 := ⟨Nat.succ_ne_zero 3⟩

/-- A matrix with `r` rows and `c` columns, stored row by row. Entries are computed once and stored,
and every operation is described by its entries. -/
structure Mat (K : Type) (r c : Nat) where
  rows : Vector (Vector K c) r

namespace Mat

variable {K : Type} {r c k n : Nat}

/-- The matrix with entry `f i j` in row `i` and column `j`. -/
def ofFn (f : Fin r → Fin c → K) : Mat K r c :=
  ⟨Vector.ofFn fun i => Vector.ofFn fun j => f i j⟩

/-- The entry in row `i` and column `j`. -/
def get (a : Mat K r c) (i : Fin r) (j : Fin c) : K :=
  a.rows[i][j]

/-- What is stored is what is read. -/
@[simp] theorem get_ofFn (f : Fin r → Fin c → K) (i : Fin r) (j : Fin c) :
    (ofFn f).get i j = f i j := by
  simp [get, ofFn]

/-- Two matrices with the same entries are equal. -/
theorem ext {a b : Mat K r c} (h : ∀ i j, a.get i j = b.get i j) : a = b := by
  obtain ⟨a⟩ := a
  obtain ⟨b⟩ := b
  congr 1
  apply Vector.ext
  intro i hi
  apply Vector.ext
  intro j hj
  exact h ⟨i, hi⟩ ⟨j, hj⟩

/-- A matrix is made of its entries. -/
@[simp] theorem ofFn_get (a : Mat K r c) : ofFn a.get = a :=
  ext fun i j => get_ofFn a.get i j

/-- Applies `f` to every entry. -/
def map (f : K → K) (a : Mat K r c) : Mat K r c :=
  ofFn fun i j => f (a.get i j)

/-- Combines entries in the same place. -/
def zipWith (f : K → K → K) (a b : Mat K r c) : Mat K r c :=
  ofFn fun i j => f (a.get i j) (b.get i j)

@[simp] theorem get_map (f : K → K) (a : Mat K r c) (i : Fin r) (j : Fin c) :
    (a.map f).get i j = f (a.get i j) :=
  get_ofFn _ i j

@[simp] theorem get_zipWith (f : K → K → K) (a b : Mat K r c) (i : Fin r) (j : Fin c) :
    (zipWith f a b).get i j = f (a.get i j) (b.get i j) :=
  get_ofFn _ i j

/-- Whether `p` holds of the two entries in every place. -/
def all₂ (p : K → K → Bool) (a b : Mat K r c) : Bool :=
  (List.finRange r).all fun i => (List.finRange c).all fun j => p (a.get i j) (b.get i j)

/-- The entries column after column, each from top to bottom. -/
def entries (a : Mat K r c) : List K :=
  (List.finRange c).flatMap fun j => (List.finRange r).map fun i => a.get i j

/-- The entries are those found by row and column. -/
theorem mem_entries {a : Mat K r c} {x : K} : x ∈ a.entries ↔ ∃ i j, a.get i j = x := by
  simp only [entries, List.mem_flatMap, List.mem_map, List.mem_finRange, true_and]
  exact exists_comm

/-- A comparison of matrices is one of their entries. -/
theorem all₂_eq_true_iff {p : K → K → Bool} {a b : Mat K r c} :
    all₂ p a b = true ↔ ∀ i j, p (a.get i j) (b.get i j) = true := by
  simp [all₂, List.all_eq_true]

section Arithmetic

variable [Arithmetic K]

instance : Zero (Mat K r c) :=
  ⟨ofFn fun _ _ => 0⟩

instance : One (Mat K n n) :=
  ⟨ofFn fun i j => if i = j then 1 else 0⟩

instance : Add (Mat K r c) :=
  ⟨zipWith (· + ·)⟩

/-- Multiplies every entry by `x` from the right. -/
def scale (a : Mat K r c) (x : K) : Mat K r c :=
  a.map (· * x)

/-- The sum of the products of two sequences. The first product starts the sum, and each further
product is added in front of what has been summed up before it. -/
def sumOfProducts : {k : Nat} → (Fin k → K) → (Fin k → K) → K
  | 0, _, _ => 0
  | k + 1, x, y =>
    Fin.foldl k (fun total l => x l.succ * y l.succ + total) (x 0 * y 0)

/-- The product of two matrices of compatible sizes: a row of the left one with a column of the
right one. -/
def mul (a : Mat K r k) (b : Mat K k c) : Mat K r c :=
  ofFn fun i j => sumOfProducts (a.get i) fun l => b.get l j

instance : HMul (Mat K r k) (Mat K k c) (Mat K r c) :=
  ⟨mul⟩

/-- The matrix with one in row `i` and column `j` and zero elsewhere. -/
def basis (i : Fin r) (j : Fin c) : Mat K r c :=
  ofFn fun k l => if k = i ∧ l = j then 1 else 0

@[simp] theorem get_zero (i : Fin r) (j : Fin c) : (0 : Mat K r c).get i j = 0 :=
  get_ofFn _ i j

@[simp] theorem get_one (i j : Fin n) : (1 : Mat K n n).get i j = if i = j then 1 else 0 :=
  get_ofFn _ i j

@[simp] theorem get_add (a b : Mat K r c) (i : Fin r) (j : Fin c) :
    (a + b).get i j = a.get i j + b.get i j :=
  get_zipWith _ a b i j

@[simp] theorem get_scale (a : Mat K r c) (x : K) (i : Fin r) (j : Fin c) :
    (a.scale x).get i j = a.get i j * x :=
  get_map _ a i j

theorem get_mul (a : Mat K r k) (b : Mat K k c) (i : Fin r) (j : Fin c) :
    (a.mul b).get i j = sumOfProducts (a.get i) fun l => b.get l j :=
  get_ofFn _ i j

@[simp] theorem get_basis (i k : Fin r) (j l : Fin c) :
    (basis i j : Mat K r c).get k l = if k = i ∧ l = j then 1 else 0 :=
  get_ofFn _ k l

/-- The sum of the diagonal entries, from the top left to the bottom right. -/
def trace (a : Mat K n n) : K :=
  Fin.foldl n (fun total i => total + a.get i i) 0

end Arithmetic

end Mat

end Directional
