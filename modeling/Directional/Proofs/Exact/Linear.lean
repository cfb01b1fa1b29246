import Mathlib.Data.Matrix.Basis
import Directional.Proofs.Exact.Value

namespace Directional

variable {R : Type} [CommRing R] {r c : Nat} {s t u w : Shape}

namespace Value

/-- A map that keeps sums and multiples. -/
structure Linear (φ : Value R s → Value R t) : Prop where
  add (x y : Value R s) : φ (x.add y) = (φ x).add (φ y)
  scale (x : Value R s) (a : R) : φ (x.scale a) = (φ x).scale a

/-- A map that is linear in each of its two arguments. -/
structure Bilinear (φ : Value R s → Value R t → Value R u) : Prop where
  left (y : Value R t) : Linear (φ · y)
  right (x : Value R s) : Linear (φ x)

/-- A map that is linear in each of its three arguments. -/
structure Trilinear (φ : Value R s → Value R t → Value R u → Value R w) : Prop where
  left (y : Value R t) (z : Value R u) : Linear (φ · y z)
  middle (x : Value R s) (z : Value R u) : Linear (φ x · z)
  right (x : Value R s) (y : Value R t) : Linear (φ x y)

/-- The map to zero is linear, and so it is in two and in three arguments. -/
theorem linear_zero : Linear fun _ : Value R s => (zero : Value R t) where
  add _ _ := (zero_add zero).symm
  scale _ a := (zero_scale a).symm

theorem bilinear_zero : Bilinear fun (_ : Value R s) (_ : Value R t) => (zero : Value R u) where
  left _ := linear_zero
  right _ := linear_zero

theorem trilinear_zero :
    Trilinear fun (_ : Value R s) (_ : Value R t) (_ : Value R u) => (zero : Value R w) where
  left _ _ := linear_zero
  middle _ _ := linear_zero
  right _ _ := linear_zero

/-- The sum of two linear maps is linear. -/
theorem Linear.sum {φ ψ : Value R s → Value R t} (hφ : Linear φ) (hψ : Linear ψ) :
    Linear fun x => (φ x).add (ψ x) where
  add x y := by
    rw [hφ.add, hψ.add]
    ac_rfl
  scale x a := by rw [hφ.scale, hψ.scale, add_scale]

/-- A symmetric map is linear in both arguments if it is in the second one. -/
theorem Bilinear.of_comm {φ : Value R s → Value R s → Value R u} (comm : ∀ x y, φ y x = φ x y)
    (right : ∀ x, Linear (φ x)) : Bilinear φ where
  right := right
  left y := by
    have hflip : (φ · y) = φ y := funext fun x => comm y x
    rw [hflip]
    exact right y

/-- So is a symmetric map of three arguments if it is linear in the last one. -/
theorem Trilinear.of_comm {φ : Value R s → Value R s → Value R s → Value R u}
    (swapFirst : ∀ x y z, φ y x z = φ x y z) (swapLast : ∀ x y z, φ x z y = φ x y z)
    (right : ∀ x y, Linear (φ x y)) : Trilinear φ where
  right := right
  middle x z := by
    have hflip : (φ x · z) = φ x z := funext fun y => swapLast x z y
    rw [hflip]
    exact right x z
  left y z := by
    have hflip : (φ · y z) = φ y z := funext fun x => by rw [swapFirst y x z, swapLast y z x]
    rw [hflip]
    exact right y z

/-- Factors may be exchanged. -/
theorem scale_comm (x : Value R s) (a b : R) : (x.scale a).scale b = (x.scale b).scale a := by
  cases s with
  | scalar =>
    change x * a * b = x * b * a
    ring
  | matrix r c =>
    apply Mat.ext
    intro i j
    simp only [scale, Mat.get_scale]
    ring

end Value

theorem Mat.inner_comm (a b : Mat R r c) : a.inner b = b.inner a := by
  simp only [inner, mul_comm]

/-- A factor of the right matrix may be taken out of an inner product. -/
theorem Mat.inner_scale_right (a b : Mat R r c) (k : R) : a.inner (b.scale k) = a.inner b * k := by
  simp only [inner_eq_sum, get_scale, Finset.sum_mul]
  refine Finset.sum_congr rfl fun i _ => Finset.sum_congr rfl fun j _ => ?_
  ring

namespace Pairing

/-- A factor of the left value may be taken out of a product. -/
theorem apply_scale_left (m : Pairing s t u) (x : Value R s) (y : Value R t) (k : R) :
    m.apply (x.scale k) y = (m.apply x y).scale k := by
  cases m with
  | scalars =>
    change x * k * y = x * y * k
    ring
  | matrices r k' c =>
    apply Mat.ext
    intro i j
    simp only [apply, Value.scale, Mat.get_scale, Mat.get_mul_eq_sum]
    rw [Finset.sum_mul]
    apply Finset.sum_congr rfl
    intro l _
    ring
  | scalarMatrix r c =>
    apply Mat.ext
    intro i j
    simp only [apply, Value.scale, Mat.get_scale]
    ring
  | matrixScalar r c => exact Value.scale_comm x k y
  | inner s =>
    cases s with
    | scalar =>
      change x * k * y = x * y * k
      ring
    | matrix r c =>
      change Mat.inner (Mat.scale x k) y = Mat.inner x y * k
      rw [Mat.inner_comm, Mat.inner_scale_right, Mat.inner_comm]

/-- A factor of the right value may be taken out of a product. -/
theorem apply_scale_right (m : Pairing s t u) (x : Value R s) (y : Value R t) (k : R) :
    m.apply x (y.scale k) = (m.apply x y).scale k := by
  cases m with
  | scalars => exact (mul_assoc x y k).symm
  | matrices r k' c =>
    apply Mat.ext
    intro i j
    simp only [apply, Value.scale, Mat.get_scale, Mat.get_mul_eq_sum]
    rw [Finset.sum_mul]
    apply Finset.sum_congr rfl
    intro l _
    ring
  | scalarMatrix r c => exact Value.scale_comm y k x
  | matrixScalar r c =>
    apply Mat.ext
    intro i j
    simp only [apply, Value.scale, Mat.get_scale]
    ring
  | inner s =>
    cases s with
    | scalar => exact (mul_assoc x y k).symm
    | matrix r c => exact Mat.inner_scale_right x y k

/-- All ways to multiply are bilinear. -/
theorem bilinear (m : Pairing s t u) : Value.Bilinear (m.apply (K := R)) where
  left y := ⟨fun x x' => m.apply_add_left x x' y, fun x => m.apply_scale_left x y⟩
  right x := ⟨m.apply_add_right x, m.apply_scale_right x⟩

end Pairing

/-- A linear map of matrices to numbers by its values at the basis matrices. -/
theorem Mat.map_eq_sum_basis {φ : Mat R r c → R}
    (h : Value.Linear (s := .matrix r c) (t := .scalar) φ) (a : Mat R r c) :
    φ a = ∑ i, ∑ j, a.get i j * φ (basis i j) := by
  have hadd (x y : Mat R r c) : φ (x + y) = φ x + φ y := h.add x y
  have hscale (x : Mat R r c) (k : R) : φ (x.scale k) = k * φ x :=
    (h.scale x k).trans (mul_comm (φ x) k)
  -- The same map on the matrices of Mathlib, which are sums of multiples of their basis.
  let ψ : Matrix (Fin r) (Fin c) R →ₗ[R] R :=
    { toFun := fun m => φ (ofFn m)
      map_add' := fun m n => by
        have hsum : ofFn (m + n) = ofFn m + ofFn n := by
          apply ext
          intro i j
          rw [get_add, get_ofFn m, get_ofFn n]
          exact get_ofFn (m + n) i j
        exact (congrArg φ hsum).trans (hadd _ _)
      map_smul' := fun k m => by
        have hmul : ofFn (k • m) = (ofFn m).scale k := by
          apply ext
          intro i j
          rw [get_scale, get_ofFn m]
          exact (get_ofFn (k • m) i j).trans (mul_comm k (m i j))
        exact (congrArg φ hmul).trans (hscale _ _) }
  have hbasis (i : Fin r) (j : Fin c) : ofFn (Matrix.single i j 1) = (basis i j : Mat R r c) := by
    apply ext
    intro k l
    rw [get_basis, get_ofFn (Matrix.single i j 1), Matrix.single_apply]
    simp only [@eq_comm _ i, @eq_comm _ j]
  calc
    φ a = ψ a.get := congrArg φ (ofFn_get a).symm
    _ = ψ (∑ i, ∑ j, a.get i j • Matrix.single i j 1) := by
      conv_lhs => rw [Matrix.matrix_eq_sum_single a.get]
      simp only [Matrix.smul_single, smul_eq_mul, mul_one]
    _ = ∑ i, ∑ j, a.get i j * ψ (Matrix.single i j 1) := by
      simp only [map_sum, map_smul, smul_eq_mul]
    _ = ∑ i, ∑ j, a.get i j * φ (basis i j) := by
      refine Finset.sum_congr rfl fun i _ => Finset.sum_congr rfl fun j _ => ?_
      exact congrArg (a.get i j * φ ·) (hbasis i j)

end Directional
