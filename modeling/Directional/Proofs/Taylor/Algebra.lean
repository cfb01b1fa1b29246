import Mathlib.Algebra.DualNumber
import Directional.Proofs.Exact.Value
import Directional.Term.Leibniz

namespace Directional

variable {R : Type} [CommRing R]

/-- Dual numbers over a ring are a ring, and so are dual numbers over those. -/
instance dualNumberCommRing : CommRing (DualNumber R) :=
  inferInstance

namespace Value

variable {s t u : Shape}

/-- The part of a value without the last number adjoined. -/
def fst (x : Value (DualNumber R) s) : Value R s :=
  x.map TrivSqZeroExt.fst

/-- The coefficient of the last number adjoined. -/
def snd (x : Value (DualNumber R) s) : Value R s :=
  x.map TrivSqZeroExt.snd

/-- Taking either part is additive. -/
private def fstHom (R : Type) [CommRing R] : DualNumber R →+ R where
  toFun := TrivSqZeroExt.fst
  map_zero' := TrivSqZeroExt.fst_zero
  map_add' := TrivSqZeroExt.fst_add

private def sndHom (R : Type) [CommRing R] : DualNumber R →+ R where
  toFun := TrivSqZeroExt.snd
  map_zero' := TrivSqZeroExt.snd_zero
  map_add' := TrivSqZeroExt.snd_add

@[simp] theorem fst_add (x y : Value (DualNumber R) s) : (x.add y).fst = x.fst.add y.fst :=
  map_add (fstHom R) x y

@[simp] theorem snd_add (x y : Value (DualNumber R) s) : (x.add y).snd = x.snd.add y.snd :=
  map_add (sndHom R) x y

@[simp] theorem fst_zero : (zero : Value (DualNumber R) s).fst = zero :=
  map_zero (fstHom R)

@[simp] theorem snd_zero : (zero : Value (DualNumber R) s).snd = zero :=
  map_zero (sndHom R)

/-- A value without the last number adjoined. -/
def inl (x : Value R s) : Value (DualNumber R) s :=
  x.map TrivSqZeroExt.inl

@[simp] theorem fst_inl (x : Value R s) : x.inl.fst = x := by
  cases s with
  | scalar => rfl
  | matrix r c => exact Mat.ext fun i j => by simp [inl, fst, map]

@[simp] theorem snd_inl (x : Value R s) : x.inl.snd = zero := by
  cases s with
  | scalar => rfl
  | matrix r c => exact Mat.ext fun i j => by simp [inl, snd, map, zero]

@[simp] theorem fst_scale (x : Value (DualNumber R) s) (a : DualNumber R) :
    (x.scale a).fst = x.fst.scale a.fst := by
  cases s with
  | scalar => exact TrivSqZeroExt.fst_mul x a
  | matrix r c =>
    apply Mat.ext
    intro i j
    simp only [fst, map, scale, Mat.get_ofFn, Mat.get_scale]
    exact TrivSqZeroExt.fst_mul _ _

/-- The second part of a multiple is that of a product. -/
@[simp] theorem snd_scale (x : Value (DualNumber R) s) (a : DualNumber R) :
    (x.scale a).snd = (x.fst.scale a.snd).add (x.snd.scale a.fst) := by
  cases s with
  | scalar => exact DualNumber.snd_mul x a
  | matrix r c =>
    apply Mat.ext
    intro i j
    simp only [fst, snd, map, scale, add, Mat.get_ofFn, Mat.get_scale, Mat.get_add]
    exact DualNumber.snd_mul _ _

end Value

/-- The part of a product without the last number adjoined is the product of these parts. -/
theorem Pairing.fst_apply {s t u : Shape} (m : Pairing s t u) (x : Value (DualNumber R) s)
    (y : Value (DualNumber R) t) : (m.apply x y).fst = m.apply x.fst y.fst := by
  cases m with
  | scalars => exact TrivSqZeroExt.fst_mul x y
  | matrices r k c =>
    apply Mat.ext
    intro i j
    simp only [apply, Value.fst, Value.map, Mat.get_ofFn, Mat.get_mul_eq_sum]
    exact map_sum (Value.fstHom R) _ _
  | scalarMatrix r c =>
    apply Mat.ext
    intro i j
    simp only [apply, Value.fst, Value.map, Mat.get_ofFn, Mat.get_scale]
    exact TrivSqZeroExt.fst_mul _ _
  | matrixScalar r c =>
    apply Mat.ext
    intro i j
    simp only [apply, Value.fst, Value.map, Mat.get_ofFn, Mat.get_scale]
    exact TrivSqZeroExt.fst_mul _ _
  | inner s =>
    cases s with
    | scalar => exact TrivSqZeroExt.fst_mul x y
    | matrix r c =>
      refine (Mat.map_entrySum (Value.fstHom R) _).trans ?_
      simp only [apply, Mat.inner, Value.fst, Value.map, Mat.get_ofFn]
      rfl

/-- The coefficient of the last number adjoined follows the rule of Leibniz. -/
theorem Pairing.snd_apply {s t u : Shape} (m : Pairing s t u) (x : Value (DualNumber R) s)
    (y : Value (DualNumber R) t) :
    (m.apply x y).snd = (m.apply x.fst y.snd).add (m.apply x.snd y.fst) := by
  cases m with
  | scalars => exact DualNumber.snd_mul x y
  | matrices r k c =>
    apply Mat.ext
    intro i j
    simp only [apply, Value.fst, Value.snd, Value.map, Value.add, Mat.get_ofFn, Mat.get_add,
      Mat.get_mul_eq_sum]
    exact (map_sum (Value.sndHom R) _ _).trans Finset.sum_add_distrib
  | scalarMatrix r c =>
    apply Mat.ext
    intro i j
    simp only [apply, Value.fst, Value.snd, Value.map, Value.add, Mat.get_ofFn, Mat.get_add,
      Mat.get_scale]
    refine (DualNumber.snd_mul _ _).trans ?_
    ring
  | matrixScalar r c =>
    apply Mat.ext
    intro i j
    simp only [apply, Value.fst, Value.snd, Value.map, Value.add, Mat.get_ofFn, Mat.get_add,
      Mat.get_scale]
    exact DualNumber.snd_mul _ _
  | inner s =>
    cases s with
    | scalar => exact DualNumber.snd_mul x y
    | matrix r c =>
      refine (Mat.map_entrySum (Value.sndHom R) _).trans ?_
      simp only [apply, Mat.inner, Value.fst, Value.snd, Value.map, Value.add, Mat.get_ofFn]
      exact Mat.entrySum_add _ _

namespace Mixed₃

variable {s t u : Shape}

/-- The sum, part by part. -/
def add (d e : Mixed₃ (Value R s)) : Mixed₃ (Value R s) where
  x := d.x.add e.x
  y := d.y.add e.y
  z := d.z.add e.z
  xy := d.xy.add e.xy
  xz := d.xz.add e.xz
  yz := d.yz.add e.yz
  xyz := d.xyz.add e.xyz

/-- The multiple, part by part. -/
def scale (d : Mixed₃ (Value R s)) (c : R) : Mixed₃ (Value R s) where
  x := d.x.scale c
  y := d.y.scale c
  z := d.z.scale c
  xy := d.xy.scale c
  xz := d.xz.scale c
  yz := d.yz.scale c
  xyz := d.xyz.scale c

/-- The parts of the product of two values `f` and `g`, by the rule of Leibniz. -/
def product (m : Pairing s t u) (f : Value R s) (df : Mixed₃ (Value R s)) (g : Value R t)
    (dg : Mixed₃ (Value R t)) : Mixed₃ (Value R u) where
  x := (m.apply df.x g).add (m.apply f dg.x)
  y := (m.apply df.y g).add (m.apply f dg.y)
  z := (m.apply df.z g).add (m.apply f dg.z)
  xy := (((m.apply df.xy g).add (m.apply df.x dg.y)).add (m.apply df.y dg.x)).add (m.apply f dg.xy)
  xz := (((m.apply df.xz g).add (m.apply df.x dg.z)).add (m.apply df.z dg.x)).add (m.apply f dg.xz)
  yz := (((m.apply df.yz g).add (m.apply df.y dg.z)).add (m.apply df.z dg.y)).add (m.apply f dg.yz)
  xyz := (((((((m.apply df.xyz g).add (m.apply df.xy dg.z)).add (m.apply df.xz dg.y)).add
    (m.apply df.x dg.yz)).add (m.apply df.yz dg.x)).add (m.apply df.y dg.xz)).add
    (m.apply df.z dg.xy)).add (m.apply f dg.xyz)

end Mixed₃

/-- The numbers `R[e₁, e₂, e₃]` with the squares of `e₁`, `e₂` and `e₃` zero. -/
abbrev Taylor (R : Type) : Type :=
  DualNumber (DualNumber (DualNumber R))

namespace Taylor

-- Without these, each operation is searched for among those of dual numbers over any module.
instance : Add (Taylor R) :=
  dualNumberCommRing.toAdd

instance : Sub (Taylor R) :=
  dualNumberCommRing.toSub

instance : Monoid (Taylor R) :=
  dualNumberCommRing.toMonoid

instance : Mul (Taylor R) :=
  dualNumberCommRing.toMul

/-- A number of the ring. -/
def const (c : R) : Taylor R :=
  TrivSqZeroExt.inl (TrivSqZeroExt.inl (TrivSqZeroExt.inl c))

/-- The first number with square zero. -/
def e₁ : Taylor R :=
  DualNumber.eps

/-- The second number with square zero. -/
def e₂ : Taylor R :=
  TrivSqZeroExt.inl DualNumber.eps

/-- The third number with square zero. -/
def e₃ : Taylor R :=
  TrivSqZeroExt.inl (TrivSqZeroExt.inl DualNumber.eps)

end Taylor

namespace Value

variable {s t u : Shape}

/-- The part of an expansion without `e₁`, `e₂` and `e₃`. -/
def base (x : Value (Taylor R) s) : Value R s :=
  x.fst.fst.fst

/-- The coefficients of an expansion: that of `e₁` as `x`, that of `e₁ * e₂` as `xy`, and so on. -/
def coefficients (x : Value (Taylor R) s) : Mixed₃ (Value R s) where
  x := x.snd.fst.fst
  y := x.fst.snd.fst
  z := x.fst.fst.snd
  xy := x.snd.snd.fst
  xz := x.snd.fst.snd
  yz := x.fst.snd.snd
  xyz := x.snd.snd.snd

/-- The expansion of a value that does not depend on anything. -/
def const (x : Value R s) : Value (Taylor R) s :=
  x.inl.inl.inl

/-- The value `p` with the directions `dx`, `dy` and `dz` added along `e₁`, `e₂` and `e₃`. -/
def perturbed (p dx dy dz : Value R s) : Value (Taylor R) s :=
  ((p.const.add (dx.const.scale Taylor.e₁)).add (dy.const.scale Taylor.e₂)).add
    (dz.const.scale Taylor.e₃)

/-- A constant is its own part without numbers that have square zero. -/
@[simp] theorem base_const (x : Value R s) : x.const.base = x := by
  simp only [const, base, fst_inl]

@[simp] theorem coefficients_const (x : Value R s) :
    x.const.coefficients = ⟨zero, zero, zero, zero, zero, zero, zero⟩ := by
  simp only [const, coefficients, fst_inl, snd_inl, fst_zero, snd_zero]

@[simp] theorem base_perturbed (p dx dy dz : Value R s) : (perturbed p dx dy dz).base = p := by
  simp [perturbed, const, base, Taylor.e₁, Taylor.e₂, Taylor.e₃]

/-- The directions are the coefficients of first order. -/
@[simp] theorem coefficients_perturbed (p dx dy dz : Value R s) :
    (perturbed p dx dy dz).coefficients = ⟨dx, dy, dz, zero, zero, zero, zero⟩ := by
  simp [perturbed, const, coefficients, Taylor.e₁, Taylor.e₂, Taylor.e₃]

@[simp] theorem base_add (x y : Value (Taylor R) s) : (x.add y).base = x.base.add y.base := by
  simp only [base, fst_add]

/-- The coefficients of a sum are the sums of the coefficients. -/
theorem coefficients_add (x y : Value (Taylor R) s) :
    (x.add y).coefficients = x.coefficients.add y.coefficients := by
  simp only [coefficients, Mixed₃.add, fst_add, snd_add]

@[simp] theorem base_scale_const (x : Value (Taylor R) s) (c : R) :
    (x.scale (Taylor.const c)).base = x.base.scale c := by
  simp [base, Taylor.const]

/-- The coefficients of a multiple are the multiples of the coefficients. -/
theorem coefficients_scale_const (x : Value (Taylor R) s) (c : R) :
    (x.scale (Taylor.const c)).coefficients = x.coefficients.scale c := by
  simp [coefficients, Mixed₃.scale, Taylor.const]

end Value

namespace Pairing

variable {s t u : Shape} (m : Pairing s t u)

@[simp] theorem base_apply (x : Value (Taylor R) s) (y : Value (Taylor R) t) :
    (m.apply x y).base = m.apply x.base y.base := by
  simp only [Value.base, fst_apply]

/-- The coefficients of a product follow the rule of Leibniz. -/
theorem coefficients_apply (x : Value (Taylor R) s) (y : Value (Taylor R) t) :
    (m.apply x y).coefficients = .product m x.base x.coefficients y.base y.coefficients := by
  simp only [Value.coefficients, Value.base, Mixed₃.product, fst_apply, snd_apply, Value.fst_add,
    Value.snd_add, Mixed₃.mk.injEq]
  refine ⟨?_, ?_, ?_, ?_, ?_, ?_, ?_⟩ <;> ac_rfl

end Pairing

end Directional
