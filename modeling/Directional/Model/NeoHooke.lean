import Directional.Formula.Operators

namespace Directional.NeoHooke

open Scalar (int)

variable {K : Type} [Scalar K] {Γ : Nat → Shape} {I : Shape → Shape → Type} [SeedFamily K Γ I]
  {n : Nat}

/-- The first principal invariant less its value at the identity. -/
def shiftedInvariant (a : Mat K n n) : Formula K I (.square n) .scalar :=
  (Formula.seed (.trace a) : Formula K I (.square n) .scalar) - (int n : K)

/-- The stored energy of an incompressible elastic body, as a function of the deformation gradient
`f`: `c` times the shifted invariant of the strain. -/
def incompressible (c : K) (f : Mat K n n) : Formula K I (.square n) .scalar :=
  c * (.chain (shiftedInvariant (1 : Mat K n n)) (.seed (.strain f)) :
    Formula K I (.square n) .scalar)

/-- The energy of a change of volume `j`: `d₀ * j ^ 2 + d₁ * ln j - d₀`. -/
def volumeEnergy (d₀ d₁ : K) : Formula K I .scalar .scalar :=
  let square : Formula K I .scalar .scalar := .seed (.elementary (.pow 2 1) 1)
  let logarithm : Formula K I .scalar .scalar := .seed (.elementary .ln 1)
  d₀ * square + d₁ * logarithm - d₀

/-- The penalty for the change of volume in the deformation gradient `f`. -/
def volumetric (d : Dimension n) (d₀ d₁ : K) (f : Mat K n n) : Formula K I (.square n) .scalar :=
  .chain (volumeEnergy d₀ d₁) (.seed (.det d f))

/-- The energy of a compressible body at the deformation gradient `f`. -/
def compressible (d : Dimension n) (c d₀ d₁ : K) (f : Mat K n n) :
    Formula K I (.square n) .scalar :=
  incompressible c f + volumetric d d₀ d₁ f

end Directional.NeoHooke
