import Directional.Model.NeoHooke
import Directional.Proofs.Formula.Rebuild
import Directional.Proofs.Leaf.Domain

namespace Directional

namespace Formula

variable {K : Type} [Scalar K] {Γ : Nat → Shape} {a b s : Shape}

/-- The first call after a tree was built. -/
theorem toExcept_call_of_built {f : Formula K (Seed K Γ) a s} {t : Tree K (Builtin K Γ) a s}
    (built : f.tree? = .ok t) (c : Call K Γ a) :
    (t.call c).toExcept = (f.moved (Readings.unwritten.note c)).tree? := by
  rw [← f.moved_unwritten] at built
  exact toExcept_call_of_tree? f built c

/-- A composition is built if the outer function is built where it starts, the inner function is
built, and the outer function is built at the value of the inner one. -/
theorem tree?_chain_eq (f : Formula K (Seed K Γ) b s) (g : Formula K (Seed K Γ) a b) :
    (chain f g).tree? = (do
      let _ ← f.tree?
      let g' ← g.tree?
      let f' ← (f.moved (Readings.unwritten.note (.update g'.value))).tree?
      return .chain f' g') := by
  rw [tree?_chain]
  cases hf : f.tree? with
  | error => rfl
  | ok f₀ =>
    cases g.tree? with
    | error => rfl
    | ok g₀ =>
      change Tree.mkChain f₀ g₀ = _
      rw [mkChain_eq_bind, toExcept_call_of_built hf]
      rfl

end Formula

namespace NeoHooke

open Directional.Tree DomainError
open Scalar (int)

variable {K : Type} [Scalar K] {Γ : Nat → Shape} {n : Nat}

/-- The first principal invariant at a matrix, less its value at the identity. -/
def shiftedInvariantAt (a : Mat K n n) : Tree K (Builtin K Γ) (.square n) .scalar :=
  mkSum (leaf (.trace ⟨a.trace⟩)) (leaf (.constant (-int n : K)))

/-- The energy of an incompressible body at the deformation gradient `F`. -/
def incompressibleAt (c : K) (F : Mat K n n) : Tree K (Builtin K Γ) (.square n) .scalar :=
  mkScale c (chain (shiftedInvariantAt (F.transposeMul F))
    (leaf (.strain ⟨F, F.transposeMul F⟩)))

/-- An elementary function at an argument. -/
def elementaryAt (f : ElementaryFunction) (x : K) : Tree K (Builtin K Γ) .scalar .scalar :=
  leaf (.elementary ⟨f, x, f.jet x⟩)

/-- The energy of the change of volume `j`. -/
def volumeEnergyAt (d₀ d₁ j : K) : Tree K (Builtin K Γ) .scalar .scalar :=
  mkSum (mkSum (mkScale d₀ (elementaryAt (.pow 2 1) j)) (mkScale d₁ (elementaryAt .ln j)))
    (leaf (.constant (-d₀ : K)))

/-- The penalty for the change of volume in the deformation gradient `F`. -/
def volumetricAt (d : Dimension n) (d₀ d₁ : K) (F : Mat K n n) :
    Tree K (Builtin K Γ) (.square n) .scalar :=
  chain (volumeEnergyAt d₀ d₁ (d.det F)) (leaf (.det d ⟨F, d.det F⟩))

/-- The energy of a compressible body at the deformation gradient `F`. -/
def compressibleAt (d : Dimension n) (c d₀ d₁ : K) (F : Mat K n n) :
    Tree K (Builtin K Γ) (.square n) .scalar :=
  mkSum (incompressibleAt c F) (volumetricAt d d₀ d₁ F)

section Leaves

/-- A leaf that checks its argument before it holds something new. -/
private theorem tree?_seed {a s : Shape} {l : Seed K Γ a s} {check : Except (DomainError K) Unit}
    {β : Type} {wrap : β → Builtin K Γ a s} {new : β}
    (h : l.build = wrap <$> (do check; return new)) :
    (.seed l : Formula K (Seed K Γ) a s).tree? = (do check; return leaf (wrap new)) := by
  change (do return leaf (← l.build)) = _
  rw [h]
  cases check <;> rfl

/-- The trace checks the entries of its matrix, and keeps the trace. -/
theorem tree?_seed_trace (a : Mat K n n) :
    (.seed (.trace a) : Formula K (Seed K Γ) _ _).tree? =
      (do checkAllFinite "trace" a.entries; return leaf (.trace ⟨a.trace⟩)) :=
  tree?_seed rfl

/-- The strain checks the entries of the deformation gradient. -/
theorem tree?_seed_strain (F : Mat K n n) :
    (.seed (.strain F) : Formula K (Seed K Γ) _ _).tree? =
      (do checkAllFinite "strain" F.entries; return leaf (.strain ⟨F, F.transposeMul F⟩)) :=
  tree?_seed rfl

theorem tree?_seed_det (d : Dimension n) (F : Mat K n n) :
    (.seed (.det d F) : Formula K (Seed K Γ) _ _).tree? =
      (do checkAllFinite "det" F.entries; return leaf (.det d ⟨F, d.det F⟩)) :=
  tree?_seed rfl

/-- An elementary function checks that its argument is in the domain. -/
theorem tree?_seed_elementary (f : ElementaryFunction) (x : K) :
    (.seed (.elementary f x) : Formula K (Seed K Γ) _ _).tree? =
      (do let _ ← Elementary.at? f x; return elementaryAt f x) := by
  change (do return leaf (← Builtin.elementary <$> Elementary.at? f x)) = _
  cases h : Elementary.at? f x with
  | error => rfl
  | ok e =>
    obtain ⟨-, -, rfl⟩ := Elementary.at?_eq_ok_iff.1 h
    rfl

end Leaves

/-- Of the shifted invariant the trace is all that is checked. -/
theorem tree?_shiftedInvariant (a : Mat K n n) :
    (shiftedInvariant a : Formula K (Seed K Γ) _ _).tree? =
      (do checkAllFinite "trace" a.entries; return shiftedInvariantAt a) := by
  change (do
    let l ← (.seed (.trace a) : Formula K (Seed K Γ) _ _).tree?
    return mkSum l (leaf (.constant (-int n : K)))) = _
  simp only [tree?_seed_trace, bind_assoc, pure_bind, shiftedInvariantAt]

/-- An energy is put together at the identity and then moved to the deformation gradient. For an
incompressible body that makes three checks, and leaves one tree that is given by the deformation
gradient alone. -/
theorem tree?_incompressible (c : K) (F : Mat K n n) :
    (incompressible c F : Formula K (Seed K Γ) _ _).tree? = (do
      checkAllFinite "trace" (1 : Mat K n n).entries
      checkAllFinite "strain" F.entries
      checkAllFinite "trace" (F.transposeMul F).entries
      return incompressibleAt c F) := by
  change (do
    let f ← (Formula.chain (shiftedInvariant 1) (.seed (.strain F))).tree?
    return mkScale c f) = _
  have hmoved (b : Mat K n n) :
      (shiftedInvariant (1 : Mat K n n) : Formula K (Seed K Γ) _ _).moved
        (Readings.unwritten.note (.update b)) = shiftedInvariant b := rfl
  simp only [Formula.tree?_chain_eq, tree?_seed_strain, hmoved, tree?_shiftedInvariant, bind_assoc,
    pure_bind]
  rfl

/-- The energy of a change of volume, wherever it is moved. -/
theorem tree?_moved_volumeEnergy (d₀ d₁ j : K) :
    ((volumeEnergy d₀ d₁ : Formula K (Seed K Γ) _ _).moved
      (Readings.unwritten.note (.update j))).tree? = (do
        let _ ← Elementary.at? (.pow 2 1) j
        let _ ← Elementary.at? .ln j
        return volumeEnergyAt d₀ d₁ j) := by
  change (do
    let f ← (do
      let f ← (do
        return mkScale d₀ (← (.seed (.elementary (.pow 2 1) j) : Formula K (Seed K Γ) _ _).tree?))
      let g ← (do
        return mkScale d₁ (← (.seed (.elementary .ln j) : Formula K (Seed K Γ) _ _).tree?))
      return mkSum f g)
    return mkSum f (leaf (.constant (-d₀ : K)))) = _
  simp only [tree?_seed_elementary, bind_assoc, pure_bind, volumeEnergyAt]

/-- The penalty checks the power and the logarithm at one, and both of them again at the
determinant. -/
theorem tree?_volumetric (d : Dimension n) (d₀ d₁ : K) (F : Mat K n n) :
    (volumetric d d₀ d₁ F : Formula K (Seed K Γ) _ _).tree? = (do
      let _ ← Elementary.at? (.pow 2 1) (1 : K)
      let _ ← Elementary.at? .ln (1 : K)
      checkAllFinite "det" F.entries
      let _ ← Elementary.at? (.pow 2 1) (d.det F)
      let _ ← Elementary.at? .ln (d.det F)
      return volumetricAt d d₀ d₁ F) := by
  -- The energy starts at one, where moving it to one leaves it.
  have hstart : (volumeEnergy d₀ d₁ : Formula K (Seed K Γ) _ _).tree? =
      ((volumeEnergy d₀ d₁ : Formula K (Seed K Γ) _ _).moved
        (Readings.unwritten.note (.update (1 : K)))).tree? := rfl
  simp only [volumetric, Formula.tree?_chain_eq, hstart, tree?_seed_det, tree?_moved_volumeEnergy,
    bind_assoc, pure_bind]
  rfl

/-- The checks that the energy of a compressible body makes, in their order, and the tree that it
is if all of them pass. -/
theorem tree?_compressible (d : Dimension n) (c d₀ d₁ : K) (F : Mat K n n) :
    (compressible d c d₀ d₁ F : Formula K (Seed K Γ) _ _).tree? = (do
      checkAllFinite "trace" (1 : Mat K n n).entries
      checkAllFinite "strain" F.entries
      checkAllFinite "trace" (F.transposeMul F).entries
      let _ ← Elementary.at? (.pow 2 1) (1 : K)
      let _ ← Elementary.at? .ln (1 : K)
      checkAllFinite "det" F.entries
      let _ ← Elementary.at? (.pow 2 1) (d.det F)
      let _ ← Elementary.at? .ln (d.det F)
      return compressibleAt d c d₀ d₁ F) := by
  change (do
    let f ← (incompressible c F).tree?
    let g ← (volumetric d d₀ d₁ F).tree?
    return mkSum f g) = _
  rw [tree?_incompressible, tree?_volumetric]
  simp only [bind_assoc, pure_bind, compressibleAt]

/-- A check that passes is forgotten. -/
private theorem ok_of_check {ε α β : Type} {check : Except ε α} {x : Except ε β} {b : β}
    (h : (do let _ ← check; x) = .ok b) : x = .ok b := by
  obtain ⟨-, -, hx⟩ := bind_eq_ok h
  exact hx

section Runs

variable {c d₀ d₁ : K} {F : Mat K n n} {t₀ t : Tree K (Builtin K Γ) (.square n) .scalar}

/-- An energy that can be built is known. -/
theorem eq_incompressibleAt_of_tree? (built : (incompressible c F).tree? = .ok t) :
    t = incompressibleAt c F := by
  rw [tree?_incompressible] at built
  iterate 3 replace built := ok_of_check built
  exact (Except.ok.inj built).symm

theorem eq_compressibleAt_of_tree? {d : Dimension n}
    (built : (compressible d c d₀ d₁ F).tree? = .ok t) : t = compressibleAt d c d₀ d₁ F := by
  rw [tree?_compressible] at built
  iterate 8 replace built := ok_of_check built
  exact (Except.ok.inj built).symm

omit [Scalar K] in
/-- The argument that is read after a sequence of updates is the last one. -/
theorem argument_after_updates (F : Mat K n n) (points : List (Mat K n n)) :
    (Readings.after (points.map .update : List (Call K Γ (.square n)))).argument.getD F =
      points.getLastD F := by
  induction points using List.reverseRecOn with
  | nil => rfl
  | append_singleton points y =>
    rw [List.map_append, List.map_singleton, Readings.after_concat, List.getLastD_concat]
    rfl

variable {points : List (Mat K n n)}

/-- A model that is built from its argument alone, so that moving it replaces that argument, depends
on where it was moved last, and on nothing else. -/
private theorem eq_of_run {model : Mat K n n → Formula K (Seed K Γ) (.square n) .scalar}
    {tree : Mat K n n → Tree K (Builtin K Γ) (.square n) .scalar}
    (hmoved : ∀ F readings, (model F).moved readings = model (readings.argument.getD F))
    (htree : ∀ {F t}, (model F).tree? = .ok t → t = tree F)
    (built : (model F).tree? = .ok t₀) (accepted : t₀.run (points.map .update) = .ok t) :
    t = tree (points.getLastD F) := by
  apply htree
  rw [← argument_after_updates, ← hmoved, Formula.tree?_moved_of_run built accepted]

/-- After accepted updates it is the energy at the last deformation gradient. -/
theorem eq_incompressibleAt_of_run (built : (incompressible c F).tree? = .ok t₀)
    (accepted : t₀.run (points.map .update) = .ok t) :
    t = incompressibleAt c (points.getLastD F) :=
  eq_of_run (fun _ _ => rfl) eq_incompressibleAt_of_tree? built accepted

theorem eq_compressibleAt_of_run {d : Dimension n}
    (built : (compressible d c d₀ d₁ F).tree? = .ok t₀)
    (accepted : t₀.run (points.map .update) = .ok t) :
    t = compressibleAt d c d₀ d₁ (points.getLastD F) :=
  eq_of_run (fun _ _ => rfl) eq_compressibleAt_of_tree? built accepted

end Runs

end NeoHooke

end Directional
