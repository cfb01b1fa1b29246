import Directional.Proofs.Taylor.Expansion
import Directional.Proofs.Tree.Operands

namespace Directional

namespace Value

variable {R : Type} [CommRing R] {s : Shape}

/-- The polynomial `v + e₁ * d.x + e₂ * d.y + e₃ * d.z + e₁ * e₂ * d.xy + e₁ * e₃ * d.xz +
e₂ * e₃ * d.yz + e₁ * e₂ * e₃ * d.xyz`. -/
def polynomial (v : Value R s) (d : Mixed₃ (Value R s)) : Value (Taylor R) s :=
  ((((perturbed v d.x d.y d.z).add
    ((d.xy.const.scale Taylor.e₁).scale Taylor.e₂)).add
    ((d.xz.const.scale Taylor.e₁).scale Taylor.e₃)).add
    ((d.yz.const.scale Taylor.e₂).scale Taylor.e₃)).add
    (((d.xyz.const.scale Taylor.e₁).scale Taylor.e₂).scale Taylor.e₃)

/-- The polynomial starts at the value. -/
@[simp] theorem base_polynomial (v : Value R s) (d : Mixed₃ (Value R s)) :
    (v.polynomial d).base = v := by
  simp [polynomial, const, base, perturbed, Taylor.e₁, Taylor.e₂, Taylor.e₃]

/-- Its coefficients are the derivatives. -/
@[simp] theorem coefficients_polynomial (v : Value R s) (d : Mixed₃ (Value R s)) :
    (v.polynomial d).coefficients = d := by
  simp [polynomial, const, coefficients, perturbed, Taylor.e₁, Taylor.e₂, Taylor.e₃]

end Value

namespace Tree

variable {K : Type} [Field K] [Primitives K] {Γ : Nat → Shape} {L : Shape → Shape → Type}
  [Leaf K Γ L] {a s t u : Shape}

/-- The derivatives of a tree in the slots `X`, `Y` and `Z` along `dx`, `dy` and `dz`, where an
absent derivative is zero. -/
def mixed (f : Tree K L a s) (X Y Z : Slot) (dx : Value K (X.shape Γ a))
    (dy : Value K (Y.shape Γ a)) (dz : Value K (Z.shape Γ a)) : Mixed₃ (Value K s) where
  x := f.d₁ X dx
  y := f.d₁ Y dy
  z := f.d₁ Z dz
  xy := f.d₂ X Y dx dy
  xz := f.d₂ X Z dx dz
  yz := f.d₂ Y Z dy dz
  xyz := f.d₃ X Y Z dx dy dz

/-- The polynomial with the value and the derivatives of a tree as its coefficients. -/
def expansion (f : Tree K L a s) (X Y Z : Slot) (dx : Value K (X.shape Γ a))
    (dy : Value K (Y.shape Γ a)) (dz : Value K (Z.shape Γ a)) : Value (Taylor K) s :=
  f.value.polynomial (f.mixed X Y Z dx dy dz)

section Expansion

variable {X Y Z : Slot} (dx : Value K (X.shape Γ a)) (dy : Value K (Y.shape Γ a))
  (dz : Value K (Z.shape Γ a))

/-- The expansion of a function has the value and the derivatives as its coefficients. -/
theorem expandsTo_expansion (f : Tree K L a s) :
    (f.expansion X Y Z dx dy dz).ExpandsTo f.value (f.mixed X Y Z dx dy dz) :=
  ⟨Value.base_polynomial _ _, Value.coefficients_polynomial _ _⟩

/-- The mixed derivatives of a product are those of the rule of Leibniz, whichever of the bilinear
maps multiplies the values. For matrices the first factor is always on the left. -/
theorem mixed_product (m : Pairing s t u) (f : Tree K L a s) (g : Tree K L a t) (v : Value K u) :
    (product m f g v).mixed X Y Z dx dy dz =
      .product m f.value (f.mixed X Y Z dx dy dz) g.value (g.mixed X Y Z dx dy dz) := by
  simp only [mixed, Mixed₃.product, d₁_product, d₂_product, d₃_product, Value.add_assoc]

end Expansion

/-- The rule of Leibniz for factors that need not commute. After any sequence of calls that a
product accepts, its value and its derivatives, in any slots and directions, are the coefficients of
the product of two polynomials: that of the first factor, on the left, and that of the second one.
The product may be one of matrices, of a number and a matrix in either order, or an inner product.
-/
theorem product_multiplies_expansions {m : Pairing s t u} {f₀ : Tree K L a s} {g₀ : Tree K L a t}
    {calls : List (Call K Γ a)} {p : Tree K L a u}
    (accepted : (mkProduct m f₀ g₀).run calls = .ok p) :
    ∃ f g, f₀.run? calls = .ok f ∧ g₀.run? calls = .ok g ∧ p = mkProduct m f g ∧
      ∀ X Y Z dx dy dz,
        (m.apply (f.expansion X Y Z dx dy dz) (g.expansion X Y Z dx dy dz)).ExpandsTo p.value
          { x := p.d₁ X dx
            y := p.d₁ Y dy
            z := p.d₁ Z dz
            xy := p.d₂ X Y dx dy
            xz := p.d₂ X Z dx dz
            yz := p.d₂ Y Z dy dz
            xyz := p.d₃ X Y Z dx dy dz } := by
  obtain ⟨f, g, hf, hg, -, rfl⟩ := operands_of_run (run_mkProduct m f₀ g₀ calls) accepted
  refine ⟨f, g, hf, hg, rfl, ?_⟩
  intro X Y Z dx dy dz
  change Value.ExpandsTo _ _ ((mkProduct m f g).mixed X Y Z dx dy dz)
  rw [mkProduct, mixed_product]
  exact .apply m (f.expandsTo_expansion dx dy dz) (g.expandsTo_expansion dx dy dz)

/-- The product of two variables that are matrices, after both have been written. Its mixed
derivative along the entry `0 1` of the first variable and the entry `1 0` of the second one has its
one in the entry `0 0`, and not in `1 1`, where the product in the other order has it. -/
theorem product_multiplies_expansions_matrices :
    let f (A : Mat ℚ 2 2) : Tree ℚ (Builtin ℚ fun _ => .matrix 2 2) .scalar (.matrix 2 2) :=
      .leaf (.var 0 rfl A)
    let g (B : Mat ℚ 2 2) : Tree ℚ (Builtin ℚ fun _ => .matrix 2 2) .scalar (.matrix 2 2) :=
      .leaf (.var 1 rfl B)
    let m : Pairing (.matrix 2 2) (.matrix 2 2) (.matrix 2 2) := .matrices 2 2 2
    let A : Mat ℚ 2 2 := Mat.basis 0 0
    let B : Mat ℚ 2 2 := Mat.basis 0 1
    let E : Mat ℚ 2 2 := Mat.basis 0 1
    let F : Mat ℚ 2 2 := Mat.basis 1 0
    let p := mkProduct m (f A) (g B)
    (mkProduct m (f 1) (g 1)).run [.write 0 A, .write 1 B] = .ok p ∧
      (m.apply ((f A).expansion (.var 0) (.var 1) (.var 0) E F E)
        ((g B).expansion (.var 0) (.var 1) (.var 0) E F E)).ExpandsTo p.value
        { x := p.d₁ (.var 0) E
          y := p.d₁ (.var 1) F
          z := p.d₁ (.var 0) E
          xy := p.d₂ (.var 0) (.var 1) E F
          xz := p.d₂ (.var 0) (.var 0) E E
          yz := p.d₂ (.var 1) (.var 0) F E
          xyz := p.d₃ (.var 0) (.var 1) (.var 0) E F E } ∧
      Mat.get (p.d₂ (.var 0) (.var 1) E F) 0 0 = 1 ∧
      Mat.get (p.d₂ (.var 0) (.var 1) E F) 1 1 = 0 := by
  intro f g m A B E F p
  have accepted : (mkProduct m (f 1) (g 1)).run [.write 0 A, .write 1 B] = .ok p := rfl
  obtain ⟨f', g', hf, hg, -, hexpand⟩ := product_multiplies_expansions accepted
  obtain rfl : f A = f' := Except.ok.inj hf
  obtain rfl : g B = g' := Except.ok.inj hg
  exact ⟨accepted, hexpand (.var 0) (.var 1) (.var 0) E F E, by decide +kernel, by decide +kernel⟩

end Tree

end Directional
