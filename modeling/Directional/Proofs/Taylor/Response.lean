import Directional.Proofs.Exact.Derivative
import Directional.Proofs.Taylor.Leaf
import Directional.Proofs.Taylor.Algebra

namespace Directional

/-- A motion along three directions, each one in a slot of its own, with further parts of second
and third order in the argument. -/
structure Motion (K : Type) (Γ : Nat → Shape) (a : Shape) where
  X : Slot
  Y : Slot
  Z : Slot
  dx : Value K (X.shape Γ a)
  dy : Value K (Y.shape Γ a)
  dz : Value K (Z.shape Γ a)
  xy : Value K a
  xz : Value K a
  yz : Value K a
  xyz : Value K a

variable {K : Type} [Field K] [Primitives K] {Γ : Nat → Shape} {L : Shape → Shape → Type}
  [Leaf K Γ L] {a b s t u : Shape}

namespace Motion

/-- The motion of the argument. -/
def argument (M : Motion K Γ a) : Mixed₃ (Value K a) where
  x := M.X.along .argument M.dx
  y := M.Y.along .argument M.dy
  z := M.Z.along .argument M.dz
  xy := M.xy
  xz := M.xz
  yz := M.yz
  xyz := M.xyz

/-- The motion of the variable with number `i`, of first order only. -/
def var (M : Motion K Γ a) (i : Nat) : Mixed₃ (Value K (Γ i)) where
  x := M.X.along (.var i) M.dx
  y := M.Y.along (.var i) M.dy
  z := M.Z.along (.var i) M.dz
  xy := .zero
  xz := .zero
  yz := .zero
  xyz := .zero

/-- A motion of the argument alone. -/
def ofArgument (d : Mixed₃ (Value K a)) : Motion K Γ a where
  X := .argument
  Y := .argument
  Z := .argument
  dx := d.x
  dy := d.y
  dz := d.z
  xy := d.xy
  xz := d.xz
  yz := d.yz
  xyz := d.xyz

@[simp] theorem argument_ofArgument (d : Mixed₃ (Value K a)) :
    (ofArgument d : Motion K Γ a).argument = d := by
  simp [argument, ofArgument]

end Motion

namespace Tree

/-- The parts of first, second and third order in the answer of a tree to a motion. -/
def response (f : Tree K L a s) (M : Motion K Γ a) : Mixed₃ (Value K s) where
  x := f.d₁ M.X M.dx
  y := f.d₁ M.Y M.dy
  z := f.d₁ M.Z M.dz
  xy := (f.d₂ M.X M.Y M.dx M.dy).add (f.d₁ .argument M.xy)
  xz := (f.d₂ M.X M.Z M.dx M.dz).add (f.d₁ .argument M.xz)
  yz := (f.d₂ M.Y M.Z M.dy M.dz).add (f.d₁ .argument M.yz)
  xyz := (f.d₃ M.X M.Y M.Z M.dx M.dy M.dz).add ((f.d₂ .argument M.Y M.xz M.dy).add
    ((f.d₂ M.X .argument M.dx M.yz).add ((f.d₂ .argument M.Z M.xy M.dz).add
      (f.d₁ .argument M.xyz))))

variable (M : Motion K Γ a)

/-- By the rules of differentiation the answers are composed as the tree is. A multiple answers with
a multiple. -/
theorem response_scale (c : K) (f : Tree K L a s) (v : Value K s) :
    (scale c f v).response M = (f.response M).scale c := by
  simp only [response, Mixed₃.scale, d₁_scale, d₂_scale, d₃_scale, Value.add_scale]

theorem response_sum (f g : Tree K L a s) (v : Value K s) :
    (sum f g v).response M = (f.response M).add (g.response M) := by
  simp only [response, Mixed₃.add, d₁_sum, d₂_sum, d₃_sum, Mixed₃.mk.injEq, true_and]
  refine ⟨?_, ?_, ?_, ?_⟩ <;> ac_rfl

/-- A product answers by the rule of Leibniz. -/
theorem response_product (m : Pairing s t u) (f : Tree K L a s) (g : Tree K L a t)
    (v : Value K u) :
    (product m f g v).response M =
      .product m f.value (f.response M) g.value (g.response M) := by
  simp only [response, Mixed₃.product, d₁_product, d₂_product, d₃_product, m.apply_add_left,
    m.apply_add_right, Mixed₃.mk.injEq, true_and]
  refine ⟨?_, ?_, ?_, ?_⟩ <;> ac_rfl

/-- The rule for a square is that for a product with both factors the same, since numbers commute. -/
theorem response_squared (m : Pairing .scalar .scalar .scalar) (f : Tree K L a .scalar) (v : K) :
    (squared m f v : Tree K L a .scalar).response M =
      .product m f.value (f.response M) f.value (f.response M) := by
  have hadd (x y : K) : (Value.add x y : Value K .scalar) = x + y := rfl
  have hscale (x : K) : (Value.scale x (Scalar.int 2 : K) : Value K .scalar) = x + x :=
    Scalar.mul_int_two x
  have hmul (x y : K) : m.apply x y = x * y := by
    cases m <;> rfl
  simp only [response, Mixed₃.product, d₁_squared, d₂_squared, d₃_squared, hadd, hmul, hscale,
    Mixed₃.mk.injEq]
  refine ⟨?_, ?_, ?_, ?_, ?_, ?_, ?_⟩ <;> ring

theorem response_extremum (e : Extremum) (f g : Tree K L a s) (v : Value K s)
    (firstActive : Bool) :
    (extremum e f g v firstActive).response M =
      if firstActive then f.response M else g.response M := by
  cases firstActive <;> simp only [response, d₁_extremum, d₂_extremum, d₃_extremum] <;> rfl

/-- The outer function of a composition answers to the motion of the inner one. -/
theorem response_chain {f : Tree K L b s} {g : Tree K L a b} (hf : f.Additive) :
    (chain f g).response M = f.response (.ofArgument (g.response M)) := by
  simp only [response, Motion.ofArgument, d₁_chain _ hf, d₂_chain _ _ hf, d₃_chain _ _ _ hf,
    hf.first, hf.second_left, hf.second_right, Mixed₃.mk.injEq, true_and]
  refine ⟨?_, ?_, ?_, ?_⟩ <;> ac_rfl

end Tree

end Directional
