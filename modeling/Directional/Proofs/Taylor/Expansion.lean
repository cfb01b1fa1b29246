import Mathlib.Tactic.FieldSimp
import Directional.Proofs.Taylor.Response
import Directional.Proofs.Tree.Settled

namespace Directional

variable {K : Type} [Field K] [Primitives K] {Γ : Nat → Shape} {a b s t u : Shape}

/-- The Taylor expansion of a value with the given coefficients. -/
structure Value.ExpandsTo (x : Value (Taylor K) s) (v : Value K s) (d : Mixed₃ (Value K s)) :
    Prop where
  base : x.base = v
  coefficients : x.coefficients = d

namespace Value.ExpandsTo

variable {x y : Value (Taylor K) s} {v w : Value K s} {d e : Mixed₃ (Value K s)}

/-- A constant value expands to itself. -/
theorem const (v : Value K s) :
    v.const.ExpandsTo v ⟨zero, zero, zero, zero, zero, zero, zero⟩ :=
  ⟨base_const v, coefficients_const v⟩

/-- Sums expand term by term. -/
theorem add (hx : x.ExpandsTo v d) (hy : y.ExpandsTo w e) :
    (x.add y).ExpandsTo (v.add w) (d.add e) where
  base := by rw [base_add, hx.base, hy.base]
  coefficients := by rw [coefficients_add, hx.coefficients, hy.coefficients]

theorem scale (hx : x.ExpandsTo v d) (c : K) :
    (x.scale (Taylor.const c)).ExpandsTo (v.scale c) (d.scale c) where
  base := by rw [base_scale_const, hx.base]
  coefficients := by rw [coefficients_scale_const, hx.coefficients]

/-- Products expand by the rule of Leibniz. -/
theorem apply (m : Pairing s t u) {y : Value (Taylor K) t} {w : Value K t}
    {e : Mixed₃ (Value K t)} (hx : x.ExpandsTo v d) (hy : y.ExpandsTo w e) :
    (m.apply x y).ExpandsTo (m.apply v w) (.product m v d w e) where
  base := by rw [m.base_apply, hx.base, hy.base]
  coefficients := by
    rw [m.coefficients_apply, hx.base, hy.base, hx.coefficients, hy.coefficients]

end Value.ExpandsTo

/-- The Taylor polynomial of third order around `p` with the given value and derivatives. -/
def Jet.polynomial (c : Jet K) (p : K) (x : Taylor K) : Taylor K :=
  Taylor.const c.value + Taylor.const c.first * (x - Taylor.const p) +
    Taylor.const (c.second / 2) * (x - Taylor.const p) ^ 2 +
    Taylor.const (c.third / 6) * (x - Taylor.const p) ^ 3

/-- The rule of Faà di Bruno for a polynomial. -/
theorem Jet.expandsTo_polynomial (two : (2 : K) ≠ 0) (three : (3 : K) ≠ 0) (c : Jet K) {p : K}
    {x : Taylor K} {d : Mixed₃ K} (hx : Value.ExpandsTo (s := .scalar) x p d) :
    Value.ExpandsTo (s := .scalar) (c.polynomial p x) c.value
      { x := c.first * d.x
        y := c.first * d.y
        z := c.first * d.z
        xy := c.second * d.x * d.y + c.first * d.xy
        xz := c.second * d.x * d.z + c.first * d.xz
        yz := c.second * d.y * d.z + c.first * d.yz
        xyz := c.third * d.x * d.y * d.z + (c.second * d.xz * d.y + (c.second * d.x * d.yz +
          (c.second * d.xy * d.z + c.first * d.xyz))) } := by
  have six : (6 : K) ≠ 0 := by
    rw [show (6 : K) = 2 * 3 by norm_num]
    exact mul_ne_zero two three
  obtain ⟨rfl, rfl⟩ := hx
  constructor
  · simp [Value.base, Value.fst, Value.map, polynomial, Taylor.const]
  · simp only [Value.coefficients, Value.base, Value.fst, Value.snd, Value.map, Mixed₃.mk.injEq]
    refine ⟨?_, ?_, ?_, ?_, ?_, ?_, ?_⟩ <;>
      simp [polynomial, Taylor.const, pow_succ] <;> field_simp <;> ring

/-- What the leaves of a tree take for the argument and the variables that they hold. -/
structure Reading (K : Type) (Γ : Nat → Shape) (a : Shape) where
  argument : Value K a → Value (Taylor K) a
  var : (i : Nat) → Value K (Γ i) → Value (Taylor K) (Γ i)

/-- A leaf under a reading. An elementary function is the Taylor polynomial around the argument
that it holds. A leaf that is not expanded stands for its value. -/
def Builtin.expand : {a s : Shape} → Builtin K Γ a s → Reading K Γ a → Value (Taylor K) s
  | _, _, identity p, ρ => ρ.argument p
  | _, _, var i h v, ρ => (ρ.var i (v.cast h.symm)).cast h
  | _, _, elementary e, ρ => e.jet.polynomial e.argument (ρ.argument e.argument)
  | _, _, l, _ => l.value.const

namespace Tree

/-- A tree under a reading. A minimum or maximum is its active operand, and the argument of the
outer function of a composition is the expansion of the inner one. -/
def expand : {a s : Shape} → Tree K (Builtin K Γ) a s → Reading K Γ a → Value (Taylor K) s
  | _, _, leaf l, ρ => l.expand ρ
  | _, _, scale c f _, ρ => (f.expand ρ).scale (Taylor.const c)
  | _, _, squared m f _, ρ => m.apply (f.expand ρ) (f.expand ρ)
  | _, _, sum f g _, ρ => (f.expand ρ).add (g.expand ρ)
  | _, _, product m f g _, ρ => m.apply (f.expand ρ) (g.expand ρ)
  | _, _, extremum _ f g _ firstActive, ρ => if firstActive then f.expand ρ else g.expand ρ
  | _, _, chain f g, ρ => f.expand ⟨fun _ => g.expand ρ, ρ.var⟩

/-- The trees that are expanded: their leaves are constants, arguments, variables and elementary
functions, only numbers are squared, and the outer function of a composition has no variables. -/
def Expandable : {a s : Shape} → Tree K (Builtin K Γ) a s → Prop
  | _, _, leaf l => l.Expandable
  | _, _, scale _ f _ => f.Expandable
  | _, s, squared _ f _ => s = .scalar ∧ f.Expandable
  | _, _, sum f g _ => f.Expandable ∧ g.Expandable
  | _, _, product _ f g _ => f.Expandable ∧ g.Expandable
  | _, _, extremum _ f g _ _ => f.Expandable ∧ g.Expandable
  | _, _, chain f g => (∀ i, f.reactsTo i = false) ∧ f.Expandable ∧ g.Expandable

/-- The leaves that the expansion knows have additive derivatives. -/
theorem additive_of_expandable_leaf {l : Builtin K Γ a s} (h : l.Expandable) :
    (leaf l : Tree K (Builtin K Γ) a s).Additive := by
  cases l with
  | constant v =>
    constructor <;> intros <;> simp only [d₁_constant, d₂_constant, d₃_constant, Value.add_zero]
  | identity p =>
    constructor <;> intros <;>
      simp only [d₁_identity, d₂_identity, d₃_identity, Slot.along_add, Value.add_zero]
  | var i shape v =>
    subst shape
    constructor <;> intros <;> simp only [d₁_var, d₂_var, d₃_var, Slot.along_add, Value.add_zero]
  | elementary e =>
    have hadd (x y : K) : (Value.add x y : Value K .scalar) = x + y := rfl
    constructor <;> intros <;>
      simp only [d₁_elementary, d₂_elementary, d₃_elementary, Slot.along_add, hadd] <;> ring
  | trace | det | secondInvariant | strain | squaredNorm => exact h.elim

theorem additive_of_expandable {f : Tree K (Builtin K Γ) a s} (h : f.Expandable) : f.Additive := by
  induction f with
  | leaf l => exact additive_of_expandable_leaf h
  | scale c f v ih => exact .scale c (ih h) v
  | squared m f v ih => exact .squared m (ih h.2) v
  | sum f g v ihf ihg => exact .sum (ihf h.1) (ihg h.2) v
  | product m f g v ihf ihg => exact .product m (ihf h.1) (ihg h.2) v
  | extremum e f g v firstActive ihf ihg => exact .extremum e (ihf h.1) (ihg h.2) v firstActive
  | chain f g ihf ihg => exact .chain (ihf h.2.1) (ihg h.2.2)

/-- What a tree holds is read as moved along the motion `M`. -/
structure Follows (f : Tree K (Builtin K Γ) a s) (ρ : Reading K Γ a) (M : Motion K Γ a) :
    Prop where
  argument : f.StandsIn fun p => (ρ.argument p).ExpandsTo p M.argument
  var (i : Nat) (h : f.reactsTo i = true) (v : Value K (Γ i)) : (ρ.var i v).ExpandsTo v (M.var i)

section Follows

variable {ρ : Reading K Γ a} {M : Motion K Γ a}

/-- What a tree is told of the motion, its operands are told as well. -/
theorem Follows.operands {h : Tree K (Builtin K Γ) a u} {f : Tree K (Builtin K Γ) a s}
    {g : Tree K (Builtin K Γ) a t} (follows : h.Follows ρ M)
    (hargument : ∀ P, h.StandsIn P → f.StandsIn P ∧ g.StandsIn P)
    (hvar : ∀ i, h.reactsTo i = (f.reactsTo i || g.reactsTo i)) :
    f.Follows ρ M ∧ g.Follows ρ M := by
  obtain ⟨hf, hg⟩ := hargument _ follows.argument
  constructor
  · refine ⟨hf, ?_⟩
    intro i hi v
    exact follows.var i (by rw [hvar, hi, Bool.true_or]) v
  · refine ⟨hg, ?_⟩
    intro i hi v
    exact follows.var i (by rw [hvar, hi, Bool.or_true]) v

/-- A leaf that is moved expands to what it answers. -/
theorem expandsTo_leaf (two : (2 : K) ≠ 0) (three : (3 : K) ≠ 0) {l : Builtin K Γ a s}
    (h : l.Expandable) (follows : (leaf l : Tree K (Builtin K Γ) a s).Follows ρ M) :
    (l.expand ρ).ExpandsTo l.value ((leaf l : Tree K (Builtin K Γ) a s).response M) := by
  cases l with
  | constant v =>
    simp only [response, d₁_constant, d₂_constant, d₃_constant, Value.add_zero]
    exact .const v
  | identity p =>
    simp only [response, d₁_identity, d₂_identity, d₃_identity, Slot.along_self, Value.zero_add]
    exact follows.argument
  | var i shape v =>
    subst shape
    simp only [response, d₁_var, d₂_var, d₃_var, Slot.along_argument_var, Value.zero_add]
    exact follows.var i (beq_self_eq_true i) v
  | elementary e =>
    simp only [response, d₁_elementary, d₂_elementary, d₃_elementary, Slot.along_self]
    exact e.jet.expandsTo_polynomial two three follows.argument
  | trace | det | secondInvariant | strain | squaredNorm => exact h.elim

end Follows

/-- A settled tree expands to its value and its answers to the motion, whatever parts of second and
third order the argument has. -/
theorem expandsTo_response (two : (2 : K) ≠ 0) (three : (3 : K) ≠ 0)
    {f : Tree K (Builtin K Γ) a s} (settled : f.Settled) (h : f.Expandable) {ρ : Reading K Γ a}
    {M : Motion K Γ a} (follows : f.Follows ρ M) :
    (f.expand ρ).ExpandsTo f.value (f.response M) := by
  -- The induction is on the tree for all readings and motions at once: in a composition the outer
  -- function is read at the expansion of the inner one, which has parts of all orders.
  induction f with
  | leaf l => exact expandsTo_leaf two three h follows
  | scale c f v ih =>
    obtain ⟨hsettled, rfl⟩ := settled
    have hexpand := ih hsettled h ⟨follows.argument, follows.var⟩
    rw [response_scale]
    exact hexpand.scale c
  | squared m f v ih =>
    obtain ⟨hsettled, rfl⟩ := settled
    obtain ⟨rfl, hf⟩ := h
    have hexpand := ih hsettled hf ⟨follows.argument, follows.var⟩
    rw [response_squared]
    exact .apply m hexpand hexpand
  | sum f g v ihf ihg =>
    obtain ⟨hf, hg, rfl⟩ := settled
    obtain ⟨followsf, followsg⟩ := follows.operands (fun _ => id) fun _ => rfl
    have hexpandf := ihf hf h.1 followsf
    have hexpandg := ihg hg h.2 followsg
    rw [response_sum]
    exact hexpandf.add hexpandg
  | product m f g v ihf ihg =>
    obtain ⟨hf, hg, rfl⟩ := settled
    obtain ⟨followsf, followsg⟩ := follows.operands (fun _ => id) fun _ => rfl
    have hexpandf := ihf hf h.1 followsf
    have hexpandg := ihg hg h.2 followsg
    rw [response_product]
    exact .apply m hexpandf hexpandg
  | extremum e f g v firstActive ihf ihg =>
    obtain ⟨hf, hg, -, rfl⟩ := settled
    obtain ⟨followsf, followsg⟩ := follows.operands (fun _ => id) fun _ => rfl
    rw [response_extremum]
    cases firstActive with
    | true => exact ihf hf h.1 followsf
    | false => exact ihg hg h.2 followsg
  | chain f g ihf ihg =>
    obtain ⟨hf, hg, hstands⟩ := settled
    obtain ⟨hvar, hfexp, hgexp⟩ := h
    have hinner := ihg hg hgexp ⟨follows.argument, follows.var⟩
    rw [response_chain M (additive_of_expandable hfexp)]
    apply ihf hf hfexp
    constructor
    · rw [Motion.argument_ofArgument]
      apply hstands.mono
      intro p hp
      rw [hp]
      exact hinner
    · intro i hi
      rw [hvar i] at hi
      nomatch hi

/-- The reading that moves the argument and the variables from what is held, along `e₁` in the
direction `dx` of the slot `X`, along `e₂` in `dy` of `Y` and along `e₃` in `dz` of `Z`. -/
def perturbation (X Y Z : Slot) (dx : Value K (X.shape Γ a)) (dy : Value K (Y.shape Γ a))
    (dz : Value K (Z.shape Γ a)) : Reading K Γ a where
  argument p := .perturbed p (X.along .argument dx) (Y.along .argument dy) (Z.along .argument dz)
  var i p := .perturbed p (X.along (.var i) dx) (Y.along (.var i) dy) (Z.along (.var i) dz)

/-- Moving the slots along three numbers is the motion of three directions. -/
theorem follows_perturbation (f : Tree K (Builtin K Γ) a s) (X Y Z : Slot)
    (dx : Value K (X.shape Γ a)) (dy : Value K (Y.shape Γ a)) (dz : Value K (Z.shape Γ a)) :
    f.Follows (perturbation X Y Z dx dy dz) ⟨X, Y, Z, dx, dy, dz, .zero, .zero, .zero, .zero⟩ := by
  constructor
  · apply standsIn_of_forall
    intro p
    exact ⟨Value.base_perturbed _ _ _ _, Value.coefficients_perturbed _ _ _ _⟩
  · intro i _ v
    exact ⟨Value.base_perturbed _ _ _ _, Value.coefficients_perturbed _ _ _ _⟩

/-- The derivatives of a tree are the coefficients of its Taylor expansion. Let a tree be built and
have accepted any sequence of calls, and let its argument and variables be perturbed by `e₁ * dx` in
the slot `X`, `e₂ * dy` in `Y` and `e₃ * dz` in `Z`, which may be any slots, also the same ones.
What the tree evaluates to has the value of the tree as its part without `e₁`, `e₂` and `e₃`, and
the first, second and third derivatives of the tree as its coefficients. -/
theorem expand_eq_derivatives (two : (2 : K) ≠ 0) (three : (3 : K) ≠ 0)
    {f : Formula K (Seed K Γ) a s} {t₀ t : Tree K (Builtin K Γ) a s} {calls : List (Call K Γ a)}
    (built : f.tree? = .ok t₀) (accepted : t₀.run calls = .ok t) (expandable : t.Expandable)
    (X Y Z : Slot) (dx : Value K (X.shape Γ a)) (dy : Value K (Y.shape Γ a))
    (dz : Value K (Z.shape Γ a)) :
    (t.expand (perturbation X Y Z dx dy dz)).ExpandsTo t.value
      { x := t.d₁ X dx
        y := t.d₁ Y dy
        z := t.d₁ Z dz
        xy := t.d₂ X Y dx dy
        xz := t.d₂ X Z dx dz
        yz := t.d₂ Y Z dy dz
        xyz := t.d₃ X Y Z dx dy dz } := by
  have settled : t.Settled := Formula.settled_of_run built accepted
  have hexpand := expandsTo_response two three settled expandable
    (follows_perturbation t X Y Z dx dy dz)
  have hadditive := additive_of_expandable expandable
  simpa only [response, hadditive.first_zero, hadditive.second_zero_left,
    hadditive.second_zero_right, Value.add_zero] using hexpand

/-- The function `c * x + ln x` of the argument `x` and the variable `c`, after it has been moved
to `c = 2`, along `c` once and along `x` twice. -/
theorem expand_eq_derivatives_line_and_logarithm :
    let f : Formula ℚ (Seed ℚ fun _ => .scalar) .scalar .scalar :=
      .sum (.product .scalars (.leaf (.var 0 rfl 1)) (.leaf (.identity 1)))
        (.chain (.leaf (.elementary .ln 1)) (.leaf (.identity 1)))
    let t (c : ℚ) : Tree ℚ (Builtin ℚ fun _ => .scalar) .scalar .scalar :=
      .mkSum (.mkProduct .scalars (.leaf (.var 0 rfl c)) (.leaf (.identity 1)))
        (.chain (.leaf (.elementary ⟨.ln, 1, ElementaryFunction.ln.jet 1⟩)) (.leaf (.identity 1)))
    let calls : List (Call ℚ (fun _ => .scalar) .scalar) := [.update 1, .write 0 2]
    (2 : ℚ) ≠ 0 ∧ (3 : ℚ) ≠ 0 ∧ f.tree? = .ok (t 1) ∧ (t 1).run calls = .ok (t 2) ∧
      (t 2).Expandable ∧
      ((t 2).expand (perturbation (.var 0) .argument .argument (1 : ℚ) (1 : ℚ) (1 : ℚ))).ExpandsTo
        (2 : ℚ) ⟨(1 : ℚ), (3 : ℚ), (3 : ℚ), (1 : ℚ), (1 : ℚ), (-1 : ℚ), (0 : ℚ)⟩ := by
  intro f t calls
  have built : f.tree? = .ok (t 1) := rfl
  have accepted : (t 1).run calls = .ok (t 2) := rfl
  have expandable : (t 2).Expandable := ⟨⟨trivial, trivial⟩, fun _ => rfl, trivial, trivial⟩
  have hexpand := expand_eq_derivatives two_ne_zero three_ne_zero built accepted expandable
    (.var 0) .argument .argument (1 : ℚ) (1 : ℚ) (1 : ℚ)
  have hvalue : (t 2).value = (2 : ℚ) := by decide +kernel
  have hc : (t 2).d₁ (.var 0) (1 : ℚ) = (1 : ℚ) := by decide +kernel
  have hx : (t 2).d₁ .argument (1 : ℚ) = (3 : ℚ) := by decide +kernel
  have hcx : (t 2).d₂ (.var 0) .argument (1 : ℚ) (1 : ℚ) = (1 : ℚ) := by decide +kernel
  have hxx : (t 2).d₂ .argument .argument (1 : ℚ) (1 : ℚ) = (-1 : ℚ) := by decide +kernel
  have hcxx : (t 2).d₃ (.var 0) .argument .argument (1 : ℚ) (1 : ℚ) (1 : ℚ) = (0 : ℚ) := by
    decide +kernel
  rw [hvalue, hc, hx, hcx, hxx, hcxx] at hexpand
  exact ⟨two_ne_zero, three_ne_zero, built, accepted, expandable, hexpand⟩

end Tree

end Directional
