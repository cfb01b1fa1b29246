import Mathlib.Tactic.Linarith
import Directional.Proofs.Tree.Operands
import Directional.Proofs.Tree.Regrouping
import Directional.Tree.Root
import Directional.Tree.Total

namespace Directional

/-- Numbers all of which compare, with an addition in which the order does not matter and a
multiplication by minus one that turns comparisons around and undoes itself. -/
class Scalar.ReversibleOrder (K : Type) [Scalar K] : Prop where
  le_total (x y : K) : le x y = true ∨ le y x = true
  same_eq (x y : K) : same x y = (le x y && le y x)
  le_mul_neg_one (x y : K) : le (x * -1) (y * -1) = le y x
  mul_neg_one_mul_neg_one (x : K) : x * -1 * -1 = x
  add_comm (x y : K) : x + y = y + x

instance : Scalar.ReversibleOrder ℚ where
  le_total x y := by
    change decide (x ≤ y) = true ∨ decide (y ≤ x) = true
    simpa using le_total x y
  same_eq x y := by
    change decide (x = y) = (decide (x ≤ y) && decide (y ≤ x))
    rw [← Bool.decide_and, decide_eq_decide]
    exact le_antisymm_iff
  le_mul_neg_one x y := by
    change decide (x * -1 ≤ y * -1) = decide (y ≤ x)
    rw [decide_eq_decide]
    constructor <;> intro h <;> linarith
  mul_neg_one_mul_neg_one x := by
    change x * -1 * -1 = x
    ring
  add_comm := add_comm

namespace Extremum

/-- The other one of minimum and maximum. -/
def opposite : Extremum → Extremum
  | min => max
  | max => min

variable {K : Type} [Scalar K] [Scalar.ReversibleOrder K] (e : Extremum) (x y : Value K .scalar)

/-- What is chosen is chosen by the opposite if all signs are changed. -/
theorem prefersFirst_opposite_scale :
    e.opposite.prefersFirst (x.scale (-1)) (y.scale (-1)) = e.prefersFirst x y := by
  cases e with
  | min => exact Scalar.ReversibleOrder.le_mul_neg_one (K := K) y x
  | max => exact Scalar.ReversibleOrder.le_mul_neg_one (K := K) x y

/-- Minimum and maximum both choose the first of two values if they are equal. -/
theorem prefersFirst_of_same (h : Value.same x y = true) : e.prefersFirst x y = true := by
  change Scalar.same (K := K) x y = true at h
  rw [Scalar.ReversibleOrder.same_eq, Bool.and_eq_true] at h
  cases e with
  | min => exact h.1
  | max => exact h.2

/-- If they are not, one of minimum and maximum chooses the first and the other one does not. -/
theorem prefersFirst_opposite_of_not_same (h : Value.same x y = false) :
    e.opposite.prefersFirst x y = !e.prefersFirst x y := by
  have hsame : (Scalar.le (K := K) x y && Scalar.le (K := K) y x) = false :=
    (Scalar.ReversibleOrder.same_eq (K := K) x y).symm.trans h
  have htotal := Scalar.ReversibleOrder.le_total (K := K) x y
  have hdiffer : Scalar.le (K := K) y x = !Scalar.le (K := K) x y := by
    revert hsame htotal
    cases Scalar.le (K := K) x y <;> cases Scalar.le (K := K) y x <;> simp
  cases e with
  | min => exact hdiffer
  | max =>
    change Scalar.le (K := K) x y = !Scalar.le (K := K) y x
    rw [hdiffer, Bool.not_not]

/-- What is chosen is preferred to both values. -/
theorem prefersFirst_chosen :
    e.prefersFirst (if e.prefersFirst x y then x else y) x = true ∧
      e.prefersFirst (if e.prefersFirst x y then x else y) y = true := by
  have hrefl (z : Value K .scalar) : e.prefersFirst z z = true := by
    have hle : Scalar.le (K := K) z z = true :=
      (Scalar.ReversibleOrder.le_total (K := K) z z).elim id id
    cases e <;> exact hle
  cases h : e.prefersFirst x y with
  | true => exact ⟨hrefl x, h⟩
  | false =>
    have htotal := Scalar.ReversibleOrder.le_total (K := K) x y
    refine ⟨?_, hrefl y⟩
    cases e with
    | min => exact htotal.resolve_left (ne_true_of_eq_false h)
    | max => exact htotal.resolve_right (ne_true_of_eq_false h)

end Extremum

section Sign

variable {K : Type} [Scalar K] [Scalar.ReversibleOrder K]

/-- Changing the sign twice changes nothing. -/
theorem Value.scale_scale_neg_one (x : Value K .scalar) : (x.scale (-1)).scale (-1) = x :=
  Scalar.ReversibleOrder.mul_neg_one_mul_neg_one (K := K) x

/-- Values are the same if their negatives are. -/
theorem Value.same_scale_neg_one (x y : Value K .scalar) :
    Value.same (x.scale (-1)) (y.scale (-1)) = Value.same x y := by
  change Scalar.same (K := K) (x * -1) (y * -1) = Scalar.same (K := K) x y
  rw [Scalar.ReversibleOrder.same_eq, Scalar.ReversibleOrder.same_eq,
    Scalar.ReversibleOrder.le_mul_neg_one, Scalar.ReversibleOrder.le_mul_neg_one, Bool.and_comm]

theorem Value.add_comm_of_reversible (x y : Value K .scalar) : x.add y = y.add x :=
  Scalar.ReversibleOrder.add_comm (K := K) x y

theorem Term.scale_scale_neg_one (x : Term K .scalar) : (x.scale (-1)).scale (-1) = x := by
  cases x with
  | none => rfl
  | some x => exact congrArg some (Value.scale_scale_neg_one x)

end Sign

namespace Tree

variable {K : Type} [Scalar K] {Γ : Nat → Shape} {L : Shape → Shape → Type} [Leaf K Γ L]
  {a : Shape}

/-- The function `f` with its sign changed. -/
def mkNeg (f : Tree K L a .scalar) : Tree K L a .scalar :=
  mkScale (-1) f

/-- The opposite of `e` over `f` and `g` with their signs changed. -/
def mkReflected (e : Extremum) (f g : Tree K L a .scalar) : Tree K L a .scalar :=
  mkExtremum e.opposite f.mkNeg g.mkNeg

/-- A call comes to the operands through all changes of sign. -/
theorem toExcept_call_mkNeg_mkReflected (e : Extremum) (f g : Tree K L a .scalar)
    (c : Call K Γ a) :
    ((mkReflected e f g).mkNeg.call c).toExcept =
      (fun p => (mkReflected e p.1 p.2).mkNeg) <$> f.callBoth g c := by
  rw [mkNeg, toExcept_call_mkScale, mkReflected, toExcept_call?_mkExtremum, mkNeg, mkNeg,
    callBoth_mkScale]
  cases f.callBoth g c <;> rfl

theorem run_mkNeg_mkReflected (e : Extremum) (f g : Tree K L a .scalar)
    (calls : List (Call K Γ a)) :
    (mkReflected e f g).mkNeg.run calls =
      (fun p => (mkReflected e p.1 p.2).mkNeg) <$> f.runBoth g calls :=
  run_eq_map_runBoth (n := fun f g => (mkReflected e f g).mkNeg)
    (toExcept_call_mkNeg_mkReflected e) f g calls

section Rules

variable {X Y Z : Slot} (dx : Value K (X.shape Γ a)) (dy : Value K (Y.shape Γ a))
  (dz : Value K (Z.shape Γ a)) (e : Extremum) (f g : Tree K L a .scalar)

/-- The derivatives of a function with its sign changed have their signs changed. -/
theorem d₁?_mkNeg : f.mkNeg.d₁? X dx = (f.d₁? X dx).scale (-1) :=
  d₁?_scale dx (-1) f _

theorem d₂?_mkNeg : f.mkNeg.d₂? X Y dx dy = (f.d₂? X Y dx dy).scale (-1) :=
  d₂?_scale dx dy (-1) f _

theorem d₃?_mkNeg : f.mkNeg.d₃? X Y Z dx dy dz = (f.d₃? X Y Z dx dy dz).scale (-1) :=
  d₃?_scale dx dy dz (-1) f _

/-- A minimum or maximum that has just been put together answers with the operand that it prefers.
-/
theorem d₁?_mkExtremum :
    (mkExtremum e f g).d₁? X dx =
      if e.prefersFirst f.value g.value then f.d₁? X dx else g.d₁? X dx :=
  d₁?_extremum dx e f g _ _

theorem d₂?_mkExtremum :
    (mkExtremum e f g).d₂? X Y dx dy =
      if e.prefersFirst f.value g.value then f.d₂? X Y dx dy else g.d₂? X Y dx dy :=
  d₂?_extremum dx dy e f g _ _

theorem d₃?_mkExtremum :
    (mkExtremum e f g).d₃? X Y Z dx dy dz =
      if e.prefersFirst f.value g.value then f.d₃? X Y Z dx dy dz else g.d₃? X Y Z dx dy dz :=
  d₃?_extremum dx dy dz e f g _ _

end Rules

variable [Scalar.ReversibleOrder K]

/-- An extremum `p`, and an extremum `q` that becomes the same as `p` if its sign is changed. -/
structure Dual (p q : Tree K L a .scalar) : Prop where
  members : SameMembers p q.mkNeg
  answers : SameAnswers p q.mkNeg
  firstActive : q.firstActive? = p.firstActive?
  atKink : q.atKink? = p.atKink?

section Dual

variable (e : Extremum) (f g : Tree K L a .scalar)

/-- Each of minimum and maximum is the other one with all signs changed: it has the same value and
the same members. -/
theorem sameMembers_mkReflected : SameMembers (mkExtremum e f g) (mkReflected e f g).mkNeg := by
  constructor
  · change Value.scale (if e.opposite.prefersFirst (f.value.scale (-1)) (g.value.scale (-1)) then
        f.value.scale (-1) else g.value.scale (-1)) (-1) =
      if e.prefersFirst f.value g.value then f.value else g.value
    rw [e.prefersFirst_opposite_scale]
    split <;> exact Value.scale_scale_neg_one _
  all_goals intros; rfl

/-- The sign of the active operand is changed twice. -/
private theorem scale_ite_scale (firstActive : Bool) (x y : Term K .scalar) :
    (if firstActive then x.scale (-1) else y.scale (-1)).scale (-1) =
      if firstActive then x else y := by
  split <;> exact Term.scale_scale_neg_one _

theorem sameAnswers_mkReflected : SameAnswers (mkExtremum e f g) (mkReflected e f g).mkNeg := by
  have hactive : e.opposite.prefersFirst f.mkNeg.value g.mkNeg.value =
      e.prefersFirst f.value g.value := e.prefersFirst_opposite_scale f.value g.value
  constructor
  · intro X dx
    rw [answer₁_eq_d₁? dx nofun, answer₁_eq_d₁? dx nofun, d₁?_mkNeg, mkReflected, d₁?_mkExtremum,
      d₁?_mkExtremum, d₁?_mkNeg, d₁?_mkNeg, hactive, scale_ite_scale]
  · intro X Y dx dy
    rw [answer₂_eq_d₂? dx dy nofun, answer₂_eq_d₂? dx dy nofun, d₂?_mkNeg, mkReflected,
      d₂?_mkExtremum, d₂?_mkExtremum, d₂?_mkNeg, d₂?_mkNeg, hactive, scale_ite_scale]
  · intro X Y Z dx dy dz
    rw [answer₃_eq_d₃? dx dy dz nofun, answer₃_eq_d₃? dx dy dz nofun, d₃?_mkNeg, mkReflected,
      d₃?_mkExtremum, d₃?_mkExtremum, d₃?_mkNeg, d₃?_mkNeg, hactive, scale_ite_scale]

/-- The opposite extremum of the reflected operands is the dual one. -/
theorem dual_mkReflected : Dual (mkExtremum e f g) (mkReflected e f g) where
  members := sameMembers_mkReflected e f g
  answers := sameAnswers_mkReflected e f g
  firstActive := congrArg some (e.prefersFirst_opposite_scale f.value g.value)
  atKink := congrArg some (Value.same_scale_neg_one f.value g.value)

end Dual

/-- Two trees that have between them what `f` and `g` have: their derivatives add up to the same. -/
structure Complementary (f g p q : Tree K L a .scalar) : Prop where
  first (X : Slot) (dx : Value K (X.shape Γ a)) :
    (p.d₁ X dx).add (q.d₁ X dx) = (f.d₁ X dx).add (g.d₁ X dx)
  second (X Y : Slot) (dx : Value K (X.shape Γ a)) (dy : Value K (Y.shape Γ a)) :
    (p.d₂ X Y dx dy).add (q.d₂ X Y dx dy) = (f.d₂ X Y dx dy).add (g.d₂ X Y dx dy)
  third (X Y Z : Slot) (dx : Value K (X.shape Γ a)) (dy : Value K (Y.shape Γ a))
    (dz : Value K (Z.shape Γ a)) :
    (p.d₃ X Y Z dx dy dz).add (q.d₃ X Y Z dx dy dz) =
      (f.d₃ X Y Z dx dy dz).add (g.d₃ X Y Z dx dy dz)

section Complement

variable (e : Extremum) {f g : Tree K L a .scalar}

/-- One of two values and the other one, in whichever order. -/
private theorem add_ite_not (firstActive : Bool) (x y : Term K .scalar) :
    Value.add ((if firstActive then x else y).getD .zero)
        ((if !firstActive then x else y).getD .zero) =
      Value.add (x.getD .zero) (y.getD .zero) := by
  cases firstActive with
  | true => rfl
  | false => exact Value.add_comm_of_reversible _ _

/-- Of two operands with different values each of minimum and maximum takes the one that the other
leaves. -/
theorem complementary_of_not_same (h : Value.same f.value g.value = false) :
    Complementary f g (mkExtremum e f g) (mkExtremum e.opposite f g) := by
  have hopposite := e.prefersFirst_opposite_of_not_same f.value g.value h
  constructor
  · intro X dx
    rw [d₁, d₁, d₁?_mkExtremum, d₁?_mkExtremum, hopposite]
    exact add_ite_not _ _ _
  · intro X Y dx dy
    rw [d₂, d₂, d₂?_mkExtremum, d₂?_mkExtremum, hopposite]
    exact add_ite_not _ _ _
  · intro X Y Z dx dy dz
    rw [d₃, d₃, d₃?_mkExtremum, d₃?_mkExtremum, hopposite]
    exact add_ite_not _ _ _

end Complement

/-- Minimum and maximum after any sequence of calls that one of them accepts. The operands `f` and
`g` have accepted it then, and so do both extrema over them, as well as both with the signs of the
operands and of the whole changed. The latter are the opposite extrema: they have the same value,
members and derivatives, the same operand active and the same kinks. The minimum is one of the two
values and not above any of them, the maximum is one of them and not below any. Where the values
differ, one of minimum and maximum has the first operand active and the other one the second, and
their derivatives add up to those of the operands. Where they are equal, both have the first operand
active. -/
theorem minimum_and_maximum {e₀ : Extremum} {f₀ g₀ t : Tree K L a .scalar}
    {calls : List (Call K Γ a)} (accepted : (mkExtremum e₀ f₀ g₀).run calls = .ok t) :
    ∃ f g, f₀.run? calls = .ok f ∧ g₀.run? calls = .ok g ∧ t = mkExtremum e₀ f g ∧
      let minimum := mkExtremum .min f g
      let maximum := mkExtremum .max f g
      (∀ e, (mkExtremum e f₀ g₀).run calls = .ok (mkExtremum e f g) ∧
        (mkReflected e f₀ g₀).mkNeg.run calls = .ok (mkReflected e f g).mkNeg ∧
        Dual (mkExtremum e f g) (mkReflected e f g)) ∧
      (Value.le minimum.value f.value = true ∧ Value.le minimum.value g.value = true ∧
        (minimum.value = f.value ∨ minimum.value = g.value)) ∧
      (Value.ge maximum.value f.value = true ∧ Value.ge maximum.value g.value = true ∧
        (maximum.value = f.value ∨ maximum.value = g.value)) ∧
      (minimum.atKink? = some false →
        (∃ b, minimum.firstActive? = some b ∧ maximum.firstActive? = some !b) ∧
          Complementary f g minimum maximum) ∧
      (minimum.atKink? = some true →
        minimum.firstActive? = some true ∧ maximum.firstActive? = some true) := by
  obtain ⟨f, g, hf, hg, hboth, ht⟩ := operands_of_run (run_mkExtremum e₀ f₀ g₀ calls) accepted
  refine ⟨f, g, hf, hg, ht, ?_, ?_, ?_, ?_, ?_⟩
  · intro e
    refine ⟨?_, ?_, dual_mkReflected e f g⟩
    · rw [run_mkExtremum, hboth]
      rfl
    · rw [run_mkNeg_mkReflected, hboth]
      rfl
  · obtain ⟨hle, hle'⟩ := Extremum.min.prefersFirst_chosen f.value g.value
    exact ⟨hle, hle', value_mkExtremum .min f g⟩
  · obtain ⟨hge, hge'⟩ := Extremum.max.prefersFirst_chosen f.value g.value
    exact ⟨hge, hge', value_mkExtremum .max f g⟩
  · intro hkink
    have hdiffer : Value.same f.value g.value = false := Option.some.inj hkink
    have hopposite := Extremum.min.prefersFirst_opposite_of_not_same f.value g.value hdiffer
    exact ⟨⟨_, rfl, congrArg some hopposite⟩, complementary_of_not_same .min hdiffer⟩
  · intro hkink
    have hsame : Value.same f.value g.value = true := Option.some.inj hkink
    exact ⟨congrArg some (Extremum.min.prefersFirst_of_same f.value g.value hsame),
      congrArg some (Extremum.max.prefersFirst_of_same f.value g.value hsame)⟩

/-- The variable `v` and the argument `x`, with `v = 5` and `x = 3` and then with both of them
three. -/
theorem minimum_and_maximum_variable_and_argument :
    let f (v : ℚ) : Tree ℚ (Builtin ℚ fun _ => .scalar) .scalar .scalar := leaf (.var 0 rfl v)
    let g (x : ℚ) : Tree ℚ (Builtin ℚ fun _ => .scalar) .scalar .scalar := leaf (.identity x)
    let calls : List (Call ℚ (fun _ => .scalar) .scalar) := [.write 0 (5 : ℚ), .update (3 : ℚ)]
    let minimum := mkExtremum .min (f 5) (g 3)
    let maximum := mkExtremum .max (f 5) (g 3)
    ((mkExtremum .min (f 1) (g 1)).run calls = .ok minimum ∧
      (mkReflected .min (f 1) (g 1)).mkNeg.run calls = .ok (mkReflected .min (f 5) (g 3)).mkNeg ∧
      Dual minimum (mkReflected .min (f 5) (g 3)) ∧
      minimum.value = (3 : ℚ) ∧ Value.le minimum.value (f 5).value = true ∧
      minimum.atKink? = some false ∧ minimum.firstActive? = some false ∧
      maximum.firstActive? = some true ∧ Complementary (f 5) (g 3) minimum maximum) ∧
    ((mkExtremum .min (f 5) (g 3)).run [.write 0 (3 : ℚ)] = .ok (mkExtremum .min (f 3) (g 3)) ∧
      (mkExtremum .min (f 3) (g 3)).atKink? = some true ∧
      (mkExtremum .max (f 3) (g 3)).firstActive? = some true) := by
  intro f g calls minimum maximum
  constructor
  · have accepted : (mkExtremum .min (f 1) (g 1)).run calls = .ok minimum := rfl
    obtain ⟨f', g', hf, hg, -, hruns, ⟨hle, -⟩, -, hdiffer, -⟩ := minimum_and_maximum accepted
    obtain rfl : f 5 = f' := Except.ok.inj hf
    obtain rfl : g 3 = g' := Except.ok.inj hg
    obtain ⟨-, hreflected, hdual⟩ := hruns .min
    have hkink : minimum.atKink? = some false := by decide +kernel
    obtain ⟨-, hcomplementary⟩ := hdiffer hkink
    exact ⟨accepted, hreflected, hdual, by decide +kernel, hle, hkink, by decide +kernel,
      by decide +kernel, hcomplementary⟩
  · have accepted : (mkExtremum .min (f 5) (g 3)).run [.write 0 (3 : ℚ)] =
        .ok (mkExtremum .min (f 3) (g 3)) := rfl
    obtain ⟨f', g', hf, hg, -, -, -, -, -, hequal⟩ := minimum_and_maximum accepted
    obtain rfl : f 3 = f' := Except.ok.inj hf
    obtain rfl : g 3 = g' := Except.ok.inj hg
    have hkink : (mkExtremum .min (f 3) (g 3)).atKink? = some true := by decide +kernel
    exact ⟨accepted, hkink, (hequal hkink).2⟩

end Tree

end Directional
