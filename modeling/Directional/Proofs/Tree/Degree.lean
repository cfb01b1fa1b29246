import Mathlib.Data.ENat.Lattice
import Directional.Leaf.Builtin
import Directional.Tree.Capabilities

namespace Directional

variable {K : Type} {Γ : Nat → Shape} {a s : Shape}

/-- The degree of a leaf in a slot. Elementary functions count as functions of infinite degree, also
those that are polynomials. -/
def Builtin.degree : Builtin K Γ a s → Slot → ℕ∞
  | constant _, _ => 0
  | var i _ _, X => if X = .var i then 1 else 0
  | identity _, .argument | trace _, .argument => 1
  | secondInvariant _, .argument | strain _, .argument | squaredNorm _, .argument => (2 : ℕ)
  | det .plane _, .argument => (2 : ℕ)
  | det .space _, .argument => (3 : ℕ)
  | elementary _, .argument => ⊤
  | _, .var _ => 0

/-- The degree of a tree in a slot, by the arithmetic of the degrees of polynomials. A function that
is constant in its argument has degree zero whatever it is composed with. -/
noncomputable def Tree.degree : {a s : Shape} → Tree K (Builtin K Γ) a s → Slot → ℕ∞
  | _, _, leaf l, X => l.degree X
  | _, _, scale _ f _, X => f.degree X
  | _, _, squared _ f _, X => (2 : ℕ) * f.degree X
  | _, _, sum f g _, X => max (f.degree X) (g.degree X)
  | _, _, product _ f g _, X => f.degree X + g.degree X
  | _, _, extremum _ f g _ _, X => max (f.degree X) (g.degree X)
  | _, _, chain f g, X => f.degree .argument * g.degree X

section Thresholds

variable (m n : ℕ∞)

/-- The first three degrees of a sum of degrees are reached by its parts. -/
theorem le_add_degree_iff :
    (1 ≤ m + n ↔ 1 ≤ m ∨ 1 ≤ n) ∧
    (2 ≤ m + n ↔ 2 ≤ m ∨ (1 ≤ m ∧ 1 ≤ n) ∨ 2 ≤ n) ∧
    (3 ≤ m + n ↔ 3 ≤ m ∨ (2 ≤ m ∧ 1 ≤ n) ∨ (1 ≤ m ∧ 2 ≤ n) ∨ 3 ≤ n) := by
  cases m using ENat.recTopCoe with
  | top => simp
  | coe m =>
    cases n using ENat.recTopCoe with
    | top => simp
    | coe n =>
      norm_cast
      omega

/-- The first three degrees of a product of numbers. -/
private theorem le_mul_nat_iff (m n : ℕ) :
    (1 ≤ m * n ↔ 1 ≤ m ∧ 1 ≤ n) ∧
    (2 ≤ m * n ↔ (2 ≤ m ∧ 1 ≤ n) ∨ (1 ≤ m ∧ 2 ≤ n)) ∧
    (3 ≤ m * n ↔ (3 ≤ m ∧ 1 ≤ n) ∨ (2 ≤ m ∧ 2 ≤ n) ∨ (1 ≤ m ∧ 3 ≤ n)) := by
  match m with
  | 0 | 1 | 2 => omega
  | m + 3 =>
    cases n with
    | zero => simp
    | succ n =>
      have hle : m + 3 ≤ (m + 3) * (n + 1) := Nat.le_mul_of_pos_right _ n.succ_pos
      omega

/-- The same with factors that may be infinite. -/
theorem le_mul_degree_iff :
    (1 ≤ m * n ↔ 1 ≤ m ∧ 1 ≤ n) ∧
    (2 ≤ m * n ↔ (2 ≤ m ∧ 1 ≤ n) ∨ (1 ≤ m ∧ 2 ≤ n)) ∧
    (3 ≤ m * n ↔ (3 ≤ m ∧ 1 ≤ n) ∨ (2 ≤ m ∧ 2 ≤ n) ∨ (1 ≤ m ∧ 3 ≤ n)) := by
  cases m using ENat.recTopCoe with
  | top =>
    by_cases hn : n = 0
    · simp [hn]
    · have hpos : 1 ≤ n := Order.one_le_iff_ne_zero.2 hn
      simp [ENat.top_mul hn, hpos]
  | coe m =>
    cases n using ENat.recTopCoe with
    | top =>
      by_cases hm : (m : ℕ∞) = 0
      · simp [hm]
      · have hpos : 1 ≤ (m : ℕ∞) := Order.one_le_iff_ne_zero.2 hm
        simp [ENat.mul_top hm, hpos]
    | coe n =>
      have hnat := le_mul_nat_iff m n
      norm_cast

end Thresholds

/-- The rules with all directions in a single slot. A product has a second derivative if a factor
has one, or if both have first ones. -/
theorem Leibniz.hasSecond_self (p₁ p₂ q₁ q₂ : Bool) :
    hasSecond ⟨p₁, p₁, p₂⟩ ⟨q₁, q₁, q₂⟩ = (p₂ || p₁ && q₁ || q₂) := by
  revert p₁ p₂ q₁ q₂
  decide

/-- Its third derivative is made of the derivatives of both factors up to any order. -/
theorem Leibniz.hasThird_self (p₁ p₂ p₃ q₁ q₂ q₃ : Bool) :
    hasThird ⟨p₁, p₁, p₁, p₂, p₂, p₂, p₃⟩ ⟨q₁, q₁, q₁, q₂, q₂, q₂, q₃⟩ =
      (p₃ || p₂ && q₁ || p₁ && q₂ || q₃) := by
  revert p₁ p₂ p₃ q₁ q₂ q₃
  decide

/-- A composition has a second derivative by way of the outer or of the inner function. -/
theorem Composition.hasSecond_self (p₁ p₂ q₁ q₂ : Bool) :
    hasSecond p₁ p₂ ⟨q₁, q₁, q₂⟩ = (p₂ && q₁ || p₁ && q₂) := by
  revert p₁ p₂ q₁ q₂
  decide

/-- Its third derivative needs both orders of both functions. -/
theorem Composition.hasThird_self (p₁ p₂ p₃ q₁ q₂ q₃ : Bool) :
    hasThird p₁ p₂ p₃ ⟨q₁, q₁, q₁, q₂, q₂, q₂, q₃⟩ =
      (p₃ && q₁ || p₂ && (q₂ && q₁) || p₁ && q₃) := by
  revert p₁ p₂ p₃ q₁ q₂ q₃
  decide

/-- Derivatives of first, second and third order in one slot are declared up to the degree `n`. -/
structure DeclaredUpTo (n : ℕ∞) (p₁ p₂ p₃ : Bool) : Prop where
  first : p₁ = true ↔ 1 ≤ n
  second : p₂ = true ↔ 2 ≤ n
  third : p₃ = true ↔ 3 ≤ n

namespace DeclaredUpTo

theorem zero : DeclaredUpTo 0 false false false := by
  constructor <;> decide

theorem one : DeclaredUpTo 1 true false false := by
  constructor <;> decide

theorem two : DeclaredUpTo 2 true true false := by
  constructor <;> decide

theorem three : DeclaredUpTo 3 true true true := by
  constructor <;> decide

theorem top : DeclaredUpTo ⊤ true true true := by
  constructor <;> simp

variable {m n : ℕ∞} {p₁ p₂ p₃ q₁ q₂ q₃ : Bool}

/-- Degrees of a sum: the larger one counts. -/
theorem or (hf : DeclaredUpTo m p₁ p₂ p₃) (hg : DeclaredUpTo n q₁ q₂ q₃) :
    DeclaredUpTo (max m n) (p₁ || q₁) (p₂ || q₂) (p₃ || q₃) := by
  constructor
  · rw [Bool.or_eq_true, hf.first, hg.first, le_max_iff]
  · rw [Bool.or_eq_true, hf.second, hg.second, le_max_iff]
  · rw [Bool.or_eq_true, hf.third, hg.third, le_max_iff]

/-- Degrees add in products. -/
theorem leibniz (hf : DeclaredUpTo m p₁ p₂ p₃) (hg : DeclaredUpTo n q₁ q₂ q₃) :
    DeclaredUpTo (m + n) (Leibniz.hasFirst p₁ q₁)
      (Leibniz.hasSecond ⟨p₁, p₁, p₂⟩ ⟨q₁, q₁, q₂⟩)
      (Leibniz.hasThird ⟨p₁, p₁, p₁, p₂, p₂, p₂, p₃⟩ ⟨q₁, q₁, q₁, q₂, q₂, q₂, q₃⟩) := by
  obtain ⟨hfirst, hsecond, hthird⟩ := le_add_degree_iff m n
  constructor
  · rw [hfirst, Leibniz.hasFirst, Bool.or_eq_true, hf.first, hg.first]
  · simp only [hsecond, Leibniz.hasSecond_self, Bool.or_eq_true, Bool.and_eq_true, hf.first,
      hf.second, hg.first, hg.second, or_assoc]
  · simp only [hthird, Leibniz.hasThird_self, Bool.or_eq_true, Bool.and_eq_true, hf.first,
      hf.second, hf.third, hg.first, hg.second, hg.third, or_assoc]

/-- A square doubles the degree. -/
theorem square (hf : DeclaredUpTo m p₁ p₂ p₃) :
    DeclaredUpTo (2 * m) p₁ (Square.hasSecond ⟨p₁, p₁, p₂⟩)
      (Square.hasThird ⟨p₁, p₁, p₁, p₂, p₂, p₂, p₃⟩) := by
  rw [two_mul, Square.hasSecond_eq_leibniz, Square.hasThird_eq_leibniz]
  have hproduct := hf.leibniz hf
  rwa [Leibniz.hasFirst, Bool.or_self] at hproduct

/-- The outer function is differentiated in its argument. Degrees multiply. -/
theorem composition (hf : DeclaredUpTo m p₁ p₂ p₃) (hg : DeclaredUpTo n q₁ q₂ q₃) :
    DeclaredUpTo (m * n) (p₁ && q₁) (Composition.hasSecond p₁ p₂ ⟨q₁, q₁, q₂⟩)
      (Composition.hasThird p₁ p₂ p₃ ⟨q₁, q₁, q₁, q₂, q₂, q₂, q₃⟩) := by
  obtain ⟨hfirst, hsecond, hthird⟩ := le_mul_degree_iff m n
  have hinner : 2 ≤ n → 1 ≤ n := (show (1 : ℕ∞) ≤ 2 by decide).trans
  constructor
  · rw [hfirst, Bool.and_eq_true, hf.first, hg.first]
  · simp only [hsecond, Composition.hasSecond_self, Bool.or_eq_true, Bool.and_eq_true, hf.first,
      hf.second, hg.first, hg.second]
  · simp only [hthird, Composition.hasThird_self, Bool.or_eq_true, Bool.and_eq_true, hf.first,
      hf.second, hf.third, hg.first, hg.second, hg.third, and_iff_left_of_imp hinner, or_assoc]

/-- The highest order that is declared is the degree or three. -/
theorem order_eq (h : DeclaredUpTo n p₁ p₂ p₃) :
    ((if p₃ then 3 else if p₂ then 2 else if p₁ then 1 else 0 : ℕ) : ℕ∞) = min 3 n := by
  simp only [h.first, h.second, h.third]
  cases n using ENat.recTopCoe with
  | top => simp
  | coe n =>
    have horder : (if 3 ≤ n then 3 else if 2 ≤ n then 2 else if 1 ≤ n then 1 else 0) = min 3 n := by
      split
      · omega
      · split
        · omega
        · split <;> omega
    simp only [Nat.one_le_cast, Nat.ofNat_le_cast]
    rw [horder, Nat.mono_cast.map_min]
    rfl

end DeclaredUpTo

variable [Scalar K]

/-- The leaves of the library declare derivatives up to their degree. -/
theorem Builtin.declaredUpTo_degree (l : Builtin K Γ a s) (X : Slot) :
    DeclaredUpTo (l.degree X) (Leaf.has₁ l X) (Leaf.has₂ l X X) (Leaf.has₃ l X X X) := by
  cases X with
  | argument =>
    cases l with
    | constant | var => exact .zero
    | identity | trace => exact .one
    | secondInvariant | strain | squaredNorm => exact .two
    | elementary => exact .top
    | det d =>
      cases d with
      | plane => exact .two
      | space => exact .three
  | var j =>
    cases l with
    | var i shape v =>
      change DeclaredUpTo (if Slot.var j = .var i then 1 else 0) (j == i) false false
      by_cases h : j = i
      · subst h
        simpa using DeclaredUpTo.one
      · rw [beq_false_of_ne h, if_neg (by simpa using h)]
        exact .zero
    | det d => cases d <;> exact .zero
    | _ => exact .zero

namespace Tree

/-- A tree declares the derivatives in a slot up to its degree there. -/
theorem declaredUpTo_degree (f : Tree K (Builtin K Γ) a s) (X : Slot) :
    DeclaredUpTo (f.degree X) (f.has₁ X) (f.has₂ X X) (f.has₃ X X X) := by
  induction f generalizing X with
  | leaf l => exact l.declaredUpTo_degree X
  | scale c f v ih => exact ih X
  | squared m f v ih => exact (ih X).square
  | sum f g v ihf ihg | extremum e f g v b ihf ihg => exact (ihf X).or (ihg X)
  | product m f g v ihf ihg => exact (ihf X).leibniz (ihg X)
  | chain f g ihf ihg => exact (ihf .argument).composition (ihg X)

/-- A derivative with all directions in one slot is declared if and only if its order is at most
the formal degree of the tree in the slot, so the highest order that a tree reports is its degree
or three. -/
theorem declared_iff_le_degree (f : Tree K (Builtin K Γ) a s) (X : Slot) :
    (f.has₁ X = true ↔ 1 ≤ f.degree X) ∧ (f.has₂ X X = true ↔ 2 ≤ f.degree X) ∧
      (f.has₃ X X X = true ↔ 3 ≤ f.degree X) ∧
      ((Capabilities.of f X).order : ℕ∞) = min 3 (f.degree X) := by
  have h := f.declaredUpTo_degree X
  exact ⟨h.first, h.second, h.third, h.order_eq⟩

end Tree

end Directional
