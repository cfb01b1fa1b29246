import Directional.Tree.Derivative

namespace Directional

namespace Term

variable {K : Type} {s t u : Shape}

/-- A declaration does not hide a term that is absent whenever it is declared to be. -/
theorem gate_eq_self {present : Bool} {x : Term K s} (h : present = false → x = none) :
    gate present x = x := by
  cases present with
  | true => rfl
  | false => exact (h rfl).symm

/-- Of two terms one is chosen, which is absent if both are declared to be. -/
theorem gate_ite (p q first : Bool) (x y : Term K s) :
    gate (p || q) (if first then gate p x else gate q y) = if first then gate p x else gate q y := by
  apply gate_eq_self
  intro h
  simp only [Bool.or_eq_false_iff] at h
  simp only [h, gate_false, ite_self]

variable [Scalar K]

/-- A product is absent if one of its factors is. -/
@[simp] theorem none_product (m : Pairing s t u) (y : Term K t) : product m none y = none := rfl

@[simp] theorem product_none (m : Pairing s t u) (x : Term K s) : product m x none = none := by
  cases x <;> rfl

/-- A product is absent if one of its factors is declared to be. -/
theorem product_gate_eq_none (m : Pairing s t u) {p q : Bool} (x : Term K s) (y : Term K t)
    (h : (p && q) = false) : product m (gate p x) (gate q y) = none := by
  cases p with
  | false => rfl
  | true =>
    cases q with
    | false => exact product_none m x
    | true => nomatch h

/-- A multiple declares what its operand does. -/
theorem gate_scale (p : Bool) (x : Term K s) (c : K) :
    gate p ((gate p x).scale c) = (gate p x).scale c := by
  cases p <;> rfl

/-- A sum declares what one of its operands does. -/
theorem gate_sum (p q : Bool) (x y : Term K s) :
    gate (p || q) (sum (gate p x) (gate q y)) = sum (gate p x) (gate q y) := by
  apply gate_eq_self
  intro h
  simp only [Bool.or_eq_false_iff] at h
  simp only [h, gate_false, sum_none]

end Term

/-- The terms of second order that are declared to be present. -/
def Mixed₂.gate {K : Type} {s : Shape} (p : Mixed₂ Bool) (d : Mixed₂ (Term K s)) :
    Mixed₂ (Term K s) where
  x := Term.gate p.x d.x
  y := Term.gate p.y d.y
  xy := Term.gate p.xy d.xy

/-- The terms of third order that are declared to be present. -/
def Mixed₃.gate {K : Type} {s : Shape} (p : Mixed₃ Bool) (d : Mixed₃ (Term K s)) :
    Mixed₃ (Term K s) where
  x := Term.gate p.x d.x
  y := Term.gate p.y d.y
  z := Term.gate p.z d.z
  xy := Term.gate p.xy d.xy
  xz := Term.gate p.xz d.xz
  yz := Term.gate p.yz d.yz
  xyz := Term.gate p.xyz d.xyz

namespace Square

variable {K : Type} [Scalar K] {s : Shape} (m : Pairing s s s) (f : Value K s)

/-- A node declares which derivatives it has, and where it declares none its rule has no term, so
asking only for what is declared loses nothing. The rule of a square is of this kind. -/
theorem gate_first (p : Bool) (d : Term K s) :
    Term.gate p (first m f (Term.gate p d)) = first m f (Term.gate p d) := by
  cases p <;> rfl

theorem gate_second (p : Mixed₂ Bool) (d : Mixed₂ (Term K s)) :
    Term.gate (hasSecond p) (second m f (p.gate d)) = second m f (p.gate d) := by
  apply Term.gate_eq_self
  intro h
  simp only [hasSecond, Bool.or_eq_false_iff] at h
  simp only [second, Mixed₂.gate, h, Term.gate_false, Term.product_none, Term.product_gate_eq_none]
  rfl

theorem gate_third (p : Mixed₃ Bool) (d : Mixed₃ (Term K s)) :
    Term.gate (hasThird p) (third m f (p.gate d)) = third m f (p.gate d) := by
  apply Term.gate_eq_self
  intro h
  simp only [hasThird, Bool.or_eq_false_iff] at h
  simp only [third, Mixed₃.gate, h, Term.gate_false, Term.product_none, Term.product_gate_eq_none]
  rfl

end Square

namespace Leibniz

variable {K : Type} [Scalar K] {s t u : Shape} (m : Pairing s t u) (f : Value K s) (g : Value K t)

/-- The rule of a product has no term where it declares none. -/
theorem gate_first (p q : Bool) (d : Term K s) (e : Term K t) :
    Term.gate (hasFirst p q) (first m f (Term.gate p d) g (Term.gate q e)) =
      first m f (Term.gate p d) g (Term.gate q e) := by
  apply Term.gate_eq_self
  intro h
  simp only [hasFirst, Bool.or_eq_false_iff] at h
  simp only [first, h, Term.gate_false, Term.none_product, Term.product_none]
  rfl

theorem gate_second (p q : Mixed₂ Bool) (d : Mixed₂ (Term K s)) (e : Mixed₂ (Term K t)) :
    Term.gate (hasSecond p q) (second m f (p.gate d) g (q.gate e)) =
      second m f (p.gate d) g (q.gate e) := by
  apply Term.gate_eq_self
  intro h
  simp only [hasSecond, Bool.or_eq_false_iff] at h
  simp only [second, Mixed₂.gate, h, Term.gate_false, Term.none_product, Term.product_none,
    Term.product_gate_eq_none]
  rfl

theorem gate_third (p q : Mixed₃ Bool) (d : Mixed₃ (Term K s)) (e : Mixed₃ (Term K t)) :
    Term.gate (hasThird p q) (third m f (p.gate d) g (q.gate e)) =
      third m f (p.gate d) g (q.gate e) := by
  apply Term.gate_eq_self
  intro h
  simp only [hasThird, Bool.or_eq_false_iff] at h
  simp only [third, Mixed₃.gate, h, Term.gate_false, Term.none_product, Term.product_none,
    Term.product_gate_eq_none]
  rfl

end Leibniz

namespace Composition

variable {K : Type} {s t : Shape}

/-- The outer derivative is not asked for where an inner one is absent. -/
theorem bind_gate_eq_none {p q : Bool} (f : Value K t → Term K s) (x : Term K t)
    (h : (p && q) = false) : ((Term.gate q x).bind fun v => Term.gate p (f v)) = none := by
  cases q with
  | false => rfl
  | true =>
    cases p with
    | false => cases x <;> rfl
    | true => nomatch h

/-- The outer second derivative is not asked for where an inner one is absent. -/
theorem along_gate_eq_none {p q r : Bool} (f : Value K t → Value K t → Term K s) (x y : Term K t)
    (h : (p && q && r) = false) :
    along (fun v w => Term.gate p (f v w)) (Term.gate q x) (Term.gate r y) = none := by
  cases q with
  | false => rfl
  | true =>
    have hpr : (p && r) = false := by simpa using h
    cases x with
    | none => rfl
    | some v => exact bind_gate_eq_none (f v) y hpr

/-- The outer third derivative is not asked for where an inner one is absent. -/
theorem along_three_gate_eq_none {p q r w : Bool}
    (f : Value K t → Value K t → Value K t → Term K s) (x y z : Term K t)
    (h : (p && q && r && w) = false) :
    ((Term.gate q x).bind fun u => (Term.gate r y).bind fun v => (Term.gate w z).bind fun w =>
      Term.gate p (f u v w)) = none := by
  cases q with
  | false => rfl
  | true =>
    have hprw : (p && r && w) = false := by simpa using h
    cases x with
    | none => rfl
    | some u => exact along_gate_eq_none (f u) y z hprw

variable (f₁ : Value K t → Term K s) (f₂ : Value K t → Value K t → Term K s)
  (f₃ : Value K t → Value K t → Value K t → Term K s) (p₁ p₂ p₃ : Bool)

/-- The rule of a composition has no term where it declares none. -/
theorem gate_first (q : Bool) (d : Term K t) :
    Term.gate (p₁ && q) (first (fun v => Term.gate p₁ (f₁ v)) (Term.gate q d)) =
      first (fun v => Term.gate p₁ (f₁ v)) (Term.gate q d) :=
  Term.gate_eq_self (bind_gate_eq_none f₁ d)

variable [Scalar K]

theorem gate_second (q : Mixed₂ Bool) (d : Mixed₂ (Term K t)) :
    Term.gate (hasSecond p₁ p₂ q)
        (second (fun v => Term.gate p₁ (f₁ v)) (fun v w => Term.gate p₂ (f₂ v w)) (q.gate d)) =
      second (fun v => Term.gate p₁ (f₁ v)) (fun v w => Term.gate p₂ (f₂ v w)) (q.gate d) := by
  apply Term.gate_eq_self
  intro h
  simp only [hasSecond, Bool.or_eq_false_iff] at h
  simp only [second, Mixed₂.gate, along_gate_eq_none _ _ _ h.1, bind_gate_eq_none _ _ h.2]
  rfl

theorem gate_third (q : Mixed₃ Bool) (d : Mixed₃ (Term K t)) :
    Term.gate (hasThird p₁ p₂ p₃ q)
        (third (fun v => Term.gate p₁ (f₁ v)) (fun v w => Term.gate p₂ (f₂ v w))
          (fun u v w => Term.gate p₃ (f₃ u v w)) (q.gate d)) =
      third (fun v => Term.gate p₁ (f₁ v)) (fun v w => Term.gate p₂ (f₂ v w))
        (fun u v w => Term.gate p₃ (f₃ u v w)) (q.gate d) := by
  apply Term.gate_eq_self
  intro h
  simp only [hasThird, Bool.and_or_distrib_left, ← Bool.and_assoc, Bool.or_eq_false_iff] at h
  obtain ⟨⟨hthird, ⟨hxz, hyz⟩, hxy⟩, hxyz⟩ := h
  simp only [third, Mixed₃.gate, along_three_gate_eq_none _ _ _ _ hthird,
    along_gate_eq_none _ _ _ hxz, along_gate_eq_none _ _ _ hyz, along_gate_eq_none _ _ _ hxy,
    bind_gate_eq_none _ _ hxyz]
  rfl

end Composition

namespace Tree

variable {K : Type} [Scalar K] {Γ : Nat → Shape} {L : Shape → Shape → Type} [Leaf K Γ L]
  {a b s t u : Shape}

section First

variable {X : Slot} (dx : Value K (X.shape Γ a))

/-- The first derivative of each kind of node is its rule over the derivatives of its operands. -/
theorem d₁?_scale (c : K) (f : Tree K L a s) (v : Value K s) :
    (scale c f v).d₁? X dx = (f.d₁? X dx).scale c :=
  Term.gate_scale (f.has₁ X) (f.answer₁ X dx) c

theorem d₁?_squared (m : Pairing s s s) (f : Tree K L a s) (v : Value K s) :
    (squared m f v).d₁? X dx = Square.first m f.value (f.d₁? X dx) :=
  Square.gate_first m f.value (f.has₁ X) (f.answer₁ X dx)

/-- A sum has the terms of both operands, or those that are there. -/
theorem d₁?_sum (f g : Tree K L a s) (v : Value K s) :
    (sum f g v).d₁? X dx = .sum (f.d₁? X dx) (g.d₁? X dx) :=
  Term.gate_sum (f.has₁ X) (g.has₁ X) (f.answer₁ X dx) (g.answer₁ X dx)

/-- A product is derived by the rule of Leibniz for its pairing. -/
theorem d₁?_product (m : Pairing s t u) (f : Tree K L a s) (g : Tree K L a t) (v : Value K u) :
    (product m f g v).d₁? X dx = Leibniz.first m f.value (f.d₁? X dx) g.value (g.d₁? X dx) :=
  Leibniz.gate_first m f.value g.value (f.has₁ X) (g.has₁ X) (f.answer₁ X dx) (g.answer₁ X dx)

/-- Only the active operand of a minimum or maximum is differentiated. -/
theorem d₁?_extremum (e : Extremum) (f g : Tree K L a s) (v : Value K s) (firstActive : Bool) :
    (extremum e f g v firstActive).d₁? X dx = if firstActive then f.d₁? X dx else g.d₁? X dx :=
  Term.gate_ite (f.has₁ X) (g.has₁ X) firstActive (f.answer₁ X dx) (g.answer₁ X dx)

/-- The outer function of a composition is differentiated in its argument. -/
theorem d₁?_chain (f : Tree K L b s) (g : Tree K L a b) :
    (chain f g).d₁? X dx = Composition.first (f.d₁? .argument) (g.d₁? X dx) :=
  Composition.gate_first (f.answer₁ .argument) (f.has₁ .argument) (g.has₁ X) (g.answer₁ X dx)

end First

section Second

variable {X Y : Slot} (dx : Value K (X.shape Γ a)) (dy : Value K (Y.shape Γ a))

/-- The second derivatives, in the same way. -/
theorem d₂?_scale (c : K) (f : Tree K L a s) (v : Value K s) :
    (scale c f v).d₂? X Y dx dy = (f.d₂? X Y dx dy).scale c :=
  Term.gate_scale (f.has₂ X Y) (f.answer₂ X Y dx dy) c

/-- A square uses the first derivatives in both slots, and the second one. -/
theorem d₂?_squared (m : Pairing s s s) (f : Tree K L a s) (v : Value K s) :
    (squared m f v).d₂? X Y dx dy =
      Square.second m f.value ⟨f.d₁? X dx, f.d₁? Y dy, f.d₂? X Y dx dy⟩ :=
  Square.gate_second m f.value ⟨f.has₁ X, f.has₁ Y, f.has₂ X Y⟩
    ⟨f.answer₁ X dx, f.answer₁ Y dy, f.answer₂ X Y dx dy⟩

theorem d₂?_sum (f g : Tree K L a s) (v : Value K s) :
    (sum f g v).d₂? X Y dx dy = .sum (f.d₂? X Y dx dy) (g.d₂? X Y dx dy) :=
  Term.gate_sum (f.has₂ X Y) (g.has₂ X Y) (f.answer₂ X Y dx dy) (g.answer₂ X Y dx dy)

/-- Of two operands the values and the derivatives up to the second order are used. -/
theorem d₂?_product (m : Pairing s t u) (f : Tree K L a s) (g : Tree K L a t) (v : Value K u) :
    (product m f g v).d₂? X Y dx dy =
      Leibniz.second m
        f.value ⟨f.d₁? X dx, f.d₁? Y dy, f.d₂? X Y dx dy⟩
        g.value ⟨g.d₁? X dx, g.d₁? Y dy, g.d₂? X Y dx dy⟩ :=
  Leibniz.gate_second m f.value g.value
    ⟨f.has₁ X, f.has₁ Y, f.has₂ X Y⟩ ⟨g.has₁ X, g.has₁ Y, g.has₂ X Y⟩
    ⟨f.answer₁ X dx, f.answer₁ Y dy, f.answer₂ X Y dx dy⟩
    ⟨g.answer₁ X dx, g.answer₁ Y dy, g.answer₂ X Y dx dy⟩

/-- The second derivative of a minimum or maximum is that of its active operand. -/
theorem d₂?_extremum (e : Extremum) (f g : Tree K L a s) (v : Value K s) (firstActive : Bool) :
    (extremum e f g v firstActive).d₂? X Y dx dy =
      if firstActive then f.d₂? X Y dx dy else g.d₂? X Y dx dy :=
  Term.gate_ite (f.has₂ X Y) (g.has₂ X Y) firstActive (f.answer₂ X Y dx dy)
    (g.answer₂ X Y dx dy)

/-- The outer function has no slot but its argument, so a mixed derivative is one in the argument
twice. -/
theorem d₂?_chain (f : Tree K L b s) (g : Tree K L a b) :
    (chain f g).d₂? X Y dx dy =
      Composition.second (f.d₁? .argument) (f.d₂? .argument .argument)
        ⟨g.d₁? X dx, g.d₁? Y dy, g.d₂? X Y dx dy⟩ :=
  Composition.gate_second (f.answer₁ .argument) (f.answer₂ .argument .argument)
    (f.has₁ .argument) (f.has₂ .argument .argument) ⟨g.has₁ X, g.has₁ Y, g.has₂ X Y⟩
    ⟨g.answer₁ X dx, g.answer₁ Y dy, g.answer₂ X Y dx dy⟩

end Second

section Third

variable {X Y Z : Slot} (dx : Value K (X.shape Γ a)) (dy : Value K (Y.shape Γ a))
  (dz : Value K (Z.shape Γ a))

/-- The third derivatives, in the same way. -/
theorem d₃?_scale (c : K) (f : Tree K L a s) (v : Value K s) :
    (scale c f v).d₃? X Y Z dx dy dz = (f.d₃? X Y Z dx dy dz).scale c :=
  Term.gate_scale (f.has₃ X Y Z) (f.answer₃ X Y Z dx dy dz) c

/-- A square uses the derivatives of its operand in each slot and each pair of slots. -/
theorem d₃?_squared (m : Pairing s s s) (f : Tree K L a s) (v : Value K s) :
    (squared m f v).d₃? X Y Z dx dy dz =
      Square.third m f.value
        ⟨f.d₁? X dx, f.d₁? Y dy, f.d₁? Z dz, f.d₂? X Y dx dy, f.d₂? X Z dx dz, f.d₂? Y Z dy dz,
          f.d₃? X Y Z dx dy dz⟩ :=
  Square.gate_third m f.value
    ⟨f.has₁ X, f.has₁ Y, f.has₁ Z, f.has₂ X Y, f.has₂ X Z, f.has₂ Y Z, f.has₃ X Y Z⟩
    ⟨f.answer₁ X dx, f.answer₁ Y dy, f.answer₁ Z dz, f.answer₂ X Y dx dy, f.answer₂ X Z dx dz,
      f.answer₂ Y Z dy dz, f.answer₃ X Y Z dx dy dz⟩

theorem d₃?_sum (f g : Tree K L a s) (v : Value K s) :
    (sum f g v).d₃? X Y Z dx dy dz = .sum (f.d₃? X Y Z dx dy dz) (g.d₃? X Y Z dx dy dz) :=
  Term.gate_sum (f.has₃ X Y Z) (g.has₃ X Y Z) (f.answer₃ X Y Z dx dy dz)
    (g.answer₃ X Y Z dx dy dz)

/-- A product uses those of both operands. -/
theorem d₃?_product (m : Pairing s t u) (f : Tree K L a s) (g : Tree K L a t) (v : Value K u) :
    (product m f g v).d₃? X Y Z dx dy dz =
      Leibniz.third m
        f.value
        ⟨f.d₁? X dx, f.d₁? Y dy, f.d₁? Z dz, f.d₂? X Y dx dy, f.d₂? X Z dx dz, f.d₂? Y Z dy dz,
          f.d₃? X Y Z dx dy dz⟩
        g.value
        ⟨g.d₁? X dx, g.d₁? Y dy, g.d₁? Z dz, g.d₂? X Y dx dy, g.d₂? X Z dx dz, g.d₂? Y Z dy dz,
          g.d₃? X Y Z dx dy dz⟩ :=
  Leibniz.gate_third m f.value g.value
    ⟨f.has₁ X, f.has₁ Y, f.has₁ Z, f.has₂ X Y, f.has₂ X Z, f.has₂ Y Z, f.has₃ X Y Z⟩
    ⟨g.has₁ X, g.has₁ Y, g.has₁ Z, g.has₂ X Y, g.has₂ X Z, g.has₂ Y Z, g.has₃ X Y Z⟩
    ⟨f.answer₁ X dx, f.answer₁ Y dy, f.answer₁ Z dz, f.answer₂ X Y dx dy, f.answer₂ X Z dx dz,
      f.answer₂ Y Z dy dz, f.answer₃ X Y Z dx dy dz⟩
    ⟨g.answer₁ X dx, g.answer₁ Y dy, g.answer₁ Z dz, g.answer₂ X Y dx dy, g.answer₂ X Z dx dz,
      g.answer₂ Y Z dy dz, g.answer₃ X Y Z dx dy dz⟩

/-- The third derivative of a minimum or maximum is that of its active operand. -/
theorem d₃?_extremum (e : Extremum) (f g : Tree K L a s) (v : Value K s) (firstActive : Bool) :
    (extremum e f g v firstActive).d₃? X Y Z dx dy dz =
      if firstActive then f.d₃? X Y Z dx dy dz else g.d₃? X Y Z dx dy dz :=
  Term.gate_ite (f.has₃ X Y Z) (g.has₃ X Y Z) firstActive (f.answer₃ X Y Z dx dy dz)
    (g.answer₃ X Y Z dx dy dz)

/-- The derivatives of the inner function are the directions of the outer one, up to its third
order. -/
theorem d₃?_chain (f : Tree K L b s) (g : Tree K L a b) :
    (chain f g).d₃? X Y Z dx dy dz =
      Composition.third (f.d₁? .argument) (f.d₂? .argument .argument)
        (f.d₃? .argument .argument .argument)
        ⟨g.d₁? X dx, g.d₁? Y dy, g.d₁? Z dz, g.d₂? X Y dx dy, g.d₂? X Z dx dz, g.d₂? Y Z dy dz,
          g.d₃? X Y Z dx dy dz⟩ :=
  Composition.gate_third (f.answer₁ .argument) (f.answer₂ .argument .argument)
    (f.answer₃ .argument .argument .argument)
    (f.has₁ .argument) (f.has₂ .argument .argument) (f.has₃ .argument .argument .argument)
    ⟨g.has₁ X, g.has₁ Y, g.has₁ Z, g.has₂ X Y, g.has₂ X Z, g.has₂ Y Z, g.has₃ X Y Z⟩
    ⟨g.answer₁ X dx, g.answer₁ Y dy, g.answer₁ Z dz, g.answer₂ X Y dx dy, g.answer₂ X Z dx dz,
      g.answer₂ Y Z dy dz, g.answer₃ X Y Z dx dy dz⟩

end Third

end Tree

end Directional
