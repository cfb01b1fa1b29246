import Directional.Leaf.Seed
import Directional.Proofs.Exact.Field
import Directional.Proofs.Leaf.Lawful

namespace Directional

/-- Finite numbers compare, and the numbers that a domain is bounded by are finite. -/
class Scalar.FiniteCompare (K : Type) [Scalar K] : Prop where
  lt_eq_not_le {x y : K} (hx : isFinite x = true) (hy : isFinite y = true) : lt x y = !le y x
  isFinite_zero : isFinite (0 : K) = true
  isFinite_one : isFinite (1 : K) = true
  isFinite_epsilon : isFinite (epsilon : K) = true
  isFinite_abs {x : K} (hx : isFinite x = true) : isFinite (abs x) = true
  isFinite_cos {x : K} (hx : isFinite x = true) : isFinite (cos x) = true

instance : Scalar.FiniteCompare ℚ where
  lt_eq_not_le {x y} _ _ := by
    change decide (x < y) = !decide (y ≤ x)
    rw [← decide_not, decide_eq_decide]
    exact not_le.symm
  isFinite_zero := rfl
  isFinite_one := rfl
  isFinite_epsilon := rfl
  isFinite_abs _ := rfl
  isFinite_cos _ := rfl

namespace ElementaryFunction

variable {K : Type} [Scalar K] {f : ElementaryFunction} {x : K}

/-- The domain of a function among the finite numbers. That of a power is what its check lets pass,
since it depends on which of the derivatives vanish. -/
def InDomain (f : ElementaryFunction) (x : K) : Prop :=
  match f with
  | .ln | .log10 | .log2 => Scalar.lt 0 x = true
  | .sqrt => Scalar.le 0 x = true
  | .asin | .acos => Scalar.lt (Scalar.abs x) 1 = true
  | .tan => Scalar.le Scalar.epsilon (Scalar.abs (Scalar.cos x)) = true
  | .pow k l => (pow k l).domainLeft? x = none
  | .sin | .cos | .exp | .exp2 | .cbrt => True

/-- A finite number at which a function is evaluated is in the domain of the function. -/
theorem inDomain_of_domainLeft? [Scalar.FiniteCompare K] (hx : Scalar.isFinite x = true)
    (h : f.domainLeft? x = none) : f.InDomain x := by
  have hzero : Scalar.isFinite (0 : K) = true := Scalar.FiniteCompare.isFinite_zero
  have habs : Scalar.isFinite (Scalar.abs x) = true := Scalar.FiniteCompare.isFinite_abs hx
  have hcos : Scalar.isFinite (Scalar.abs (Scalar.cos x)) = true :=
    Scalar.FiniteCompare.isFinite_abs (Scalar.FiniteCompare.isFinite_cos hx)
  cases f with
  | ln | log10 | log2 =>
    have hpos := Scalar.FiniteCompare.lt_eq_not_le hzero hx
    simpa [domainLeft?, InDomain, hpos] using h
  | sqrt =>
    have hneg := Scalar.FiniteCompare.lt_eq_not_le hx hzero
    simpa [domainLeft?, InDomain, hneg] using h
  | asin | acos =>
    have hone := Scalar.FiniteCompare.lt_eq_not_le habs Scalar.FiniteCompare.isFinite_one
    simpa [domainLeft?, InDomain, hone] using h
  | tan =>
    have hpole := Scalar.FiniteCompare.lt_eq_not_le hcos Scalar.FiniteCompare.isFinite_epsilon
    simpa [domainLeft?, InDomain, hpole] using h
  | pow k l => exact h
  | _ => trivial

/-- A function has a value and derivatives at the finite numbers that its domain check lets pass. -/
theorem jet?_eq_ok_iff {jet : Jet K} :
    f.jet? x = .ok jet ↔
      Scalar.isFinite x = true ∧ f.domainLeft? x = none ∧ jet = f.jet x := by
  cases hx : Scalar.isFinite x with
  | false => simp [jet?, DomainError.checkFinite, hx, bind, Except.bind]
  | true =>
    cases hdomain : f.domainLeft? x with
    | some domain => simp [jet?, DomainError.checkFinite, hx, hdomain, bind, Except.bind]
    | none => simp [jet?, DomainError.checkFinite, hx, hdomain, bind, Except.bind, eq_comm]

end ElementaryFunction

section Parts

variable {K : Type} [Scalar K] {r c n : Nat}

/-- The argument of an elementary function is finite and passes the check of its domain, and the
function holds its value and derivatives there. -/
structure Elementary.Valid (e : Elementary K) : Prop where
  finite : Scalar.isFinite e.argument = true
  accepted : e.function.domainLeft? e.argument = none
  jet_eq : e.jet = e.function.jet e.argument

/-- A function stands at an argument if it is finite and passes the check of the domain. -/
theorem Elementary.at?_eq_ok_iff {f : ElementaryFunction} {x : K} {e : Elementary K} :
    Elementary.at? f x = .ok e ↔
      Scalar.isFinite x = true ∧ f.domainLeft? x = none ∧ e = ⟨f, x, f.jet x⟩ := by
  constructor
  · intro h
    obtain ⟨jet, hjet, he⟩ := bind_eq_ok h
    obtain ⟨hfinite, haccepted, rfl⟩ := ElementaryFunction.jet?_eq_ok_iff.1 hjet
    exact ⟨hfinite, haccepted, (Except.ok.inj he).symm⟩
  · rintro ⟨hfinite, haccepted, rfl⟩
    rw [Elementary.at?, ElementaryFunction.jet?_eq_ok_iff.2 ⟨hfinite, haccepted, rfl⟩]
    rfl

/-- A finite argument that fails the check of the domain is rejected with the domain in words. -/
theorem Elementary.at?_eq_error {f : ElementaryFunction} {x : K} {domain : String}
    (hx : Scalar.isFinite x = true) (h : f.domainLeft? x = some domain) :
    Elementary.at? f x = .error (.outOfDomain f.name domain x) := by
  simp [Elementary.at?, ElementaryFunction.jet?, DomainError.checkFinite, hx, h, bind, Except.bind]

/-- A function that has been built holds what it should. -/
theorem Elementary.valid_of_at? {f : ElementaryFunction} {x : K} {e : Elementary K}
    (h : Elementary.at? f x = .ok e) : e.Valid := by
  obtain ⟨hfinite, haccepted, rfl⟩ := Elementary.at?_eq_ok_iff.1 h
  exact ⟨hfinite, haccepted, rfl⟩

/-- All entries of a matrix are finite. -/
def Mat.Finite (a : Mat K r c) : Prop :=
  ∀ i j, Scalar.isFinite (a.get i j) = true

/-- The check of a matrix passes if all of its entries are finite. -/
theorem Mat.checkAllFinite_eq_ok_iff {name : String} {a : Mat K r c} :
    DomainError.checkAllFinite name a.entries = .ok () ↔ a.Finite := by
  rw [DomainError.checkAllFinite_eq_ok_iff]
  constructor
  · exact fun h i j => h _ (Mat.mem_entries.2 ⟨i, j, rfl⟩)
  · intro h x hx
    obtain ⟨i, j, rfl⟩ := Mat.mem_entries.1 hx
    exact h i j

/-- The leaves of matrix functions check the entries of a matrix before they hold it. -/
theorem Mat.build_eq_ok_iff {name : String} {a : Mat K r c} {β γ : Type} {wrap : β → γ} {new : β}
    {l : γ} :
    wrap <$> (do DomainError.checkAllFinite name a.entries; return new) = Except.ok l ↔
      a.Finite ∧ wrap new = l := by
  rw [← Mat.checkAllFinite_eq_ok_iff]
  cases DomainError.checkAllFinite name a.entries with
  | error e => exact ⟨nofun, nofun⟩
  | ok => exact ⟨fun h => ⟨rfl, Except.ok.inj h⟩, fun h => congrArg _ h.2⟩

/-- The leaves of matrix functions check a new matrix before they take any of it. -/
theorem Mat.update_eq_accepted_iff {name : String} {a : Mat K r c} {β γ : Type} {wrap : β → γ}
    {old new : β} {l : γ} :
    Outcome.map wrap (.ofExcept old (do DomainError.checkAllFinite name a.entries; return new)) =
        .accepted l ↔
      a.Finite ∧ wrap new = l := by
  rw [← Outcome.toExcept_eq_ok_iff, Outcome.toExcept_map, Outcome.toExcept_ofExcept]
  exact Mat.build_eq_ok_iff

end Parts

namespace Builtin

variable {K : Type} [Scalar K] {Γ : Nat → Shape} {a s : Shape}

open Scalar (int)

/-- A leaf holds an argument that it accepts, and what it computes from that. The trace forgets the
matrix that it is the trace of. -/
def Valid : {a s : Shape} → Builtin K Γ a s → Prop
  | _, _, constant _ | _, _, identity _ | _, _, var _ _ _ => True
  | _, _, elementary e => e.Valid
  | _, _, trace (n := n) l => ∃ a : Mat K n n, a.Finite ∧ l.value = a.trace
  | _, _, det d l => l.matrix.Finite ∧ l.value = d.det l.matrix
  | _, _, secondInvariant l =>
    l.matrix.Finite ∧ l.trace = l.matrix.trace ∧
      l.value = (1 / int 2) * (l.trace * l.trace - (l.matrix * l.matrix).trace)
  | _, _, strain l => l.gradient.Finite ∧ l.value = l.gradient.transposeMul l.gradient
  | _, _, squaredNorm l => l.matrix.Finite ∧ l.value = l.matrix.normSquared

/-- A leaf that has been built is valid. -/
theorem valid_of_build (seed : Seed K Γ a s) {l : Builtin K Γ a s} (h : seed.build = .ok l) :
    l.Valid := by
  cases seed with
  | constant | identity | var =>
    cases h
    trivial
  | elementary f x =>
    obtain ⟨e, he, rfl⟩ := map_eq_ok h
    exact Elementary.valid_of_at? he
  | trace x =>
    obtain ⟨hfinite, rfl⟩ := Mat.build_eq_ok_iff.1 h
    exact ⟨x, hfinite, rfl⟩
  | det d x =>
    obtain ⟨hfinite, rfl⟩ := Mat.build_eq_ok_iff.1 h
    exact ⟨hfinite, rfl⟩
  | secondInvariant x =>
    obtain ⟨hfinite, rfl⟩ := Mat.build_eq_ok_iff.1 h
    exact ⟨hfinite, rfl, rfl⟩
  | strain x =>
    obtain ⟨hfinite, rfl⟩ := Mat.build_eq_ok_iff.1 h
    exact ⟨hfinite, rfl⟩
  | squaredNorm x =>
    obtain ⟨hfinite, rfl⟩ := Mat.build_eq_ok_iff.1 h
    exact ⟨hfinite, rfl⟩

/-- A leaf that has moved is as if it had been built at its new argument. -/
theorem valid_of_update {l l' : Builtin K Γ a s} {x : Value K a} (h : l.update x = .accepted l') :
    l'.Valid := by
  rw [← Outcome.toExcept_eq_ok_iff] at h
  cases l with
  | constant v => exact valid_of_build (.constant v) h
  | identity => exact valid_of_build (.identity x) h
  | var i shape v => exact valid_of_build (.var i shape v) h
  | elementary e =>
    rw [update, Outcome.toExcept_map, Outcome.toExcept_ofExcept] at h
    exact valid_of_build (.elementary e.function x) h
  | trace =>
    rw [update, Outcome.toExcept_map, Outcome.toExcept_ofExcept] at h
    exact valid_of_build (.trace x) h
  | det d =>
    rw [update, Outcome.toExcept_map, Outcome.toExcept_ofExcept] at h
    exact valid_of_build (.det d x) h
  | secondInvariant =>
    rw [update, Outcome.toExcept_map, Outcome.toExcept_ofExcept] at h
    exact valid_of_build (.secondInvariant x) h
  | strain =>
    rw [update, Outcome.toExcept_map, Outcome.toExcept_ofExcept] at h
    exact valid_of_build (.strain x) h
  | squaredNorm =>
    rw [update, Outcome.toExcept_map, Outcome.toExcept_ofExcept] at h
    exact valid_of_build (.squaredNorm x) h

/-- No call takes a leaf out of its domain, whether the leaf accepts it or not. -/
theorem valid_call {l : Builtin K Γ a s} (h : l.Valid) (c : Call K Γ a) :
    (Leaf.call l c).state.Valid := by
  cases hcall : Leaf.call l c with
  | rejected e l' =>
    rw [Outcome.state_rejected, eq_of_call_rejected hcall]
    exact h
  | accepted l' =>
    cases c with
    | update x => exact valid_of_update hcall
    | write i x =>
      cases l with
      | var j shape v =>
        simp only [Leaf.call, Leaf.write, write] at hcall
        split at hcall <;> cases hcall <;> trivial
      | _ =>
        cases hcall
        exact h

/-- The argument of an elementary leaf as a number of the domain of its function. -/
def InDomain : {a s : Shape} → Builtin K Γ a s → Prop
  | _, _, elementary e => e.function.InDomain e.argument
  | _, _, _ => True

/-- A valid leaf has its argument in the domain of its function. -/
theorem Valid.inDomain [Scalar.FiniteCompare K] {l : Builtin K Γ a s} (h : l.Valid) :
    l.InDomain := by
  cases l with
  | elementary e => exact ElementaryFunction.inDomain_of_domainLeft? h.finite h.accepted
  | _ => trivial

end Builtin

end Directional
