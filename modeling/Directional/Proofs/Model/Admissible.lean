import Directional.Proofs.Model.Assembly
import Directional.Proofs.Rounded.Power
import Directional.Proofs.Rounded.Sign
import Directional.Proofs.Tree.Reachable
import Directional.Proofs.Tree.Run

namespace Directional

variable {K : Type} [Scalar K]

namespace DomainError

/-- The function that rejects an argument. -/
def function : DomainError K → String
  | outOfDomain f _ _ => f
  | nonFinite f _ => f

/-- The check of a list reports the first number that is not finite. -/
theorem checkAllFinite_eq_error {name : String} {before after : List K} {x : K}
    (hbefore : ∀ y ∈ before, Scalar.isFinite y = true) (hx : Scalar.isFinite x = false) :
    checkAllFinite name (before ++ x :: after) = .error (.nonFinite name x) := by
  rw [checkAllFinite, List.forM_eq_forM]
  induction before with
  | nil => simp [checkFinite, hx, bind, Except.bind]
  | cons y before ih =>
    obtain ⟨hy, hrest⟩ := List.forall_mem_cons.1 hbefore
    rw [List.cons_append, List.forM_cons, checkFinite_eq_ok_iff.2 hy]
    exact ih hrest

end DomainError

namespace Mat

variable {r c : Nat}

instance (a : Mat K r c) : Decidable a.Finite :=
  inferInstanceAs (Decidable (∀ i j, Scalar.isFinite (a.get i j) = true))

/-- The entry in row `i` and column `j` is the first one that is not finite, column after column and
from top to bottom. -/
structure FirstNonFinite (a : Mat K r c) (i : Fin r) (j : Fin c) : Prop where
  not_finite : Scalar.isFinite (a.get i j) = false
  first {k : Fin r} {l : Fin c} (h : l < j ∨ l = j ∧ k < i) : Scalar.isFinite (a.get k l) = true

/-- A matrix whose entries are not all finite has a first such entry. -/
theorem exists_firstNonFinite {a : Mat K r c} (h : ¬a.Finite) : ∃ i j, a.FirstNonFinite i j := by
  obtain ⟨i₀, j₀, h₀⟩ : ∃ i j, ¬Scalar.isFinite (a.get i j) = true := by
    simpa only [Mat.Finite, not_forall] using h
  have hwf : WellFounded (Prod.Lex (· < · : Fin c → Fin c → Prop) (· < · : Fin r → Fin r → Prop)) :=
    .prod_lex wellFounded_lt wellFounded_lt
  obtain ⟨⟨j, i⟩, hij, hminimal⟩ :=
    hwf.has_min {p | ¬Scalar.isFinite (a.get p.2 p.1) = true} ⟨(j₀, i₀), h₀⟩
  refine ⟨i, j, Bool.eq_false_of_not_eq_true hij, ?_⟩
  intro k l hbefore
  by_contra hkl
  apply hminimal (l, k) hkl
  obtain hcolumn | ⟨rfl, hrow⟩ := hbefore
  · exact .left k i hcolumn
  · exact .right l hrow

/-- Every number below `m` has smaller ones before it in their list, and no others. -/
private theorem finRange_eq_append {m : Nat} (i : Fin m) :
    ∃ before after, List.finRange m = before ++ i :: after ∧ ∀ k ∈ before, k < i := by
  obtain ⟨before, after, hsplit⟩ := List.append_of_mem (List.mem_finRange i)
  have hsorted := List.pairwise_lt_finRange m
  rw [hsplit, List.pairwise_append] at hsorted
  exact ⟨before, after, hsplit, fun k hk => hsorted.2.2 k hk i List.mem_cons_self⟩

/-- The first entry that is not finite is the one that is reported. -/
theorem FirstNonFinite.checkAllFinite {a : Mat K r c} {i : Fin r} {j : Fin c}
    (h : a.FirstNonFinite i j) (name : String) :
    DomainError.checkAllFinite name a.entries = .error (.nonFinite name (a.get i j)) := by
  obtain ⟨left, right, hcolumns, hleft⟩ := finRange_eq_append j
  obtain ⟨above, below, hrows, habove⟩ := finRange_eq_append i
  have hentries : a.entries =
      (left.flatMap fun l => (List.finRange r).map fun k => a.get k l) ++
        (above.map fun k => a.get k j) ++ a.get i j :: ((below.map fun k => a.get k j) ++
          right.flatMap fun l => (List.finRange r).map fun k => a.get k l) := by
    rw [entries, hcolumns, List.flatMap_append, List.flatMap_cons]
    nth_rewrite 2 [hrows]
    simp only [List.map_append, List.map_cons, List.append_assoc, List.cons_append]
  rw [hentries]
  apply DomainError.checkAllFinite_eq_error _ h.not_finite
  intro y hy
  obtain hy | hy := List.mem_append.1 hy
  · obtain ⟨l, hl, hy⟩ := List.mem_flatMap.1 hy
    obtain ⟨k, -, rfl⟩ := List.mem_map.1 hy
    exact h.first (.inl (hleft l hl))
  · obtain ⟨k, hk, rfl⟩ := List.mem_map.1 hy
    exact h.first (.inr ⟨rfl, habove k hk⟩)

end Mat

/-- What an update returns from a tree without variables, and which tree it leaves if it is
accepted, does not depend on earlier calls, whether they were accepted or not. -/
theorem Tree.VariableFree.toExcept_update_after {Γ : Nat → Shape} {L : Shape → Shape → Type}
    [Leaf K Γ L] [LawfulLeaf L] {a s : Shape} {f : Tree K L a s} (free : f.VariableFree)
    (calls : List (Call K Γ a)) (x : Value K a) :
    ((f.after calls).call (.update x)).toExcept = (f.call (.update x)).toExcept := by
  induction calls generalizing f with
  | nil => rfl
  | cons c calls ih =>
    rw [after_cons, ih (free.call c)]
    cases c with
    | update y => exact call_absorbs f rfl
    | write i y =>
      have hskip : f.skips (Call.write i y : Call K Γ a).slot = true := by
        simp [skips, Call.slot, free i]
      rw [call_of_skips hskip, Outcome.state_accepted]

namespace NeoHooke

open DomainError Scalar

variable {Γ : Nat → Shape} {n : Nat} {d : Dimension n} {c d₀ d₁ : K} {F : Mat K n n}
  {r : Except (DomainError K) (Tree K (Builtin K Γ) (.square n) .scalar)}

/-- The energy of a compressible body is evaluated at `F`: it is built there, or it is moved there
after any calls, accepted and rejected ones, since it was built. -/
inductive Evaluation (Γ : Nat → Shape) (d : Dimension n) (c d₀ d₁ : K) (F : Mat K n n) :
    Except (DomainError K) (Tree K (Builtin K Γ) (.square n) .scalar) → Prop where
  | built : Evaluation Γ d c d₀ d₁ F (compressible d c d₀ d₁ F).tree?
  | moved {F₀ : Mat K n n} {t : Tree K (Builtin K Γ) (.square n) .scalar}
      (h : (compressible d c d₀ d₁ F₀).tree? = .ok t) (calls : List (Call K Γ (.square n))) :
      Evaluation Γ d c d₀ d₁ F ((t.after calls).call (.update F)).toExcept

/-- The energy is a function of the deformation gradient alone. -/
theorem variableFree_compressibleAt :
    (compressibleAt d c d₀ d₁ F : Tree K (Builtin K Γ) _ _).VariableFree :=
  fun _ => rfl

/-- Moving the energy is building it where it is moved to. -/
theorem Evaluation.eq (h : Evaluation Γ d c d₀ d₁ F r) : r = (compressible d c d₀ d₁ F).tree? := by
  cases h with
  | built => rfl
  | @moved F₀ t h calls =>
    have free : t.VariableFree := by
      rw [eq_compressibleAt_of_tree? h]
      exact variableFree_compressibleAt
    exact (free.toExcept_update_after calls F).trans (Formula.toExcept_call_of_built h _)

variable [Valued K] [Rounded K] [ExactSign K]

omit [ExactSign K] in
/-- The entries of the identity are finite. -/
theorem finite_one : (1 : Mat K n n).Finite := by
  intro i j
  rw [Mat.get_one]
  split
  · exact Rounded.one.isFinite
  · exact Rounded.zero.isFinite

omit [ExactSign K] in
/-- The square accepts every finite number. -/
theorem at?_square (x : K) :
    Elementary.at? (.pow 2 1) x =
      (do checkFinite "pow" x; return ⟨.pow 2 1, x, (ElementaryFunction.pow 2 1).jet x⟩) := by
  cases hx : isFinite x with
  | false =>
    simp [Elementary.at?, ElementaryFunction.jet?, ElementaryFunction.name, checkFinite, hx, bind,
      Except.bind]
  | true =>
    have hquotient : ElementaryFunction.quotient 2 1 = 2 := by decide +kernel
    have haccepted : (ElementaryFunction.pow 2 1).domainLeft? x = none :=
      (ElementaryFunction.domainLeft?_pow_eq_none_iff (by decide) hx).2
        ⟨.inl rfl, .inr (.inr (.inr (.inl hquotient)))⟩
    rw [Elementary.at?_eq_ok_iff.2 ⟨hx, haccepted, rfl⟩, checkFinite_eq_ok_iff.2 hx]
    rfl

omit [Rounded K] in
/-- The logarithm accepts the finite numbers that are greater than zero. -/
theorem at?_ln {x : K} (hx : isFinite x = true) :
    Elementary.at? .ln x =
      if lt 0 x then .ok ⟨.ln, x, ElementaryFunction.ln.jet x⟩
      else .error (.outOfDomain "ln" "(0, inf)" x) := by
  have hle := ExactSign.le_zero_eq_not_lt hx
  cases hpos : lt 0 x with
  | true =>
    have haccepted : ElementaryFunction.ln.domainLeft? x = none := by
      rw [ElementaryFunction.domainLeft?, hle, hpos]
      rfl
    exact Elementary.at?_eq_ok_iff.2 ⟨hx, haccepted, rfl⟩
  | false =>
    have hrejected : ElementaryFunction.ln.domainLeft? x = some "(0, inf)" := by
      rw [ElementaryFunction.domainLeft?, hle, hpos]
      rfl
    exact Elementary.at?_eq_error hx hrejected

/-- The checks that can fail, in their order. What the energy checks at the identity passes, the
check of the determinant's argument repeats that of the strain, and the power passes every finite
number, so four checks are left. -/
theorem tree?_compressible_eq :
    (compressible d c d₀ d₁ F : Formula K (Seed K Γ) _ _).tree? = (do
      checkAllFinite "strain" F.entries
      checkAllFinite "trace" (F.transposeMul F).entries
      checkFinite "pow" (d.det F)
      if lt 0 (d.det F) then .ok (compressibleAt d c d₀ d₁ F)
      else .error (.outOfDomain "ln" "(0, inf)" (d.det F))) := by
  have hone : isFinite (1 : K) = true := Rounded.one.isFinite
  have hpos : lt 0 (1 : K) = true := by
    rw [ExactSign.zero_lt hone, Rounded.one.value_eq]
    exact zero_lt_one
  have hidentity : checkAllFinite "trace" (1 : Mat K n n).entries = .ok () :=
    Mat.checkAllFinite_eq_ok_iff.2 finite_one
  rw [tree?_compressible, hidentity, at?_square, checkFinite_eq_ok_iff.2 hone, at?_ln hone,
    if_pos hpos]
  cases hstrain : checkAllFinite "strain" F.entries with
  | error => rfl
  | ok =>
    have hdet : checkAllFinite "det" F.entries = .ok () :=
      checkAllFinite_eq_ok_iff.2 (checkAllFinite_eq_ok_iff.1 hstrain)
    rw [hdet, at?_square]
    cases checkAllFinite "trace" (F.transposeMul F).entries with
    | error => rfl
    | ok =>
      cases hj : isFinite (d.det F) with
      | false => simp [checkFinite, hj]; rfl
      | true =>
        rw [checkFinite_eq_ok_iff.2 hj, at?_ln hj]
        cases lt 0 (d.det F) <;> rfl

section Outcomes

variable {i k : Fin n}

/-- The energy that is built at `F`. The strain is the first one to check the entries of `F`. -/
theorem tree?_of_gradient (h : F.FirstNonFinite i k) :
    (compressible d c d₀ d₁ F : Formula K (Seed K Γ) _ _).tree? =
      .error (.nonFinite "strain" (F.get i k)) := by
  rw [tree?_compressible_eq, h.checkAllFinite]
  rfl

variable (gradient : F.Finite)
include gradient

/-- The trace checks the entries of the strain. -/
theorem tree?_of_product (h : (F.transposeMul F).FirstNonFinite i k) :
    (compressible d c d₀ d₁ F : Formula K (Seed K Γ) _ _).tree? =
      .error (.nonFinite "trace" ((F.transposeMul F).get i k)) := by
  rw [tree?_compressible_eq, Mat.checkAllFinite_eq_ok_iff.2 gradient, h.checkAllFinite]
  rfl

variable (product : (F.transposeMul F).Finite)
include product

/-- Where the strain passes, the square of the determinant is the first one to check it. -/
theorem tree?_of_det (h : isFinite (d.det F) = false) :
    (compressible d c d₀ d₁ F : Formula K (Seed K Γ) _ _).tree? =
      .error (.nonFinite "pow" (d.det F)) := by
  have hcheck : checkFinite "pow" (d.det F) = .error (.nonFinite "pow" (d.det F)) := by
    rw [checkFinite, h]
    rfl
  rw [tree?_compressible_eq, Mat.checkAllFinite_eq_ok_iff.2 gradient,
    Mat.checkAllFinite_eq_ok_iff.2 product, hcheck]
  rfl

variable (det : isFinite (d.det F) = true)
include det

/-- A determinant that is finite and not positive is rejected by the logarithm. -/
theorem tree?_of_not_pos (h : lt 0 (d.det F) = false) :
    (compressible d c d₀ d₁ F : Formula K (Seed K Γ) _ _).tree? =
      .error (.outOfDomain "ln" "(0, inf)" (d.det F)) := by
  rw [tree?_compressible_eq, Mat.checkAllFinite_eq_ok_iff.2 gradient,
    Mat.checkAllFinite_eq_ok_iff.2 product, checkFinite_eq_ok_iff.2 det, h]
  rfl

/-- No check is left that could fail if the determinant is positive. -/
theorem tree?_of_pos (h : lt 0 (d.det F) = true) :
    (compressible d c d₀ d₁ F : Formula K (Seed K Γ) _ _).tree? =
      .ok (compressibleAt d c d₀ d₁ F) := by
  rw [tree?_compressible_eq, Mat.checkAllFinite_eq_ok_iff.2 gradient,
    Mat.checkAllFinite_eq_ok_iff.2 product, checkFinite_eq_ok_iff.2 det, h]
  rfl

end Outcomes

/-- An energy that is built has passed all four checks. -/
theorem conditions_of_tree? {t : Tree K (Builtin K Γ) (.square n) .scalar}
    (h : (compressible d c d₀ d₁ F).tree? = .ok t) :
    F.Finite ∧ (F.transposeMul F).Finite ∧ isFinite (d.det F) = true ∧ lt 0 (d.det F) = true := by
  rw [tree?_compressible_eq] at h
  obtain ⟨⟨⟩, hstrain, h⟩ := bind_eq_ok h
  obtain ⟨⟨⟩, htrace, h⟩ := bind_eq_ok h
  obtain ⟨⟨⟩, hpow, h⟩ := bind_eq_ok h
  refine ⟨Mat.checkAllFinite_eq_ok_iff.1 hstrain, Mat.checkAllFinite_eq_ok_iff.1 htrace,
    checkFinite_eq_ok_iff.1 hpow, ?_⟩
  cases hpos : lt 0 (d.det F) with
  | true => rfl
  | false =>
    rw [hpos] at h
    cases h

/-- The check of the determinant's argument repeats one that has passed. -/
theorem function_ne_det {e : DomainError K}
    (h : (compressible d c d₀ d₁ F : Formula K (Seed K Γ) _ _).tree? = .error e) :
    e.function ≠ "det" := by
  by_cases hF : F.Finite
  case neg =>
    obtain ⟨i, k, hfirst⟩ := Mat.exists_firstNonFinite hF
    cases (tree?_of_gradient hfirst).symm.trans h
    exact (by decide : "strain" ≠ "det")
  by_cases hC : (F.transposeMul F).Finite
  case neg =>
    obtain ⟨i, k, hfirst⟩ := Mat.exists_firstNonFinite hC
    cases (tree?_of_product hF hfirst).symm.trans h
    exact (by decide : "trace" ≠ "det")
  cases hj : isFinite (d.det F) with
  | false =>
    cases (tree?_of_det hF hC hj).symm.trans h
    exact (by decide : "pow" ≠ "det")
  | true =>
    cases hpos : lt 0 (d.det F) with
    | false =>
      cases (tree?_of_not_pos hF hC hj hpos).symm.trans h
      exact (by decide : "ln" ≠ "det")
    | true => nomatch (tree?_of_pos hF hC hj hpos).symm.trans h

/-- The admissible deformation gradients of a compressible body, in arithmetic that rounds and
overflows, such as that of the floating-point numbers. The energy is built at `F`, or is moved there
after whatever calls, some of which may have been rejected. It accepts `F` if and only if all
entries of `F` and of the computed product of its transpose with it are finite, and the computed
determinant is finite and greater than zero. Otherwise the first of these that is not so is
reported: by the strain with the first entry of `F` that is not finite, by the trace with the first
such entry of the product, by the power with the determinant, or by the logarithm with the
determinant. So it is never the leaf of the determinant that reports. -/
theorem compressible_admissible (h : Evaluation Γ d c d₀ d₁ F r) :
    let C := F.transposeMul F
    let j := d.det F
    ((∃ t, r = .ok t) ↔ F.Finite ∧ C.Finite ∧ isFinite j = true ∧ lt 0 j = true) ∧
    (¬F.Finite → ∃ i k, F.FirstNonFinite i k ∧ r = .error (.nonFinite "strain" (F.get i k))) ∧
    (F.Finite → ¬C.Finite →
      ∃ i k, C.FirstNonFinite i k ∧ r = .error (.nonFinite "trace" (C.get i k))) ∧
    (F.Finite → C.Finite → isFinite j = false → r = .error (.nonFinite "pow" j)) ∧
    (F.Finite → C.Finite → isFinite j = true → lt 0 j = false →
      r = .error (.outOfDomain "ln" "(0, inf)" j)) ∧
    ∀ e, r = .error e → e.function ≠ "det" := by
  intro C j
  obtain rfl := h.eq
  refine ⟨⟨?_, ?_⟩, ?_, ?_, tree?_of_det, tree?_of_not_pos, fun _ => function_ne_det⟩
  · rintro ⟨t, ht⟩
    exact conditions_of_tree? ht
  · rintro ⟨hF, hC, hj, hpos⟩
    exact ⟨_, tree?_of_pos hF hC hj hpos⟩
  · intro hF
    obtain ⟨i, k, hfirst⟩ := Mat.exists_firstNonFinite hF
    exact ⟨i, k, hfirst, tree?_of_gradient hfirst⟩
  · intro hF hC
    obtain ⟨i, k, hfirst⟩ := Mat.exists_firstNonFinite hC
    exact ⟨i, k, hfirst, tree?_of_product hF hfirst⟩

/-- An energy of the floating-point numbers, built at the identity of the plane. A stretch by
`1e200` is finite, but its product is not, a reflection has a negative determinant, and after both
have been rejected the identity is accepted again. In space a stretch by `1e154` has a finite
product, and its determinant overflows. -/
theorem compressible_admissible_doubles :
    let identity : Mat Float 2 2 := 1
    let stretch : Mat Float 2 2 := ⟨#v[#v[1e200, 0], #v[0, 1]]⟩
    let reflection : Mat Float 2 2 := ⟨#v[#v[0, 1], #v[1, 0]]⟩
    let inflation : Mat Float 3 3 := ⟨#v[#v[1e154, 0, 0], #v[0, 1e154, 0], #v[0, 0, 1e154]]⟩
    (∃ t : Tree Float (Builtin Float fun _ => .scalar) (.square 2) .scalar,
      (compressible .plane 1 1 (-4) identity).tree? = .ok t ∧
      (∃ i k, (stretch.transposeMul stretch).FirstNonFinite i k ∧
        (t.call (.update stretch)).toExcept =
          .error (.nonFinite "trace" ((stretch.transposeMul stretch).get i k))) ∧
      ((t.after [.update stretch]).call (.update reflection)).toExcept =
        .error (.outOfDomain "ln" "(0, inf)" (Dimension.plane.det reflection)) ∧
      ∃ t', ((t.after [.update stretch, .update reflection]).call
        (.update identity)).toExcept = .ok t') ∧
    (compressible .space 1 1 (-4) inflation :
        Formula Float (Seed Float fun _ => .scalar) (.square 3) .scalar).tree? =
      .error (.nonFinite "pow" (Dimension.space.det inflation)) := by
  intro identity stretch reflection inflation
  have hidentity : identity.Finite ∧ (identity.transposeMul identity).Finite ∧
      isFinite (Dimension.plane.det identity) = true ∧
      lt 0 (Dimension.plane.det identity) = true :=
    ⟨finite_one, by decide +kernel, by decide +kernel, by decide +kernel⟩
  have hstretch : stretch.Finite := by decide +kernel
  have hproduct : ¬(stretch.transposeMul stretch).Finite := by decide +kernel
  have hreflection : reflection.Finite ∧ (reflection.transposeMul reflection).Finite ∧
      isFinite (Dimension.plane.det reflection) = true ∧
      lt 0 (Dimension.plane.det reflection) = false :=
    ⟨by decide +kernel, by decide +kernel, by decide +kernel, by decide +kernel⟩
  have hinflation : inflation.Finite ∧ (inflation.transposeMul inflation).Finite ∧
      isFinite (Dimension.space.det inflation) = false :=
    ⟨by decide +kernel, by decide +kernel, by decide +kernel⟩
  constructor
  · have atIdentity : Evaluation (fun _ => .scalar) .plane 1 1 (-4) identity _ := .built
    obtain ⟨t, built⟩ := (compressible_admissible atIdentity).1.2 hidentity
    obtain ⟨-, -, htrace, -⟩ := compressible_admissible (.moved (F := stretch) built [])
    obtain ⟨-, -, -, -, hln, -⟩ :=
      compressible_admissible (.moved (F := reflection) built [.update stretch])
    have again := compressible_admissible
      (.moved (F := identity) built [.update stretch, .update reflection])
    obtain ⟨finite, product, det, hnegative⟩ := hreflection
    exact ⟨t, built, htrace hstretch hproduct, hln finite product det hnegative,
      again.1.2 hidentity⟩
  · obtain ⟨finite, product, det⟩ := hinflation
    exact (compressible_admissible .built).2.2.2.1 finite product det

end NeoHooke

end Directional
