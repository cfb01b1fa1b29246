import Directional.Proofs.Exact.Matrix
import Directional.Proofs.Leaf.Domain
import Directional.Proofs.Tree.Composition

namespace Directional.Tree

/-- Trees that are given by a state each. If whatever call the first one accepts takes both to the
same new state, then so does every sequence of calls that the first one accepts. -/
theorem run_of_call {K : Type} [Scalar K] {Γ : Nat → Shape} {L : Shape → Shape → Type} [Leaf K Γ L]
    {a s : Shape} {σ : Type} {f g : σ → Tree K L a s}
    (step : ∀ p c {f'}, (f p).call c = .accepted f' →
      ∃ q, f' = f q ∧ (g p).call c = .accepted (g q))
    {p : σ} {calls : List (Call K Γ a)} {f' : Tree K L a s} (accepted : (f p).run calls = .ok f') :
    ∃ q, f' = f q ∧ (g p).run calls = .ok (g q) := by
  induction calls generalizing p with
  | nil =>
    cases accepted
    exact ⟨p, rfl, rfl⟩
  | cons c calls ih =>
    rw [run, List.foldlM_cons] at accepted ⊢
    obtain ⟨f₁, hcall, hrest⟩ := bind_eq_ok accepted
    obtain ⟨p₁, rfl, hg⟩ := step p c (Outcome.toExcept_eq_ok_iff.1 hcall)
    rw [hg]
    exact ih hrest

section States

variable {K : Type} [Scalar K] {Γ : Nat → Shape} {r c n : Nat}

/-- The trace of the strain of a deformation gradient. -/
def traceOfStrainAt (F : Mat K n n) : Tree K (Builtin K Γ) (.square n) .scalar :=
  chain (leaf (.trace ⟨(F.transposeMul F).trace⟩)) (leaf (.strain ⟨F, F.transposeMul F⟩))

/-- The squared norm of a matrix. -/
def squaredNormAt (A : Mat K r c) : Tree K (Builtin K Γ) (.matrix r c) .scalar :=
  leaf (.squaredNorm ⟨A, A.normSquared⟩)

/-- The inner product of a matrix with itself. -/
def innerSelfAt (A : Mat K r c) : Tree K (Builtin K Γ) (.matrix r c) .scalar :=
  mkProduct (.inner (.matrix r c)) (leaf (.identity A)) (leaf (.identity A))

/-- All three trees are functions of their argument alone. -/
theorem variableFree_traceOfStrainAt (F : Mat K n n) :
    (traceOfStrainAt F : Tree K (Builtin K Γ) _ _).VariableFree :=
  fun _ => rfl

theorem variableFree_squaredNormAt (A : Mat K r c) :
    (squaredNormAt A : Tree K (Builtin K Γ) _ _).VariableFree :=
  fun _ => rfl

theorem variableFree_innerSelfAt (A : Mat K r c) :
    (innerSelfAt A : Tree K (Builtin K Γ) _ _).VariableFree :=
  fun _ => rfl

/-- Wherever the trace has been, it is moved to the strain. -/
theorem eq_traceOfStrainAt_of_mkChain {l : Trace K n} {F : Mat K n n}
    {f : Tree K (Builtin K Γ) (.square n) .scalar}
    (h : mkChain (leaf (.trace l)) (leaf (.strain ⟨F, F.transposeMul F⟩)) = .ok f) :
    f = traceOfStrainAt F := by
  obtain ⟨f', htrace, rfl⟩ := mkChain_eq_ok_iff.1 h
  obtain ⟨l', hmoved, rfl⟩ := accepted_call_leaf htrace
  obtain ⟨-, rfl⟩ := Mat.update_eq_accepted_iff.1 hmoved
  rfl

/-- The trace of the strain is moved only if the squared norm is. -/
theorem accepted_call_traceOfStrainAt (F : Mat K n n) (c : Call K Γ (.square n))
    {f : Tree K (Builtin K Γ) (.square n) .scalar}
    (accepted : (traceOfStrainAt F).call c = .accepted f) :
    ∃ G, f = traceOfStrainAt G ∧ (squaredNormAt F).call c = .accepted (squaredNormAt G) := by
  cases c with
  | write i x =>
    cases accepted
    exact ⟨F, rfl, rfl⟩
  | update G =>
    have hreacts : (leaf (.strain ⟨F, F.transposeMul F⟩) : Tree K (Builtin K Γ) _ _).dependsOn
        (Call.update G : Call K Γ (.square n)).slot = true := rfl
    rw [← Outcome.toExcept_eq_ok_iff, traceOfStrainAt, toExcept_call_chain,
      if_pos hreacts] at accepted
    obtain ⟨g, hstrain, hchain⟩ := bind_eq_ok accepted
    obtain ⟨l, hmoved, rfl⟩ := accepted_call_leaf (Outcome.toExcept_eq_ok_iff.1 hstrain)
    obtain ⟨finite, rfl⟩ := Mat.update_eq_accepted_iff.1 hmoved
    refine ⟨G, eq_traceOfStrainAt_of_mkChain ((Formula.mkChain_eq_bind _ _).trans hchain), ?_⟩
    exact congrArg (Outcome.map leaf) (Mat.update_eq_accepted_iff.2 ⟨finite, rfl⟩)

/-- The squared norm is moved only if the inner product is. -/
theorem accepted_call_squaredNormAt (A : Mat K r c) (d : Call K Γ (.matrix r c))
    {f : Tree K (Builtin K Γ) (.matrix r c) .scalar}
    (accepted : (squaredNormAt A).call d = .accepted f) :
    ∃ B, f = squaredNormAt B ∧ (innerSelfAt A).call d = .accepted (innerSelfAt B) := by
  cases d with
  | write i x =>
    cases accepted
    exact ⟨A, rfl, rfl⟩
  | update B =>
    obtain ⟨l, hmoved, rfl⟩ := accepted_call_leaf accepted
    obtain ⟨-, rfl⟩ := Mat.update_eq_accepted_iff.1 hmoved
    exact ⟨B, rfl, rfl⟩

end States

section Derivatives

variable {K : Type} [Field K] [Primitives K] {Γ : Nat → Shape} {r c n : Nat}

/-- The trace of the strain adds up the same products as the squared norm, and has its derivatives
from the rule for compositions. -/
theorem sameMembers_traceOfStrainAt (F : Mat K n n) :
    SameMembers (traceOfStrainAt F : Tree K (Builtin K Γ) _ _) (squaredNormAt F) := by
  apply (variableFree_traceOfStrainAt F).sameMembers (variableFree_squaredNormAt F)
  · change F.normSquared = (F.transposeMul F).trace
    rw [Mat.normSquared_eq_inner, Mat.trace_transposeMul]
  · rfl
  · rfl
  · rfl
  · rfl

theorem sameAnswers_traceOfStrainAt (F : Mat K n n) :
    SameAnswers (traceOfStrainAt F : Tree K (Builtin K Γ) _ _) (squaredNormAt F) := by
  apply (variableFree_traceOfStrainAt F).sameAnswers (variableFree_squaredNormAt F)
  · intro dF
    change some (SquaredNorm.mixed F dF) = some (Strain.mixed dF F).trace
    rw [SquaredNorm.mixed_eq_add, Strain.trace_mixed, add_comm]
  · intro dF dG
    change some (SquaredNorm.mixed dF dG) = some (Strain.mixed dF dG).trace
    rw [SquaredNorm.mixed_eq_add, Strain.trace_mixed]
  · exact fun _ _ _ => rfl

/-- The inner product adds up the same squares as the squared norm. -/
theorem sameMembers_squaredNormAt (A : Mat K r c) :
    SameMembers (squaredNormAt A : Tree K (Builtin K Γ) _ _) (innerSelfAt A) := by
  apply (variableFree_squaredNormAt A).sameMembers (variableFree_innerSelfAt A)
  · exact A.normSquared_eq_inner.symm
  · rfl
  · rfl
  · rfl
  · rfl

/-- By the rule for products it has the derivatives of the leaf. -/
theorem sameAnswers_squaredNormAt (A : Mat K r c) :
    SameAnswers (squaredNormAt A : Tree K (Builtin K Γ) _ _) (innerSelfAt A) := by
  apply (variableFree_squaredNormAt A).sameAnswers (variableFree_innerSelfAt A)
  · intro dA
    change some (dA.inner A + A.inner dA) = some (SquaredNorm.mixed A dA)
    rw [SquaredNorm.mixed_eq_add, add_comm]
  · intro dA dB
    change some (dA.inner dB + dB.inner dA) = some (SquaredNorm.mixed dA dB)
    rw [SquaredNorm.mixed_eq_add]
  · exact fun _ _ _ => rfl

end Derivatives

section Coincidence

variable {K : Type} [Field K] [Primitives K] {Γ : Nat → Shape} {r c n : Nat}

/-- A trace of the strain that is built has a matrix of finite entries. -/
theorem traceOfStrainAt_of_tree? {A B : Mat K n n} {f : Tree K (Builtin K Γ) (.square n) .scalar}
    (built : (Formula.chain (.leaf (.trace B)) (.leaf (.strain A))).tree? = .ok f) :
    A.Finite ∧ f = traceOfStrainAt A := by
  rw [Formula.tree?_chain] at built
  obtain ⟨f', htrace, hrest⟩ := bind_eq_ok built
  obtain ⟨g', hstrain, hchain⟩ := bind_eq_ok hrest
  obtain ⟨k, hk, rfl⟩ := Formula.tree?_leaf_eq_ok_iff.1 htrace
  obtain ⟨l, hl, rfl⟩ := Formula.tree?_leaf_eq_ok_iff.1 hstrain
  obtain ⟨-, rfl⟩ := Mat.build_eq_ok_iff.1 hk
  obtain ⟨finite, rfl⟩ := Mat.build_eq_ok_iff.1 hl
  exact ⟨finite, eq_traceOfStrainAt_of_mkChain hchain⟩

/-- The squared norm is built at every matrix of finite entries. -/
theorem tree?_squaredNorm_eq_ok_iff {A : Mat K r c}
    {f : Tree K (Builtin K Γ) (.matrix r c) .scalar} :
    (Formula.leaf (.squaredNorm A)).tree? = .ok f ↔ A.Finite ∧ f = squaredNormAt A := by
  rw [Formula.tree?_leaf_eq_ok_iff]
  constructor
  · rintro ⟨l, hl, rfl⟩
    obtain ⟨finite, rfl⟩ := Mat.build_eq_ok_iff.1 hl
    exact ⟨finite, rfl⟩
  · rintro ⟨finite, rfl⟩
    exact ⟨_, Mat.build_eq_ok_iff.2 ⟨finite, rfl⟩, rfl⟩

/-- Three implementations of the squared norm coincide. Let the trace of the strain be built at a
square matrix, and let it accept a sequence of calls. Then the squared norm and the inner product of
the argument with itself are built at the same matrix and accept the same calls, and all three of
them are left with the same value, they depend on the same slots and have the same derivatives of
every order, with the same answers in all directions. None of them has a third derivative. For
matrices that need not be square, the same holds of the squared norm and the inner product. -/
theorem squared_norms_coincide :
    (∀ {n : Nat} {A B : Mat K n n} {t₀ t : Tree K (Builtin K Γ) (.square n) .scalar}
      {calls : List (Call K Γ (.square n))},
      (Formula.chain (.leaf (.trace B)) (.leaf (.strain A))).tree? = .ok t₀ →
      t₀.run calls = .ok t →
      ∃ u₀ u v₀ v, (Formula.leaf (.squaredNorm A)).tree? = .ok u₀ ∧ u₀.run calls = .ok u ∧
        (Formula.product (.inner (.square n)) (.leaf (.identity A)) (.leaf (.identity A))).tree? =
          .ok v₀ ∧ v₀.run calls = .ok v ∧
        SameMembers t u ∧ SameAnswers t u ∧ SameMembers u v ∧ SameAnswers u v ∧
        ∀ X Y Z, t.has₃ X Y Z = false) ∧
    ∀ {r c : Nat} {A : Mat K r c} {u₀ u : Tree K (Builtin K Γ) (.matrix r c) .scalar}
      {calls : List (Call K Γ (.matrix r c))},
      (Formula.leaf (.squaredNorm A)).tree? = .ok u₀ → u₀.run calls = .ok u →
      ∃ v₀ v,
        (Formula.product (.inner (.matrix r c)) (.leaf (.identity A))
          (.leaf (.identity A))).tree? = .ok v₀ ∧ v₀.run calls = .ok v ∧
        SameMembers u v ∧ SameAnswers u v ∧ ∀ X Y Z, u.has₃ X Y Z = false := by
  constructor
  · intro n A B t₀ t calls built accepted
    obtain ⟨finite, rfl⟩ := traceOfStrainAt_of_tree? built
    obtain ⟨G, rfl, hnorm⟩ := run_of_call accepted_call_traceOfStrainAt accepted
    obtain ⟨G', hG, hinner⟩ := run_of_call accepted_call_squaredNormAt hnorm
    -- The squared norm ends in one state, which `G` and `G'` both stand for.
    refine ⟨_, _, _, _, tree?_squaredNorm_eq_ok_iff.2 ⟨finite, rfl⟩, hnorm, rfl, hinner,
      sameMembers_traceOfStrainAt G, sameAnswers_traceOfStrainAt G, ?_, ?_, fun _ _ _ => rfl⟩
    · rw [hG]
      exact sameMembers_squaredNormAt G'
    · rw [hG]
      exact sameAnswers_squaredNormAt G'
  · intro r c A u₀ u calls built accepted
    obtain ⟨-, rfl⟩ := tree?_squaredNorm_eq_ok_iff.1 built
    obtain ⟨B, rfl, hinner⟩ := run_of_call accepted_call_squaredNormAt accepted
    exact ⟨_, _, rfl, hinner, sameMembers_squaredNormAt B, sameAnswers_squaredNormAt B,
      fun _ _ _ => rfl⟩

/-- The trace of the strain at the identity, moved to the rows `1 2` and `3 4`, and the squared norm
of a single row. -/
theorem squared_norms_coincide_rows :
    let A : Mat ℚ 2 2 := ⟨#v[#v[1, 2], #v[3, 4]]⟩
    let B : Mat ℚ 1 3 := ⟨#v[#v[1, 2, 3]]⟩
    let t (F : Mat ℚ 2 2) : Tree ℚ (Builtin ℚ fun _ => .scalar) (.square 2) .scalar :=
      traceOfStrainAt F
    let u (F : Mat ℚ 1 3) : Tree ℚ (Builtin ℚ fun _ => .scalar) (.matrix 1 3) .scalar :=
      squaredNormAt F
    ((Formula.chain (.leaf (.trace 0)) (.leaf (.strain 1))).tree? = .ok (t 1) ∧
      (t 1).run [.update A] = .ok (t A) ∧
      ∃ u₀ u v₀ v, (Formula.leaf (.squaredNorm 1)).tree? = .ok u₀ ∧
        u₀.run [.update A] = .ok u ∧
        (Formula.product (.inner (.square 2)) (.leaf (.identity (1 : Mat ℚ 2 2)))
          (.leaf (.identity (1 : Mat ℚ 2 2)))).tree? = .ok v₀ ∧ v₀.run [.update A] = .ok v ∧
        SameMembers (t A) u ∧ SameAnswers (t A) u ∧ SameMembers u v ∧ SameAnswers u v ∧
        (t A).value = (30 : ℚ) ∧ v.value = (30 : ℚ)) ∧
    ((Formula.leaf (.squaredNorm 0)).tree? = .ok (u 0) ∧ (u 0).run [.update B] = .ok (u B) ∧
      ∃ v₀ v, (Formula.product (.inner (.matrix 1 3)) (.leaf (.identity (0 : Mat ℚ 1 3)))
          (.leaf (.identity (0 : Mat ℚ 1 3)))).tree? = .ok v₀ ∧ v₀.run [.update B] = .ok v ∧
        SameMembers (u B) v ∧ SameAnswers (u B) v ∧ v.value = (14 : ℚ)) := by
  intro A B t u
  obtain ⟨hsquare, hmatrix⟩ := squared_norms_coincide (K := ℚ) (Γ := fun _ => .scalar)
  constructor
  · have built : (Formula.chain (.leaf (.trace 0)) (.leaf (.strain 1))).tree? = .ok (t 1) := rfl
    have accepted : (t 1).run [.update A] = .ok (t A) := rfl
    have hvalue : (t A).value = (30 : ℚ) := by decide +kernel
    obtain ⟨u₀, u, v₀, v, hu₀, hu, hv₀, hv, huMembers, huAnswers, hvMembers, hvAnswers, -⟩ :=
      hsquare built accepted
    exact ⟨built, accepted, u₀, u, v₀, v, hu₀, hu, hv₀, hv, huMembers, huAnswers, hvMembers,
      hvAnswers, hvalue, (hvMembers.value.trans huMembers.value).trans hvalue⟩
  · have built : (Formula.leaf (.squaredNorm 0)).tree? = .ok (u 0) := rfl
    have accepted : (u 0).run [.update B] = .ok (u B) := rfl
    have hvalue : (u B).value = (14 : ℚ) := by decide +kernel
    obtain ⟨v₀, v, hv₀, hv, hmembers, hanswers, -⟩ := hmatrix built accepted
    exact ⟨built, accepted, v₀, v, hv₀, hv, hmembers, hanswers, hmembers.value.trans hvalue⟩

end Coincidence

end Directional.Tree
