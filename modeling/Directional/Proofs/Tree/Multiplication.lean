import Mathlib.Tactic.Ring
import Directional.Proofs.Tree.Operands
import Directional.Proofs.Tree.Regrouping

namespace Directional

section Inner

variable {K : Type} [Scalar K]

/-- The inner product of two numbers is their product. -/
theorem Term.product_inner (x y : Term K .scalar) :
    product (.inner .scalar) x y = product .scalars x y := by
  cases x <;> cases y <;> rfl

namespace Leibniz

variable (f g : Value K .scalar)

/-- The rules of the inner product of numbers are those of the product, by the same operations in
the same order. -/
theorem first_inner (d e : Term K .scalar) :
    first (.inner .scalar) f d g e = first .scalars f d g e := by
  simp only [first, Term.product_inner]

theorem second_inner (d e : Mixed₂ (Term K .scalar)) :
    second (.inner .scalar) f d g e = second .scalars f d g e := by
  simp only [second, Term.product_inner]

theorem third_inner (d e : Mixed₃ (Term K .scalar)) :
    third (.inner .scalar) f d g e = third .scalars f d g e := by
  simp only [third, Term.product_inner]

end Leibniz

end Inner

namespace Square

variable {K : Type} [Field K] [Primitives K]

private theorem add_eq (x y : K) : (Value.add x y : Value K .scalar) = x + y := rfl

private theorem apply_eq (x y : K) : (Pairing.scalars.apply x y : Value K .scalar) = x * y := rfl

private theorem scale_eq (x : K) : (Value.scale x (Scalar.int 2 : K) : Value K .scalar) = x + x :=
  Scalar.mul_int_two x

variable (f : Value K .scalar)

/-- A square adds the terms of the product rule in pairs, which over exact arithmetic makes no
difference. -/
theorem first_eq_leibniz (d : Term K .scalar) :
    first .scalars f d = Leibniz.first .scalars f d f d := by
  apply Term.eq_of_isSome_of_total
  · rw [isSome_first, Leibniz.isSome_first, Leibniz.hasFirst, Bool.or_self]
  · simp only [first, Leibniz.first, double, Term.total_sumAll, Term.total_scale,
      Term.total_product, List.map, List.foldr, Value.add_zero]
    simp only [add_eq, apply_eq, scale_eq]
    ring

theorem second_eq_leibniz (d : Mixed₂ (Term K .scalar)) :
    second .scalars f d = Leibniz.second .scalars f d f d := by
  apply Term.eq_of_isSome_of_total
  · rw [isSome_second, Leibniz.isSome_second, hasSecond_eq_leibniz]
  · simp only [second, Leibniz.second, double, Term.total_sumAll, Term.total_scale,
      Term.total_product, List.map, List.foldr, Value.add_zero]
    simp only [add_eq, apply_eq, scale_eq]
    ring

theorem third_eq_leibniz (d : Mixed₃ (Term K .scalar)) :
    third .scalars f d = Leibniz.third .scalars f d f d := by
  apply Term.eq_of_isSome_of_total
  · rw [isSome_third, Leibniz.isSome_third, hasThird_eq_leibniz]
  · simp only [third, Leibniz.third, double, Term.total_sumAll, Term.total_scale,
      Term.total_product, List.map, List.foldr, Value.add_zero]
    simp only [add_eq, apply_eq, scale_eq]
    ring

end Square

namespace Tree

section Inner

variable {K : Type} {Γ : Nat → Shape} {L : Shape → Shape → Type} [Leaf K Γ L] {a : Shape}

/-- A product and an inner product of the same functions, in the same states. -/
inductive InnerOf : Tree K L a .scalar → Tree K L a .scalar → Prop where
  | intro (f g : Tree K L a .scalar) (v : Value K .scalar) :
      InnerOf (product .scalars f g v) (product (.inner .scalar) f g v)

variable {p q : Tree K L a .scalar}

/-- Nothing tells an inner product of numbers from their product: neither the value and the members
do. -/
theorem InnerOf.sameMembers (h : InnerOf p q) : SameMembers p q := by
  obtain ⟨f, g, v⟩ := h
  constructor <;> intros <;> rfl

variable [Scalar K]

theorem InnerOf.sameAnswers (h : InnerOf p q) : SameAnswers p q := by
  obtain ⟨f, g, v⟩ := h
  constructor
  · intro X dx
    exact Leibniz.first_inner f.value g.value _ _
  · intro X Y dx dy
    exact Leibniz.second_inner f.value g.value _ _
  · intro X Y Z dx dy dz
    exact Leibniz.third_inner f.value g.value _ _

/-- A call has the same result for both, and leaves the same functions in the same states. -/
theorem InnerOf.call (h : InnerOf p q) (c : Call K Γ a) :
    (p.call c).result = (q.call c).result ∧ InnerOf (p.call c).state (q.call c).state := by
  obtain ⟨f, g, v⟩ := h
  have hskip : (product (.inner .scalar) f g v).skips c.slot =
      (product .scalars f g v).skips c.slot := by
    cases c <;> rfl
  rw [call_product, call_product, hskip]
  split
  case isTrue => exact ⟨rfl, .intro f g v⟩
  case isFalse =>
    cases f.call? c with
    | rejected e f' => exact ⟨rfl, .intro f' g v⟩
    | accepted f' =>
      cases g.call? c with
      | rejected e g' => exact ⟨rfl, .intro f' g' v⟩
      | accepted g' => exact ⟨rfl, .intro f' g' _⟩

theorem InnerOf.calls (h : InnerOf p q) (calls : List (Call K Γ a)) :
    p.results calls = q.results calls ∧ InnerOf (p.after calls) (q.after calls) :=
  simulation_same (fun _ _ c h => h.call c) h calls

end Inner

section OneSlot

variable {K : Type} [Scalar K] {Γ : Nat → Shape} {L : Shape → Shape → Type} [Leaf K Γ L]
  [LawfulLeaf L] {a s : Shape} {calls : List (Call K Γ a)} {X : Slot}

/-- What a call returns, and which tree it leaves if it is accepted, does not depend on earlier
calls of its slot. -/
theorem toExcept_call_after (f : Tree K L a s) (hslot : ∀ c ∈ calls, c.slot = X) {d : Call K Γ a}
    (hd : d.slot = X) : ((f.after calls).call d).toExcept = (f.call d).toExcept := by
  induction calls generalizing f with
  | nil => rfl
  | cons c calls ih =>
    obtain ⟨hc, hcalls⟩ := List.forall_mem_cons.1 hslot
    rw [after_cons, ih _ hcalls, call_absorbs f (hc.trans hd.symm)]

/-- Two trees that return the same from single calls of a slot do so from sequences of them. -/
theorem results_eq_of_one_slot {f g : Tree K L a s}
    (h : ∀ c, (f.call c).toExcept.map (fun _ => ()) = (g.call c).toExcept.map fun _ => ())
    (hslot : ∀ c ∈ calls, c.slot = X) : f.results calls = g.results calls := by
  -- The calls are taken from the last one on, since all before it leave no trace in what it returns.
  induction calls using List.reverseRecOn with
  | nil => rfl
  | append_singleton calls c ih =>
    obtain ⟨hcalls, hc⟩ := List.forall_mem_append.1 hslot
    have hresult (o : Outcome (DomainError K) (Tree K L a s)) :
        o.result = o.toExcept.map fun _ => () := by
      cases o <;> rfl
    rw [results_concat, results_concat, ih hcalls, hresult, hresult,
      toExcept_call_after f hcalls (hc c (List.mem_singleton_self c)),
      toExcept_call_after g hcalls (hc c (List.mem_singleton_self c)), h]

end OneSlot

section Square

variable {K : Type} {Γ : Nat → Shape} {L : Shape → Shape → Type} [Leaf K Γ L] {a : Shape}

/-- The product of two copies of `f`. -/
def mkProductSelf [Scalar K] (f : Tree K L a .scalar) : Tree K L a .scalar :=
  mkProduct .scalars f f

/-- A square has the value and the members of the product of two copies. -/
theorem sameMembers_mkSquared [Scalar K] (f : Tree K L a .scalar) :
    SameMembers f.mkProductSelf (mkSquared .scalars f) := by
  constructor
  · rfl
  · exact (Bool.or_self _).symm
  · exact fun _ => (Bool.or_self _).symm
  · exact fun _ => (Bool.or_self _).symm
  · exact fun _ _ => Square.hasSecond_eq_leibniz _
  · exact fun _ _ _ => Square.hasThird_eq_leibniz _

/-- Over exact arithmetic it has the same derivatives. -/
theorem sameAnswers_mkSquared [Field K] [Primitives K] (f : Tree K L a .scalar) :
    SameAnswers f.mkProductSelf (mkSquared .scalars f) := by
  constructor
  · intro X dx
    exact Square.first_eq_leibniz f.value _
  · intro X Y dx dy
    exact Square.second_eq_leibniz f.value _
  · intro X Y Z dx dy dz
    exact Square.third_eq_leibniz f.value _

variable [Scalar K] (f : Tree K L a .scalar)

/-- An accepted call takes both copies to the same state. -/
theorem toExcept_call_mkProductSelf (c : Call K Γ a) :
    (f.mkProductSelf.call c).toExcept = mkProductSelf <$> (f.call? c).toExcept := by
  rw [mkProductSelf, toExcept_call_mkProduct_eq_map, callBoth_self]
  cases (f.call? c).toExcept <;> rfl

theorem run_mkProductSelf (calls : List (Call K Γ a)) :
    f.mkProductSelf.run calls = mkProductSelf <$> f.run? calls := by
  rw [mkProductSelf, run_mkProduct, runBoth_self]
  cases f.run? calls <;> rfl

/-- A single call of a square and of a product of two copies has the same result. The copies part
when it is rejected, since the second one is not called then. -/
theorem result_call_mkSquared (c : Call K Γ a) :
    ((mkSquared .scalars f).call c).toExcept.map (fun _ => ()) =
      (f.mkProductSelf.call c).toExcept.map fun _ => () := by
  rw [toExcept_call_mkSquared, toExcept_call_mkProductSelf]
  cases (f.call? c).toExcept <;> rfl

/-- Calls, accepted and rejected ones of any slots, keep the derivatives that both have. -/
theorem sameDeclarations_after [LawfulLeaf L] (calls : List (Call K Γ a)) (X Y Z : Slot) :
    let square := (mkSquared .scalars f).after calls
    let product := f.mkProductSelf.after calls
    square.has₁ X = product.has₁ X ∧ square.has₂ X Y = product.has₂ X Y ∧
      square.has₃ X Y Z = product.has₃ X Y Z := by
  intro square product
  have hsquare := alike_after (mkSquared .scalars f) calls
  have hproduct := alike_after f.mkProductSelf calls
  have hmembers := f.sameMembers_mkSquared
  refine ⟨?_, ?_, ?_⟩
  · rw [hsquare.has₁_eq, hproduct.has₁_eq, hmembers.has₁]
  · rw [hsquare.has₂_eq, hproduct.has₂_eq, hmembers.has₂]
  · rw [hsquare.has₃_eq, hproduct.has₃_eq, hmembers.has₃]

end Square

/-- Three ways to multiply functions with numbers as values.

The inner product of `f` and `g` returns what their product returns from every sequence of calls,
accepted and rejected ones, and after it has the same value, the same members and the same
derivatives, whatever the leaves and the arithmetic.

The square of `f` and the product of `f` with itself have the same value and the same members. A
sequence of calls that the one accepts is accepted by the other, and a call that the one rejects
after it is rejected by the other with the same error; what is left is the square of a function and
the product of the same function with itself. If the state of a leaf after a call is decided by the
call, the same holds of every call after a sequence of accepted and rejected calls of its slot, and
each of these returns the same from both. Over exact arithmetic the derivatives of both are the
same, in all slots and directions. -/
theorem multiplications_agree :
    (∀ {K : Type} [Scalar K] {Γ : Nat → Shape} {L : Shape → Shape → Type} [Leaf K Γ L] {a : Shape}
      (f g : Tree K L a .scalar) (calls : List (Call K Γ a)),
      let product := mkProduct .scalars f g
      let inner := mkProduct (.inner .scalar) f g
      product.results calls = inner.results calls ∧
        SameMembers (product.after calls) (inner.after calls) ∧
        SameAnswers (product.after calls) (inner.after calls)) ∧
    (∀ {K : Type} [Scalar K] {Γ : Nat → Shape} {L : Shape → Shape → Type} [Leaf K Γ L] {a : Shape}
      (f : Tree K L a .scalar),
      let square := mkSquared .scalars f
      let product := f.mkProductSelf
      SameMembers product square ∧
        (∀ calls, square.run calls = mkSquared .scalars <$> f.run? calls ∧
          product.run calls = mkProductSelf <$> f.run? calls) ∧
        ∀ [LawfulLeaf L] (calls : List (Call K Γ a)),
          (∀ X Y Z, (square.after calls).has₁ X = (product.after calls).has₁ X ∧
            (square.after calls).has₂ X Y = (product.after calls).has₂ X Y ∧
            (square.after calls).has₃ X Y Z = (product.after calls).has₃ X Y Z) ∧
          ∀ X, (∀ c ∈ calls, c.slot = X) → square.results calls = product.results calls ∧
            ∀ c, c.slot = X →
              ((square.after calls).call c).toExcept =
                mkSquared .scalars <$> (f.call? c).toExcept ∧
              ((product.after calls).call c).toExcept = mkProductSelf <$> (f.call? c).toExcept) ∧
    ∀ {K : Type} [Field K] [Primitives K] {Γ : Nat → Shape} {L : Shape → Shape → Type}
      [Leaf K Γ L] {a : Shape} (f : Tree K L a .scalar),
      SameAnswers f.mkProductSelf (mkSquared .scalars f) := by
  refine ⟨?_, ?_, sameAnswers_mkSquared⟩
  · intro K _ Γ L _ a f g calls product inner
    obtain ⟨hresults, hafter⟩ := (InnerOf.intro f g product.value).calls calls
    exact ⟨hresults, hafter.sameMembers, hafter.sameAnswers⟩
  · intro K _ Γ L _ a f square product
    refine ⟨f.sameMembers_mkSquared, ?_, ?_⟩
    · exact fun calls => ⟨run_mkSquared .scalars f calls, f.run_mkProductSelf calls⟩
    · intro _ calls
      refine ⟨f.sameDeclarations_after calls, ?_⟩
      intro X hslot
      refine ⟨results_eq_of_one_slot f.result_call_mkSquared hslot, ?_⟩
      intro c hc
      -- An accepted call of the slot overrides what the others have left, also where the copies had
      -- parted.
      rw [toExcept_call_after square hslot hc, toExcept_call_after product hslot hc]
      exact ⟨toExcept_call_mkSquared .scalars f c, f.toExcept_call_mkProductSelf c⟩

/-- The function `x + ln x`, whose identity has moved to `-1` when the logarithm rejects that. The
second copy in the product has not moved then, but after the next update both are at `2`. -/
theorem multiplications_agree_identity_plus_logarithm :
    let f (x y : ℚ) : Tree ℚ (Builtin ℚ fun _ => .scalar) .scalar .scalar :=
      mkSum (leaf (.identity x)) (leaf (.elementary ⟨.ln, y, ElementaryFunction.ln.jet y⟩))
    let rejected : List (Call ℚ (fun _ => .scalar) .scalar) := [.update (-1 : ℚ)]
    let square := mkSquared .scalars (f 1 1)
    let product := (f 1 1).mkProductSelf
    (∀ c ∈ rejected, c.slot = .argument) ∧
      square.results rejected = [.error (.outOfDomain "ln" "(0, inf)" (-1))] ∧
      product.results rejected = square.results rejected ∧
      ((square.after rejected).call (.update (2 : ℚ))).toExcept = .ok (mkSquared .scalars (f 2 2)) ∧
      ((product.after rejected).call (.update (2 : ℚ))).toExcept = .ok (f 2 2).mkProductSelf ∧
      SameAnswers (f 2 2).mkProductSelf (mkSquared .scalars (f 2 2)) ∧
      (mkSquared .scalars (f 2 2)).d₁ .argument (1 : ℚ) = (6 : ℚ) := by
  intro f rejected square product
  have hslot : ∀ c ∈ rejected, c.slot = .argument := by
    intro c hc
    rw [List.mem_singleton.1 hc]
    rfl
  obtain ⟨-, hsquare, hanswers⟩ := multiplications_agree
  obtain ⟨-, -, hafter⟩ := hsquare (f 1 1)
  obtain ⟨hresults, hnext⟩ := (hafter rejected).2 .argument hslot
  obtain ⟨hcallSquare, hcallProduct⟩ := hnext (.update (2 : ℚ)) rfl
  exact ⟨hslot, rfl, hresults.symm, hcallSquare, hcallProduct, hanswers (f 2 2), by decide +kernel⟩

end Tree

end Directional
