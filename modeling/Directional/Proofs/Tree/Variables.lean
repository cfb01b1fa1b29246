import Mathlib.Data.Finset.Card
import Directional.Proofs.Tree.Consistency

namespace Directional

namespace SlotSet

variable {s : SlotSet} {i : Nat}

/-- A set has no variables with numbers from sixty-four on. -/
theorem lt_of_contains (h : s.contains i = true) : i < 64 :=
  BitVec.lt_of_getLsbD h

/-- The list of a set has its variables. -/
theorem mem_toList : i ∈ s.toList ↔ s.contains i = true := by
  rw [toList, List.mem_filter, List.mem_range]
  exact and_iff_right_of_imp lt_of_contains

theorem nodup_toList (s : SlotSet) : s.toList.Nodup :=
  List.nodup_range.filter _

/-- The ones among the lowest bits of a word are the bits that are set. -/
private theorem cpopNatRec_eq_length (x : BitVec 64) (n : Nat) :
    x.cpopNatRec n 0 = ((List.range n).filter x.getLsbD).length := by
  induction n with
  | zero => rfl
  | succ n ih =>
    rw [BitVec.cpopNatRec_succ, BitVec.cpopNatRec_add, ih, List.range_succ, List.filter_append,
      List.length_append]
    cases h : x.getLsbD n <;> simp [h]

/-- A set has as many variables as its word has ones. -/
theorem size_eq_cpop (s : SlotSet) : s.size = s.bits.cpop.toNat := by
  rw [BitVec.toNat_cpop, cpopNatRec_eq_length]
  rfl

/-- A set has as many variables as there are different numbers on a list of its variables. -/
theorem size_eq_card {numbers : List Nat} (h : ∀ i, s.contains i = true ↔ i ∈ numbers) :
    s.size = numbers.toFinset.card := by
  have hsame : s.toList.toFinset = numbers.toFinset := by
    ext i
    rw [List.mem_toFinset, List.mem_toFinset, mem_toList, h]
  rw [← hsame, List.toFinset_card_of_nodup s.nodup_toList, size]

/-- A set has a variable if its word is not zero. -/
theorem hasAny_iff : s.hasAny = true ↔ ∃ i, s.contains i = true := by
  constructor
  · intro hany
    by_contra hnone
    have hbits : s.bits = 0 := by
      apply BitVec.eq_of_getLsbD_eq
      intro i _
      have hi : ¬s.contains i = true := fun hi => hnone ⟨i, hi⟩
      simpa [contains] using hi
    simp [hasAny, hbits] at hany
  · rintro ⟨i, hi⟩
    have hbits : s.bits ≠ 0 := by
      intro hzero
      simp [contains, hzero] at hi
    simpa [hasAny] using hbits

end SlotSet

variable {K : Type} {Γ : Nat → Shape} {a s : Shape}

/-- The number of a variable, if a leaf is one. -/
def Builtin.var? : Builtin K Γ a s → Option Nat
  | var i _ _ => some i
  | _ => none

/-- A leaf depends on the variable that it is. -/
theorem Builtin.reactsTo_iff {l : Builtin K Γ a s} {i : Nat} :
    l.reactsTo i = true ↔ i ∈ l.var? := by
  cases l with
  | var j shape v =>
    simp only [reactsTo, var?, beq_iff_eq, Option.mem_some_iff]
    exact eq_comm
  | _ => simp [reactsTo, var?]

/-- A word of sixty-four bits has room for the variables with the numbers below. -/
theorem Builtin.contains_slots_iff {l : Builtin K Γ a s} (small : ∀ i ∈ l.var?, i < 64)
    {i : Nat} : l.slots.contains i = true ↔ i ∈ l.var? := by
  cases l with
  | var j shape v =>
    have hj : j < 64 := small j rfl
    simp only [slots, var?, SlotSet.contains_single, Bool.and_eq_true, decide_eq_true_eq,
      beq_iff_eq, Option.mem_some_iff]
    constructor
    · exact And.right
    · rintro rfl
      exact ⟨hj, rfl⟩
  | _ => simp [slots, var?]

/-- A leaf has first derivatives in what it depends on. -/
theorem Builtin.has₁_iff {l : Builtin K Γ a s} :
    (l.has₁ .argument = true ↔ l.reacts = true) ∧
      ∀ i, l.has₁ (.var i) = true ↔ i ∈ l.var? := by
  constructor
  · rfl
  · intro i
    exact l.reactsTo_iff

namespace Tree

/-- The numbers of the variables at the leaves from left to right, as often as they occur, those of
outer functions of compositions included. -/
def vars : {a s : Shape} → Tree K (Builtin K Γ) a s → List Nat
  | _, _, leaf l => l.var?.toList
  | _, _, scale _ f _ => f.vars
  | _, _, squared _ f _ => f.vars
  | _, _, sum f g _ => f.vars ++ g.vars
  | _, _, product _ f g _ => f.vars ++ g.vars
  | _, _, extremum _ f g _ _ => f.vars ++ g.vars
  | _, _, chain f g => f.vars ++ g.vars

/-- The outer functions of compositions have no variables. -/
def OuterVarFree : {a s : Shape} → Tree K (Builtin K Γ) a s → Prop
  | _, _, leaf _ => True
  | _, _, scale _ f _ => f.OuterVarFree
  | _, _, squared _ f _ => f.OuterVarFree
  | _, _, sum f g _ => f.OuterVarFree ∧ g.OuterVarFree
  | _, _, product _ f g _ => f.OuterVarFree ∧ g.OuterVarFree
  | _, _, extremum _ f g _ _ => f.OuterVarFree ∧ g.OuterVarFree
  | _, _, chain f g => f.vars = [] ∧ g.OuterVarFree

/-- What a tree may speak of: the variables at its leaves, and the argument if it depends on it. -/
def Mentions [Scalar K] (f : Tree K (Builtin K Γ) a s) : Slot → Prop
  | .argument => f.reacts = true
  | .var i => i ∈ f.vars

variable [Scalar K] {f : Tree K (Builtin K Γ) a s} {i : Nat}

/-- A tree depends on no variable that is not at its leaves. -/
theorem mem_vars_of_reactsTo (h : f.reactsTo i = true) : i ∈ f.vars := by
  induction f with
  | leaf l =>
    have hl := l.reactsTo_iff.1 h
    exact Option.mem_toList.2 hl
  | scale _ _ _ ih | squared _ _ _ ih => exact ih h
  | sum _ _ _ ihf ihg | product _ _ _ _ ihf ihg | extremum _ _ _ _ _ ihf ihg =>
    rw [reactsTo, Bool.or_eq_true] at h
    exact List.mem_append.2 (h.imp ihf ihg)
  | chain _ _ _ ihg => exact List.mem_append_right _ (ihg h)

/-- A call comes to every variable, since there are none where it does not go. -/
theorem reactsTo_iff_mem_vars (free : f.OuterVarFree) : f.reactsTo i = true ↔ i ∈ f.vars := by
  refine ⟨mem_vars_of_reactsTo, ?_⟩
  intro h
  induction f with
  | leaf l => exact l.reactsTo_iff.2 (Option.mem_toList.1 h)
  | scale _ _ _ ih | squared _ _ _ ih => exact ih free h
  | sum _ _ _ ihf ihg | product _ _ _ _ ihf ihg | extremum _ _ _ _ _ ihf ihg =>
    rw [reactsTo, Bool.or_eq_true]
    exact (List.mem_append.1 h).imp (ihf free.1) (ihg free.2)
  | chain _ _ _ ihg =>
    rw [vars, free.1, List.nil_append] at h
    exact ihg free.2 h

/-- A bit of the word of the slots is set if the variable occurs at a leaf. -/
theorem contains_slots_iff_mem_vars (free : f.OuterVarFree) (small : ∀ i ∈ f.vars, i < 64) :
    f.slots.contains i = true ↔ i ∈ f.vars := by
  induction f with
  | leaf l =>
    have hsmall : ∀ j ∈ l.var?, j < 64 := fun j hj => small j (Option.mem_toList.2 hj)
    rw [vars, Option.mem_toList]
    exact Builtin.contains_slots_iff hsmall
  | scale _ _ _ ih | squared _ _ _ ih => exact ih free small
  | sum f g _ ihf ihg | product _ f g _ ihf ihg | extremum _ f g _ _ ihf ihg =>
    have hf := ihf free.1 fun j hj => small j (List.mem_append_left _ hj)
    have hg := ihg free.2 fun j hj => small j (List.mem_append_right _ hj)
    rw [slots, SlotSet.contains_union, Bool.or_eq_true, hf, hg, vars, List.mem_append]
  | chain f g _ ihg =>
    rw [vars, free.1, List.nil_append] at small ⊢
    exact ihg free.2 small

/-- A first derivative is declared in slots that the tree speaks of. -/
theorem mentions_of_has₁ {X : Slot} (h : f.has₁ X = true) : f.Mentions X := by
  induction f generalizing X with
  | leaf l =>
    cases X with
    | argument => exact Builtin.has₁_iff.1.1 h
    | var j => exact Option.mem_toList.2 ((Builtin.has₁_iff.2 j).1 h)
  | scale _ f _ ih | squared _ f _ ih =>
    have hf : f.Mentions X := ih h
    cases X with
    | argument => exact hf
    | var j => exact hf
  | sum f g _ ihf ihg | product _ f g _ ihf ihg | extremum _ f g _ _ ihf ihg =>
    have hoperands : f.Mentions X ∨ g.Mentions X := (Bool.or_eq_true_iff.1 h).imp ihf ihg
    cases X with
    | argument => exact Bool.or_eq_true_iff.2 hoperands
    | var j => exact List.mem_append.2 hoperands
  | chain f g _ ihg =>
    rw [has₁, Bool.and_eq_true] at h
    have hg : g.Mentions X := ihg h.2
    cases X with
    | argument => exact hg
    | var j => exact List.mem_append_right _ hg

/-- Derivatives of higher order come with the first ones in all of their slots. -/
theorem mentions_of_has₂ {X Y : Slot} (h : f.has₂ X Y = true) : f.Mentions X ∧ f.Mentions Y := by
  obtain ⟨hX, hY⟩ := f.consistent.second h
  exact ⟨mentions_of_has₁ hX, mentions_of_has₁ hY⟩

/-- Nor is a third derivative declared in any other slots. -/
theorem mentions_of_has₃ {X Y Z : Slot} (h : f.has₃ X Y Z = true) :
    f.Mentions X ∧ f.Mentions Y ∧ f.Mentions Z := by
  obtain ⟨hXY, hXZ, -⟩ := f.consistent.has₂_of_has₃ f.symmetric h
  obtain ⟨hX, hY⟩ := mentions_of_has₂ hXY
  obtain ⟨-, hZ⟩ := mentions_of_has₂ hXZ
  exact ⟨hX, hY, hZ⟩

/-- The word of the slots of a tree is exact, and no declaration goes beyond it. A bit is set if and
only if the variable occurs, and the tree is asked for a variable by any number, also one that has
no bit or stands for the argument. As many bits are set as different variables occur, however often
each of them does. The tree depends on just these variables, and a derivative is declared only in
slots that are among them, or in the argument if the tree depends on it. -/
theorem slots_and_members_follow_vars {a s : Shape} (f : Tree K (Builtin K Γ) a s)
    (free : f.OuterVarFree) (small : ∀ i ∈ f.vars, i < 64) :
    (∀ i, f.slots.bits.getLsbD i = true ↔ i ∈ f.vars) ∧
    (∀ n, f.slots.containsSlot (.ofNumber n) = true ↔ n ∈ f.vars) ∧
    f.slots.bits.cpop.toNat = f.vars.toFinset.card ∧
    f.slots.size = f.vars.toFinset.card ∧
    (f.slots.hasAny = true ↔ f.vars ≠ []) ∧
    (f.slots.hasMany = true ↔ 1 < f.vars.toFinset.card) ∧
    (∀ i, f.reactsTo i = true ↔ i ∈ f.vars) ∧
    (∀ X, f.has₁ X = true → f.Mentions X) ∧
    (∀ X Y, f.has₂ X Y = true → f.Mentions X ∧ f.Mentions Y) ∧
    ∀ X Y Z, f.has₃ X Y Z = true → f.Mentions X ∧ f.Mentions Y ∧ f.Mentions Z := by
  have hbits (i : Nat) : f.slots.contains i = true ↔ i ∈ f.vars :=
    contains_slots_iff_mem_vars free small
  have hnumbers (n : Nat) : f.slots.containsSlot (.ofNumber n) = true ↔ n ∈ f.vars := by
    by_cases hn : n = Slot.argumentNumber
    · subst hn
      -- The number of the argument has no bit, and is too large for a variable.
      have hlarge : Slot.argumentNumber ∉ f.vars := by
        intro hmem
        exact absurd (small _ hmem) (by decide)
      rw [Slot.ofNumber_argumentNumber]
      exact iff_of_false Bool.false_ne_true hlarge
    · rw [Slot.ofNumber_of_ne hn]
      exact hbits n
  have hsize : f.slots.size = f.vars.toFinset.card := SlotSet.size_eq_card hbits
  have hones : f.slots.bits.cpop.toNat = f.vars.toFinset.card := by
    rw [← SlotSet.size_eq_cpop, hsize]
  have hany : f.slots.hasAny = true ↔ f.vars ≠ [] := by
    simp only [SlotSet.hasAny_iff, hbits]
    constructor
    · rintro ⟨i, hi⟩
      exact List.ne_nil_of_mem hi
    · exact List.exists_mem_of_ne_nil _
  have hmany : f.slots.hasMany = true ↔ 1 < f.vars.toFinset.card := by
    rw [SlotSet.hasMany, decide_eq_true_iff, hsize]
  have hreacts (i : Nat) : f.reactsTo i = true ↔ i ∈ f.vars := reactsTo_iff_mem_vars free
  exact ⟨hbits, hnumbers, hones, hsize, hany, hmany, hreacts, fun _ => mentions_of_has₁,
    fun _ _ => mentions_of_has₂, fun _ _ _ => mentions_of_has₃⟩

/-- The variable with the number three times the logarithm of its sum with the variable with the
largest number: two variables at three leaves, and no argument. -/
theorem slots_and_members_follow_vars_product_with_logarithm :
    let x (i : Nat) (v : ℚ) : Tree ℚ (Builtin ℚ fun _ => .scalar) .scalar .scalar :=
      .leaf (.var i rfl v)
    let logarithm : Tree ℚ (Builtin ℚ fun _ => .scalar) .scalar .scalar :=
      .leaf (.elementary ⟨.ln, 3, ElementaryFunction.ln.jet 3⟩)
    let f : Tree ℚ (Builtin ℚ fun _ => .scalar) .scalar .scalar :=
      .product .scalars (x 3 1) (.chain logarithm (.sum (x 3 1) (x 63 2) 3)) 0
    f.OuterVarFree ∧ (∀ i ∈ f.vars, i < 64) ∧
      (∀ n, f.slots.containsSlot (.ofNumber n) = true ↔ n ∈ [3, 3, 63]) ∧
      f.slots.size = 2 ∧
      f.has₃ (.var 3) (.var 63) (.var 63) = true ∧
      f.Mentions (.var 3) ∧ f.Mentions (.var 63) ∧ f.has₁ .argument = false := by
  intro x logarithm f
  have free : f.OuterVarFree := ⟨trivial, rfl, trivial, trivial⟩
  have small : ∀ i ∈ f.vars, i < 64 := by
    change ∀ i ∈ [3, 3, 63], i < 64
    decide
  obtain ⟨-, hnumbers, -, hsize, -, -, -, -, -, hthird⟩ :=
    f.slots_and_members_follow_vars free small
  have hhas : f.has₃ (.var 3) (.var 63) (.var 63) = true := rfl
  obtain ⟨h3, h63, -⟩ := hthird _ _ _ hhas
  exact ⟨free, small, hnumbers, hsize, hhas, h3, h63, rfl⟩

end Tree

end Directional
