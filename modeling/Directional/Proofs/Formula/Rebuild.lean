import Mathlib.Data.List.Induction
import Mathlib.Logic.Function.Basic
import Directional.Formula.Basic
import Directional.Proofs.Exact.Field
import Directional.Proofs.Tree.Absorption

namespace Directional

/-- The last values told to the slots of a function, where there are any. -/
structure Readings (K : Type) (Γ : Nat → Shape) (a : Shape) where
  argument : Option (Value K a)
  var : (i : Nat) → Option (Value K (Γ i))

namespace Readings

variable {K : Type} {Γ : Nat → Shape} {a : Shape}

/-- Nothing has been told. -/
def unwritten : Readings K Γ a :=
  ⟨none, fun _ => none⟩

/-- The readings after one more call. -/
def note (r : Readings K Γ a) : Call K Γ a → Readings K Γ a
  | .update x => { r with argument := some x }
  | .write i x => { r with var := Function.update r.var i (some x) }

/-- The readings after a sequence of calls. -/
def after (calls : List (Call K Γ a)) : Readings K Γ a :=
  calls.foldl note unwritten

/-- The last call of a sequence is noted last. -/
theorem after_concat (calls : List (Call K Γ a)) (c : Call K Γ a) :
    after (calls ++ [c]) = (after calls).note c := by
  simp [after]

end Readings

namespace Seed

variable {K : Type} {Γ : Nat → Shape} {a s : Shape}

/-- The leaf with its initial value or argument replaced by what its slot was told last. -/
def moved (r : Readings K Γ a) : Seed K Γ a s → Seed K Γ a s
  | constant v => constant v
  | identity x => identity (r.argument.getD x)
  | var i h v => var i h (((r.var i).map (Value.cast h)).getD v)
  | elementary f x => elementary f (r.argument.getD x)
  | trace x => trace (r.argument.getD x)
  | det d x => det d (r.argument.getD x)
  | secondInvariant x => secondInvariant (r.argument.getD x)
  | strain f => strain (r.argument.getD f)
  | squaredNorm x => squaredNorm (r.argument.getD x)

variable [Scalar K]

/-- A leaf that has been built and is then moved is the leaf built at its new argument. -/
private theorem toExcept_update_of_build {r : Readings K Γ a} {l : Seed K Γ a s}
    {b : Builtin K Γ a s} (h : (l.moved r).build = .ok b) (x : Value K a) :
    (b.update x).toExcept = (l.moved (r.note (.update x))).build := by
  cases l with
  | constant | identity | var =>
    cases h
    rfl
  | elementary f y =>
    obtain ⟨e, he, rfl⟩ := map_eq_ok h
    rw [Builtin.update, Outcome.toExcept_map, Outcome.toExcept_ofExcept,
      Elementary.function_of_at? he]
    rfl
  | trace | det | secondInvariant | strain | squaredNorm =>
    obtain ⟨l, -, rfl⟩ := map_eq_ok h
    rw [Builtin.update, Outcome.toExcept_map, Outcome.toExcept_ofExcept]
    rfl

private theorem toExcept_write_of_build {r : Readings K Γ a} {l : Seed K Γ a s}
    {b : Builtin K Γ a s} (h : (l.moved r).build = .ok b) (i : Nat) (x : Value K (Γ i)) :
    (b.write i x).toExcept = (l.moved (r.note (.write i x))).build := by
  cases l with
  | var j shape v =>
    cases h
    by_cases hij : i = j
    · subst hij
      simp [Builtin.write, moved, build, Readings.note]
    · have hji : j ≠ i := Ne.symm hij
      simp [Builtin.write, moved, build, Readings.note, hij, hji]
  | constant | identity =>
    cases h
    rfl
  | elementary | trace | det | secondInvariant | strain | squaredNorm =>
    obtain ⟨l, hl, rfl⟩ := map_eq_ok h
    exact h.symm

/-- A leaf that has been built and then called is the leaf built at its new readings. -/
theorem toExcept_call_of_build {r : Readings K Γ a} {l : Seed K Γ a s} {b : Builtin K Γ a s}
    (h : (l.moved r).build = .ok b) (c : Call K Γ a) :
    (Leaf.call b c).toExcept = (l.moved (r.note c)).build := by
  cases c with
  | update x => exact toExcept_update_of_build h x
  | write i x => exact toExcept_write_of_build h i x

end Seed

namespace Formula

variable {K : Type} {Γ : Nat → Shape} {a s : Shape}

/-- The formula with its leaves at the values that their slots were told last. The outer function
of a composition has no variables and is moved by the composition, so it keeps the leaves it
starts from. -/
def moved : {a s : Shape} → Formula K (Seed K Γ) a s → Readings K Γ a → Formula K (Seed K Γ) a s
  | _, _, leaf l, r => leaf (l.moved r)
  | _, _, scale c f, r => scale c (f.moved r)
  | _, _, squared m f, r => squared m (f.moved r)
  | _, _, sum f g, r => sum (f.moved r) (g.moved r)
  | _, _, product m f g, r => product m (f.moved r) (g.moved r)
  | _, _, extremum e f g, r => extremum e (f.moved r) (g.moved r)
  | _, _, chain f g, r => chain f (g.moved r)

/-- A formula whose slots were told nothing keeps the leaves it starts from. -/
theorem moved_unwritten (f : Formula K (Seed K Γ) a s) : f.moved .unwritten = f := by
  induction f with
  | leaf l => cases l <;> rfl
  | _ => simp only [moved, *]

variable [Scalar K]

/-- A tree that has just been built holds what its operands give. -/
theorem refreshed_of_tree? {f : Formula K (Seed K Γ) a s} {t : Tree K (Builtin K Γ) a s}
    (h : f.tree? = .ok t) : t.refreshed = t := by
  cases f with
  | leaf l =>
    obtain ⟨b, -, hb⟩ := bind_eq_ok h
    cases hb
    rfl
  | scale | squared =>
    obtain ⟨f, -, hf⟩ := bind_eq_ok h
    cases hf
    rfl
  | sum | product | extremum =>
    obtain ⟨f, -, hf⟩ := bind_eq_ok h
    obtain ⟨g, -, hg⟩ := bind_eq_ok hf
    cases hg
    rfl
  | chain =>
    obtain ⟨f, -, hf⟩ := bind_eq_ok h
    obtain ⟨g, -, hg⟩ := bind_eq_ok hf
    unfold Tree.mkChain at hg
    split at hg
    · cases hg
      rfl
    · nomatch hg

/-- The composition moves its outer function like any call, and a rejection of that call is the
only way in which it fails. -/
theorem mkChain_eq_bind {b : Shape} (f : Tree K (Builtin K Γ) b s) (g : Tree K (Builtin K Γ) a b) :
    Tree.mkChain f g = (do return .chain (← (f.call (.update g.value)).toExcept) g) := by
  rw [Tree.mkChain, Tree.call]
  cases f.update g.value <;> rfl

/-- The tree of a leaf is the leaf built. -/
theorem tree?_leaf_eq_ok_iff {l : Seed K Γ a s} {t : Tree K (Builtin K Γ) a s} :
    (leaf l).tree? = .ok t ↔ ∃ b, l.build = .ok b ∧ .leaf b = t := by
  have hleaf : (leaf l).tree? = Tree.leaf <$> l.build := by
    change (do return Tree.leaf (← l.build)) = _
    cases l.build <;> rfl
  rw [hleaf]
  constructor
  · exact map_eq_ok
  · rintro ⟨b, hb, rfl⟩
    rw [hb]
    rfl

/-- The tree of a composition is made of the trees of its functions. -/
theorem tree?_chain {b : Shape} (f : Formula K (Seed K Γ) b s) (g : Formula K (Seed K Γ) a b) :
    (chain f g).tree? = (do Tree.mkChain (← f.tree?) (← g.tree?)) :=
  rfl

/-- A tree that has been built and then called is the tree built at the new readings, or is
rejected as that would be. -/
theorem toExcept_call_of_tree? (f : Formula K (Seed K Γ) a s) {r : Readings K Γ a}
    {t : Tree K (Builtin K Γ) a s} (h : (f.moved r).tree? = .ok t) (c : Call K Γ a) :
    (t.call c).toExcept = (f.moved (r.note c)).tree? := by
  -- A tree that has been built answers a call in the same way whether or not it is first asked if
  -- it depends on the slot, so the induction hypotheses speak of what the nodes ask of operands.
  have operand {a s : Shape} {f : Formula K (Seed K Γ) a s} {r : Readings K Γ a} {c : Call K Γ a}
      {t : Tree K (Builtin K Γ) a s} (h : (f.moved r).tree? = .ok t)
      (ih : (t.call c).toExcept = (f.moved (r.note c)).tree?) :
      (t.call? c).toExcept = (f.moved (r.note c)).tree? := by
    rw [Tree.call?_eq_call (refreshed_of_tree? h), ih]
  induction f with
  | leaf l =>
    obtain ⟨b, hb, ht⟩ := bind_eq_ok h
    cases ht
    rw [Tree.toExcept_call_leaf, Seed.toExcept_call_of_build hb]
    exact map_eq_pure_bind _ _
  | scale k f ih =>
    obtain ⟨f', hf, ht⟩ := bind_eq_ok h
    cases ht
    rw [Tree.toExcept_call_mkScale, operand hf (ih hf c)]
    exact map_eq_pure_bind _ _
  | squared m f ih =>
    obtain ⟨f', hf, ht⟩ := bind_eq_ok h
    cases ht
    rw [Tree.toExcept_call_mkSquared, operand hf (ih hf c)]
    exact map_eq_pure_bind _ _
  | sum f g ihf ihg =>
    obtain ⟨f', hf, ht⟩ := bind_eq_ok h
    obtain ⟨g', hg, ht⟩ := bind_eq_ok ht
    cases ht
    rw [Tree.toExcept_call_mkSum, operand hf (ihf hf c), operand hg (ihg hg c)]
    rfl
  | product m f g ihf ihg =>
    obtain ⟨f', hf, ht⟩ := bind_eq_ok h
    obtain ⟨g', hg, ht⟩ := bind_eq_ok ht
    cases ht
    rw [Tree.toExcept_call_mkProduct, operand hf (ihf hf c), operand hg (ihg hg c)]
    rfl
  | extremum e f g ihf ihg =>
    obtain ⟨f', hf, ht⟩ := bind_eq_ok h
    obtain ⟨g', hg, ht⟩ := bind_eq_ok ht
    cases ht
    rw [Tree.toExcept_call_mkExtremum, operand hf (ihf hf c), operand hg (ihg hg c)]
    rfl
  | chain f g _ ihg =>
    rw [moved, tree?_chain] at h
    obtain ⟨f₀, hf, ht⟩ := bind_eq_ok h
    obtain ⟨g₀, hg, ht⟩ := bind_eq_ok ht
    rw [mkChain_eq_bind] at ht
    obtain ⟨f₁, hf₁, ht⟩ := bind_eq_ok ht
    cases ht
    rw [moved, tree?_chain, hf, Tree.toExcept_call_chain]
    change _ = (g.moved (r.note c)).tree? >>= fun g => Tree.mkChain f₀ g
    split
    case isTrue =>
      -- the outer function has been moved once, which moving it again does not show
      have houter (y : Value K _) :
          (f₁.call (.update y)).toExcept = (f₀.call (.update y)).toExcept := by
        have hmoved := f₀.call_absorbs (c := .update g₀.value) (d := .update y) rfl
        rwa [Outcome.toExcept_eq_ok_iff.1 hf₁] at hmoved
      rw [ihg hg c]
      simp only [houter, mkChain_eq_bind]
    case isFalse hdep =>
      have hkeep : g₀.call? c = .accepted g₀ := Tree.call?_of_not_dependsOn (by simpa using hdep)
      rw [← operand hg (ihg hg c), hkeep]
      change _ = Tree.mkChain f₀ g₀
      rw [mkChain_eq_bind, hf₁]
      rfl

end Formula

namespace Tree

variable {K : Type} [Scalar K] {Γ : Nat → Shape} {L : Shape → Shape → Type} [Leaf K Γ L]
  {a s : Shape}

/-- The tree after a sequence of calls, if all of them are accepted. -/
def run (t : Tree K L a s) (calls : List (Call K Γ a)) : Except (DomainError K) (Tree K L a s) :=
  calls.foldlM (fun t c => (t.call c).toExcept) t

/-- The last call of a run is made to what the others have left. -/
theorem run_concat (t : Tree K L a s) (calls : List (Call K Γ a)) (c : Call K Γ a) :
    t.run (calls ++ [c]) = t.run calls >>= fun t => (t.call c).toExcept := by
  simp [run]

end Tree

namespace Formula

variable {K : Type} [Scalar K] {Γ : Nat → Shape} {a s : Shape}

/-- After a run of accepted calls a tree is what its formula builds at the last readings. -/
theorem tree?_moved_of_run {f : Formula K (Seed K Γ) a s} {t₀ t : Tree K (Builtin K Γ) a s}
    {calls : List (Call K Γ a)} (built : f.tree? = .ok t₀) (accepted : t₀.run calls = .ok t) :
    (f.moved (.after calls)).tree? = .ok t := by
  induction calls using List.reverseRecOn generalizing t with
  | nil =>
    cases accepted
    change (f.moved .unwritten).tree? = _
    rw [moved_unwritten, built]
  | append_singleton calls c ih =>
    rw [Tree.run_concat] at accepted
    obtain ⟨t', hrun, hcall⟩ := bind_eq_ok accepted
    rw [Readings.after_concat, ← f.toExcept_call_of_tree? (ih hrun) c, hcall]

/-- A tree that has accepted a sequence of updates and writes, in whatever order and mixture, is
in every value it keeps the tree that is built from scratch with each leaf at the last value that
its slot was told, or at its initial value if it was told none. A further call has the outcome of
that construction with the new value: both are rejected with the same error, or both give the same
tree. So two accepted sequences that end in the same readings leave the same tree behind. -/
theorem run_eq_rebuild {f : Formula K (Seed K Γ) a s} {t₀ t : Tree K (Builtin K Γ) a s}
    {calls : List (Call K Γ a)} (built : f.tree? = .ok t₀) (accepted : t₀.run calls = .ok t) :
    (f.moved (.after calls)).tree? = .ok t ∧
      (∀ c, (t.call c).toExcept = (f.moved (.after (calls ++ [c]))).tree?) ∧
      ∀ calls' t', t₀.run calls' = .ok t' → Readings.after calls' = Readings.after calls →
        t' = t := by
  have hrebuild := tree?_moved_of_run built accepted
  refine ⟨hrebuild, ?_, ?_⟩
  · intro c
    rw [Readings.after_concat, f.toExcept_call_of_tree? hrebuild c]
  · intro calls' t' accepted' hreadings
    have hrebuild' := tree?_moved_of_run built accepted'
    rw [hreadings, hrebuild] at hrebuild'
    exact (Except.ok.inj hrebuild').symm

/-- The function `c * x + ln x` of the argument `x` and the variable `c`, which are told other
values before they are told the last ones. -/
theorem run_eq_rebuild_line_and_logarithm :
    let f : Formula ℚ (Seed ℚ fun _ => .scalar) .scalar .scalar :=
      .sum (.product .scalars (.leaf (.var 0 rfl 1)) (.leaf (.identity 1)))
        (.chain (.leaf (.elementary .ln 1)) (.leaf (.identity 1)))
    let t (c x : ℚ) : Tree ℚ (Builtin ℚ fun _ => .scalar) .scalar .scalar :=
      .mkSum (.mkProduct .scalars (.leaf (.var 0 rfl c)) (.leaf (.identity x)))
        (.chain (.leaf (.elementary ⟨.ln, x, ElementaryFunction.ln.jet x⟩)) (.leaf (.identity x)))
    let calls : List (Call ℚ (fun _ => .scalar) .scalar) :=
      [.write 0 2, .update 3, .write 0 1, .update 2]
    f.tree? = .ok (t 1 1) ∧ (t 1 1).run calls = .ok (t 1 2) ∧
      (f.moved (.after calls)).tree? = .ok (t 1 2) ∧
      (∀ c, ((t 1 2).call c).toExcept = (f.moved (.after (calls ++ [c]))).tree?) ∧
      ∀ calls' t', (t 1 1).run calls' = .ok t' → Readings.after calls' = Readings.after calls →
        t' = t 1 2 :=
  ⟨rfl, rfl, run_eq_rebuild rfl rfl⟩

end Formula

end Directional
