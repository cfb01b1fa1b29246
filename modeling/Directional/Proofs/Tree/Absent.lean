import Mathlib.Data.List.Induction
import Mathlib.Tactic.NormNum
import Directional.Formula.Operators
import Directional.Proofs.Formula.Recovery
import Directional.Proofs.Tree.Regrouping
import Directional.Tree.Root

namespace Directional

namespace Tree

variable {K : Type} {Γ : Nat → Shape} {L : Shape → Shape → Type} [Leaf K Γ L] {a s t u : Shape}

/-- Two trees that differ at most in what their roots hold of the same operands. -/
inductive UpToRoot : {a s : Shape} → Tree K L a s → Tree K L a s → Prop where
  | refl {a s : Shape} (f : Tree K L a s) : UpToRoot f f
  | scale {a s : Shape} (k : K) (f : Tree K L a s) (v v' : Value K s) :
      UpToRoot (scale k f v) (scale k f v')
  | squared {a s : Shape} (m : Pairing s s s) (f : Tree K L a s) (v v' : Value K s) :
      UpToRoot (squared m f v) (squared m f v')
  | sum {a s : Shape} (f g : Tree K L a s) (v v' : Value K s) : UpToRoot (sum f g v) (sum f g v')
  | product {a s t u : Shape} (m : Pairing s t u) (f : Tree K L a s) (g : Tree K L a t)
      (v v' : Value K u) : UpToRoot (product m f g v) (product m f g v')
  | extremum {a s : Shape} (e : Extremum) (f g : Tree K L a s) (v v' : Value K s)
      (firstActive firstActive' : Bool) :
      UpToRoot (extremum e f g v firstActive) (extremum e f g v' firstActive')

variable [Scalar K]

/-- No derivative reads what the root holds, but for the choice of a minimum or maximum. -/
theorem UpToRoot.sameAnswers {f f' : Tree K L a s} (h : UpToRoot f f')
    (hactive : f'.firstActive? = f.firstActive?) : SameAnswers f f' := by
  cases h with
  | extremum e f g v v' firstActive firstActive' =>
    cases Option.some.inj hactive
    constructor <;> intros <;> rfl
  | _ => constructor <;> intros <;> rfl

/-- What the root holds does not show below it. -/
theorem upToRoot_refreshed (f : Tree K L a s) : UpToRoot f f.refreshed := by
  cases f with
  | leaf | chain => exact .refl _
  | scale k f v => exact .scale k f v _
  | squared m f v => exact .squared m f v _
  | sum f g v => exact .sum f g v _
  | product m f g v => exact .product m f g v _
  | extremum e f g v firstActive => exact .extremum e f g v _ firstActive _

/-- What a call does to two trees that differ at most in what their roots hold: it has the same
result, and leaves trees of this kind behind, which are the same if it has come to their roots and
was accepted. -/
structure SameButRoot (o o' : Outcome (DomainError K) (Tree K L a s)) (visited : Prop) : Prop where
  result : o'.result = o.result
  state : UpToRoot o.state o'.state
  toExcept : visited → o'.toExcept = o.toExcept

section Step

variable {W : Type} {f : Tree K L a s} {g : Tree K L a t} {v x : W} {c : Call K Γ a}

/-- A node `n` over one operand that holds `w` of it. -/
private theorem sameButRoot_of_complete {n : Tree K L a s → W → Tree K L a u}
    (w : Tree K L a s → W) (hroot : ∀ f v x, UpToRoot (n f v) (n f x))
    (hcall : ∀ v, (n f v).call c =
      if (n f v).skips c.slot then .accepted (n f v)
      else (f.call? c).complete (fun f => n f (w f)) (n · v))
    (hskip : (n f x).skips c.slot = (n f v).skips c.slot) :
    SameButRoot ((n f v).call c) ((n f x).call c) ((n f v).skips c.slot = false) := by
  rw [hcall v, hcall x, hskip]
  split
  case isTrue h => exact ⟨rfl, hroot f v x, fun hvisit => nomatch h.symm.trans hvisit⟩
  case isFalse =>
    cases f.call? c with
    | accepted f' => exact ⟨rfl, .refl _, fun _ => rfl⟩
    | rejected e f' => exact ⟨rfl, hroot f' v x, fun _ => rfl⟩

/-- A node `n` over two operands that holds `w` of them. -/
private theorem sameButRoot_of_both {n : Tree K L a s → Tree K L a t → W → Tree K L a u}
    (w : Tree K L a s → Tree K L a t → W) (hroot : ∀ f g v x, UpToRoot (n f g v) (n f g x))
    (hcall : ∀ v, (n f g v).call c =
      if (n f g v).skips c.slot then .accepted (n f g v)
      else .both (fun f g => n f g (w f g)) (n · · v) (f.call? c) g (g.call? c))
    (hskip : (n f g x).skips c.slot = (n f g v).skips c.slot) :
    SameButRoot ((n f g v).call c) ((n f g x).call c) ((n f g v).skips c.slot = false) := by
  rw [hcall v, hcall x, hskip]
  split
  case isTrue h => exact ⟨rfl, hroot f g v x, fun hvisit => nomatch h.symm.trans hvisit⟩
  case isFalse =>
    cases f.call? c with
    | rejected e f' => exact ⟨rfl, hroot f' g v x, fun _ => rfl⟩
    | accepted f' =>
      cases g.call? c with
      | accepted g' => exact ⟨rfl, .refl _, fun _ => rfl⟩
      | rejected e g' => exact ⟨rfl, hroot f' g' v x, fun _ => rfl⟩

end Step

/-- No call reads what the root holds. -/
theorem UpToRoot.call {f f' : Tree K L a s} (h : UpToRoot f f') (c : Call K Γ a) :
    SameButRoot (f.call c) (f'.call c) (f.skips c.slot = false) := by
  cases h with
  | refl => exact ⟨rfl, .refl _, fun _ => rfl⟩
  | scale k f v v' =>
    exact sameButRoot_of_complete (fun f => f.value.scale k) (.scale k) (call_scale k f · c)
      (by cases c <;> rfl)
  | squared m f v v' =>
    exact sameButRoot_of_complete (fun f => m.apply f.value f.value) (.squared m)
      (call_squared m f · c) (by cases c <;> rfl)
  | sum f g v v' =>
    exact sameButRoot_of_both (fun f g => f.value.add g.value) .sum (call_sum f g · c)
      (by cases c <;> rfl)
  | product m f g v v' =>
    exact sameButRoot_of_both (fun f g => m.apply f.value g.value) (.product m)
      (call_product m f g · c) (by cases c <;> rfl)
  | extremum e f g v v' firstActive firstActive' =>
    exact sameButRoot_of_both (n := fun f g (w : Value K s × Bool) => Tree.extremum e f g w.1 w.2)
      (v := (v, firstActive)) (x := (v', firstActive'))
      (fun f g => (if e.prefersFirst f.value g.value then f.value else g.value,
        e.prefersFirst f.value g.value))
      (fun f g v v' => .extremum e f g v.1 v'.1 v.2 v'.2) (fun v => call_extremum e f g v.1 v.2 c)
      (by cases c <;> rfl)

/-- So no sequence of calls shows what the root held at its beginning. -/
theorem UpToRoot.results_eq {f f' : Tree K L a s} (h : UpToRoot f f') (calls : List (Call K Γ a)) :
    f'.results calls = f.results calls := by
  have hstep (f f' : Tree K L a s) (c : Call K Γ a) (h : UpToRoot f f') :
      (f.call c).result = (f'.call c).result ∧ UpToRoot (f.call c).state (f'.call c).state :=
    ⟨(h.call c).result.symm, (h.call c).state⟩
  exact (simulation_same hstep h calls).1.symm

section LastOwn

variable {f : Tree K L a s} {calls : List (Call K Γ a)} {c : Call K Γ a}

/-- What the last call of a slot that the tree depends on has returned, if there was one. -/
def lastOwnResult (f : Tree K L a s) (calls : List (Call K Γ a)) :
    Option (Except (DomainError K) Unit) :=
  (((calls.map Call.slot).zip (f.results calls)).reverse.find? fun p => f.dependsOn p.1).map Prod.snd

/-- A further call is the last one if the tree depends on its slot. -/
theorem lastOwnResult_concat :
    f.lastOwnResult (calls ++ [c]) =
      if f.dependsOn c.slot then some ((f.after calls).call c).result
      else f.lastOwnResult calls := by
  have hzip : (List.map Call.slot calls ++ [c.slot]).zip (f.results (calls ++ [c])) =
      (calls.map Call.slot).zip (f.results calls) ++
        [(c.slot, ((f.after calls).call c).result)] := by
    rw [results_concat, List.zip_append (by simp)]
    rfl
  rw [lastOwnResult, List.map_append, List.map_singleton, hzip, List.reverse_append,
    List.reverse_singleton, List.singleton_append, List.find?_cons, lastOwnResult]
  cases f.dependsOn c.slot <;> rfl

variable [LawfulLeaf L]

/-- A root is not stale if the last call that came to it was accepted. -/
theorem refreshed_after (hfresh : f.refreshed = f) (calls : List (Call K Γ a))
    (h : ∀ e, f.lastOwnResult calls ≠ some (.error e)) :
    (f.after calls).refreshed = f.after calls := by
  induction calls using List.reverseRecOn with
  | nil => exact hfresh
  | append_singleton calls c ih =>
    rw [lastOwnResult_concat] at h
    rw [after_concat]
    have hafter := (alike_after f calls).dependsOn_eq c.slot
    cases hdep : f.dependsOn c.slot with
    | false =>
      rw [hdep] at h
      have hbefore := ih h
      rw [call_of_not_dependsOn (hafter.trans hdep) hbefore]
      exact hbefore
    | true =>
      rw [hdep, if_pos rfl] at h
      cases hcall : (f.after calls).call c with
      | accepted f' => exact refreshed_of_visited (hafter.trans hdep) hcall
      | rejected e f' =>
        rw [hcall] at h
        exact absurd rfl (h e)

end LastOwn

/-- Calls of slots that a tree does not depend on, made directly. Let the root of a tree have just
been put together, and let the tree then have had any calls, accepted and rejected ones. Writing a
variable that it does not depend on leaves it as it is. Moving the argument, if it does not depend
on that, is accepted and leaves all of it as it is but for what the root holds of its operands: no
later call returns anything else, the next call that comes to the root leaves the same tree if it is
accepted, and the derivatives are the same unless the root is a minimum or maximum that changes its
choice. The root is as it was, too, if the last call of a slot that the tree depends on was
accepted, or if there was none. An update of this kind comes to no operand. It makes a difference
only where the last call that came to the root was rejected, for then the root may hold what its
operands no longer give. -/
theorem absent_calls_leave_all_but_root {t₀ : Tree K (Builtin K Γ) a s}
    (fresh : t₀.refreshed = t₀) (calls : List (Call K Γ a)) :
    let t := t₀.after calls
    (∀ i x, t.reactsTo i = false → t.write i x = .accepted t ∧ t.write? i x = .accepted t) ∧
      (t.reacts = false → ∀ x,
        t.update? x = .accepted t ∧ t.update x = .accepted t.refreshed ∧
          (∀ later, t.refreshed.results later = t.results later) ∧
          (∀ c, t.dependsOn c.slot = true →
            (t.refreshed.call c).toExcept = (t.call c).toExcept) ∧
          (t.refreshed.firstActive? = t.firstActive? → SameAnswers t t.refreshed) ∧
          ((∀ e, t₀.lastOwnResult calls ≠ some (.error e)) →
            t.update x = .accepted t ∧ t.eval x = (.ok t.value, t))) := by
  intro t
  constructor
  · intro i x h
    have hwrite : t.call (.write i x) = .accepted t :=
      call_of_skips (by simp [skips, Call.slot, h])
    exact ⟨hwrite, call?_of_not_dependsOn (c := .write i x) h⟩
  · intro h x
    have hupdate : t.update x = .accepted t.refreshed := call_update_of_not_reacts h x
    have hroot := t.upToRoot_refreshed
    refine ⟨call?_of_not_dependsOn (c := .update x) h, hupdate, hroot.results_eq, ?_,
      hroot.sameAnswers, ?_⟩
    · intro c hdep
      exact (hroot.call c).toExcept (visits_of_dependsOn hdep)
    · intro haccepted
      have hfresh : t.refreshed = t := refreshed_after fresh calls haccepted
      rw [hfresh] at hupdate
      exact ⟨hupdate, by rw [eval, hupdate]⟩

/-- The sum of a variable and the logarithm of another one, which rejects a write. The write of the
first variable that follows is accepted and comes to the root, so moving the argument afterwards
changes nothing, and neither does writing a third variable. -/
theorem absent_calls_leave_all_but_root_sum_with_logarithm :
    let t₀ : Tree ℚ (Builtin ℚ fun _ => .scalar) .scalar .scalar :=
      .mkSum (.leaf (.var 0 rfl 0))
        (.chain (.leaf (.elementary ⟨.ln, 1, ElementaryFunction.ln.jet 1⟩)) (.leaf (.var 1 rfl 1)))
    let calls : List (Call ℚ (fun _ => .scalar) .scalar) := [.write 1 (-1), .write 0 5]
    let t := t₀.after calls
    t₀.refreshed = t₀ ∧
      t₀.results calls = [.error (.outOfDomain "ln" "(0, inf)" (-1)), .ok ()] ∧
      t.reactsTo 2 = false ∧ t.write 2 (4 : ℚ) = .accepted t ∧
      t.reacts = false ∧ t.update (3 : ℚ) = .accepted t ∧ t.eval (3 : ℚ) = (.ok t.value, t) := by
  intro t₀ calls t
  have fresh : t₀.refreshed = t₀ := rfl
  have hresults : t₀.results calls = [.error (.outOfDomain "ln" "(0, inf)" (-1)), .ok ()] := rfl
  have hlast : t₀.lastOwnResult calls = some (.ok ()) := by
    rw [lastOwnResult, hresults]
    rfl
  have haccepted (e : DomainError ℚ) : t₀.lastOwnResult calls ≠ some (.error e) := by
    rw [hlast]
    nofun
  obtain ⟨hwrite, hupdate⟩ := absent_calls_leave_all_but_root fresh calls
  obtain ⟨-, -, -, -, -, hkeep⟩ := hupdate rfl (3 : ℚ)
  exact ⟨fresh, hresults, rfl, (hwrite 2 (4 : ℚ) rfl).1, rfl, hkeep haccepted⟩

/-- Double precision with an exponential function that is right at zero. -/
abbrev exponentialAtZero : Scalar Float :=
  { (inferInstance : Scalar Float) with exp := fun _ => 1 }

/-- Moving the argument of a tree that does not depend on it shows what a rejected write has left
behind. In `x + x - exp x` the write of infinity comes to both operands of `x + x` and is rejected
by the exponential function, which stands at zero, so the difference keeps its value. The update is
accepted, and the value is another one after it. -/
theorem absent_update_shows_rejected_write :
    letI : Scalar Float := exponentialAtZero
    let x : Formula Float (Seed Float fun _ => .scalar) .scalar .scalar := .seed (.var 0 rfl 0)
    let formula : Formula Float (Seed Float fun _ => .scalar) .scalar .scalar :=
      x + x - .chain (.seed (.elementary .exp 0)) x
    let infinity : Float := 1 / 0
    ∃ t₀, formula.tree? = .ok t₀ ∧
      let t := t₀.after [.write 0 infinity]
      t₀.results [.write 0 infinity] = [.error (.nonFinite "exp" infinity)] ∧
      t.reacts = false ∧ t.update (3 : Float) = .accepted t.refreshed ∧
      t.value = (-1 : Float) ∧ t.refreshed.value = infinity := by
  let _ : Scalar Float := exponentialAtZero
  intro x formula infinity
  refine ⟨_, rfl, ?_⟩
  intro t
  have hreacts : t.reacts = false := by decide +kernel
  refine ⟨?_, hreacts, call_update_of_not_reacts hreacts _, ?_, ?_⟩ <;> decide +kernel

end Tree

end Directional
