import Directional.Proofs.Exact.Field
import Directional.Proofs.Tree.Absorption
import Directional.Tree.Batch

namespace Directional.Batch

section Run

variable {σ α β ε : Type}

/-- What is answered at a point does not depend on the points before it. -/
def Traceless (eval : σ → α → Except ε β × σ) : Prop :=
  ∀ state x y, (eval (eval state x).2 y).1 = (eval state y).1

/-- A result for many points that is made up of the answers at each of them: all answers in the
order of the points, or the error of one of the points. -/
def Gathered (answer : α → Except ε β) (points : List α) : Except ε (List β) → Prop
  | .ok ys => points.map answer = ys.map .ok
  | .error e => ∃ x ∈ points, answer x = .error e

/-- One more point in front adds its answer. -/
theorem Gathered.cons {answer : α → Except ε β} {x : α} {y : β} {xs : List α}
    {result : Except ε (List β)} (hx : answer x = .ok y) (h : Gathered answer xs result) :
    Gathered answer (x :: xs) ((y :: ·) <$> result) := by
  cases result with
  | error e =>
    obtain ⟨z, hz, he⟩ := h
    exact ⟨z, List.mem_cons_of_mem x hz, he⟩
  | ok ys =>
    change (x :: xs).map answer = (y :: ys).map .ok
    rw [List.map_cons, List.map_cons, hx, h]

/-- A chunk is evaluated as if each of its points came first. -/
theorem gathered_evalChunk {eval : σ → α → Except ε β × σ} (h : Traceless eval) (state : σ)
    (points : List α) :
    Gathered (fun x => (eval state x).1) points (evalChunk eval state points) := by
  induction points generalizing state with
  | nil => exact rfl
  | cons x xs ih =>
    cases hx : eval state x with
    | mk answer moved =>
      have hanswer : (eval state x).1 = answer := by rw [hx]
      cases answer with
      | error e =>
        simp only [evalChunk, hx]
        exact ⟨x, List.mem_cons_self, hanswer⟩
      | ok y =>
        -- The next point finds the state where this one has left it.
        have hmoved (z : α) : (eval moved z).1 = (eval state z).1 := by
          have hz := h state x z
          rwa [hx] at hz
        have hrest := ih moved
        simp only [hmoved] at hrest
        simp only [evalChunk, hx]
        exact hrest.cons hanswer

/-- Whichever chunks are through first, a chunk that has failed is one of them all. -/
private theorem mem_of_scheduled {schedule : List Nat} {results : List (Except ε (List β))}
    {result : Except ε (List β)} (h : result ∈ schedule.filterMap (results[·]?) ++ results) :
    result ∈ results := by
  rw [List.mem_append, List.mem_filterMap] at h
  obtain ⟨i, -, hi⟩ | h := h
  · exact List.mem_of_getElem? hi
  · exact h

/-- The error of a result is the result. -/
private theorem eq_error_of_error? {result : Except ε (List β)} {e : ε}
    (h : error? result = some e) : result = .error e := by
  cases result with
  | ok ys => nomatch h
  | error e' => rw [Option.some.inj h]

/-- If no chunk fails, the results of the chunks in their order are the answers at all points. -/
theorem gathered_flatMap {answer : α → Except ε β} {chunks : List (List α)}
    {result : List α → Except ε (List β)}
    (h : ∀ chunk ∈ chunks, Gathered answer chunk (result chunk))
    (hok : ∀ chunk ∈ chunks, error? (result chunk) = none) :
    Gathered answer chunks.flatten
      (.ok ((chunks.map result).flatMap fun ys => ys.toOption.getD [])) := by
  change chunks.flatten.map answer = List.map .ok _
  induction chunks with
  | nil => rfl
  | cons chunk rest ih =>
    have hrest := ih (fun c hc => h c (List.mem_cons_of_mem _ hc))
      (fun c hc => hok c (List.mem_cons_of_mem _ hc))
    have hchunk := h chunk List.mem_cons_self
    cases hresult : result chunk with
    | error e =>
      have hnone := hok chunk List.mem_cons_self
      rw [hresult] at hnone
      nomatch hnone
    | ok ys =>
      rw [hresult] at hchunk
      have hys : chunk.map answer = ys.map .ok := hchunk
      simp [hresult, hys, hrest, Except.toOption]

/-- Results of all chunks make up a result of all points. -/
theorem gathered_collect {answer : α → Except ε β} (schedule : List Nat) {chunks : List (List α)}
    {result : List α → Except ε (List β)}
    (h : ∀ chunk ∈ chunks, Gathered answer chunk (result chunk)) :
    Gathered answer chunks.flatten (collect schedule (chunks.map result)) := by
  rw [collect]
  split
  case h_1 e hfailed =>
    obtain ⟨failed, hmem, he⟩ := List.exists_of_findSome?_eq_some hfailed
    obtain ⟨chunk, hchunk, rfl⟩ := List.mem_map.1 (mem_of_scheduled hmem)
    have hgathered := h chunk hchunk
    rw [eq_error_of_error? he] at hgathered
    obtain ⟨x, hx, hanswer⟩ := hgathered
    exact ⟨x, List.mem_flatten_of_mem hchunk hx, hanswer⟩
  case h_2 hnone =>
    apply gathered_flatMap h
    intro chunk hchunk
    exact List.findSome?_eq_none_iff.1 hnone _
      (List.mem_append_right _ (List.mem_map_of_mem hchunk))

/-- Neither the size of the chunks nor the order in which they finish matters. -/
theorem gathered_run {eval : σ → α → Except ε β × σ} (h : Traceless eval) (state : σ)
    (points : List α) (options : Options) (workers : Nat) (schedule : List Nat) :
    Gathered (fun x => (eval state x).1) points
      (run eval state points options workers schedule) := by
  have hchunks : ∀ chunk ∈ chunks (options.size workers points.length) points,
      Gathered (fun x => (eval state x).1) chunk (evalChunk eval state chunk) := by
    intro chunk _
    exact gathered_evalChunk h state chunk
  have hcollect := gathered_collect schedule hchunks
  rwa [flatten_chunks] at hcollect

end Run

variable {K : Type} [Scalar K] {Γ : Nat → Shape} {L : Shape → Shape → Type} [Leaf K Γ L]
  {a s : Shape} {β : Type}

/-- What `observe` reads off the tree once it is at `x`, or the error that keeps it from there. -/
def answerAt (f : Tree K L a s) (observe : Tree K L a s → β) (x : Value K a) :
    Except (DomainError K) β :=
  observe <$> (f.update x).toExcept

/-- A point has an answer if the tree accepts it. -/
theorem answerAt_eq_ok_iff {f : Tree K L a s} {observe : Tree K L a s → β} {x : Value K a} {y : β} :
    answerAt f observe x = .ok y ↔ ∃ g, f.update x = .accepted g ∧ observe g = y := by
  rw [answerAt]
  cases f.update x with
  | accepted g => simp
  | rejected e g => simp

/-- A point has an error if the tree rejects it. -/
theorem answerAt_eq_error_iff {f : Tree K L a s} {observe : Tree K L a s → β} {x : Value K a}
    {e : DomainError K} :
    answerAt f observe x = .error e ↔ ∃ g, f.update x = .rejected e g := by
  rw [answerAt]
  cases f.update x with
  | accepted g => simp
  | rejected e g => simp

/-- An evaluation that moves the tree and reads `observe` off it. -/
def Observes (observe : Tree K L a s → β)
    (eval : Tree K L a s → Value K a → Except (DomainError K) β × Tree K L a s) : Prop :=
  ∀ f x, eval f x = (answerAt f observe x, (f.update x).state)

/-- Reading a value moves the tree and reads the value. -/
theorem observes_eval : Observes Tree.value (Tree.eval : Tree K L a s → _) := by
  intro f x
  rw [Tree.eval, answerAt]
  cases f.update x <;> rfl

theorem observes_evalWithDerivative :
    Observes (fun f : Tree K L .scalar .scalar => ((f.value : K), (f.d₁ .argument (1 : K) : K)))
      evalWithDerivative := by
  intro f x
  rw [evalWithDerivative, observes_eval, answerAt, answerAt]
  cases f.update x <;> rfl

/-- What a tree answers at a point does not depend on where it has been, since a later update
absorbs an earlier one. -/
theorem Observes.traceless [LawfulLeaf L] {observe : Tree K L a s → β}
    {eval : Tree K L a s → Value K a → Except (DomainError K) β × Tree K L a s}
    (h : Observes observe eval) : Traceless eval := by
  intro f x y
  have habsorbs := f.call_absorbs (c := .update x) (d := .update y) rfl
  simp only [h _ _]
  exact congrArg (observe <$> ·) habsorbs

/-- The result of an evaluation at many points that gives each point a fresh copy of the tree `f`.
If all points are accepted, the result has for each point what `observe` reads off the copy that
has been moved there; if some are rejected, it is the error that the copy gives at one of them. -/
structure Pointwise (f : Tree K L a s) (observe : Tree K L a s → β) (points : List (Value K a))
    (result : Except (DomainError K) (List β)) : Prop where
  all_accepted : (∀ x ∈ points, ∃ g, f.update x = .accepted g) →
    ∃ ys, result = .ok ys ∧ ys.length = points.length ∧
      ∀ i (h : i < points.length), ∃ g, f.update points[i] = .accepted g ∧
        ys[i]? = some (observe g)
  some_rejected : (∃ x ∈ points, ∃ e g, f.update x = .rejected e g) →
    ∃ x ∈ points, ∃ e g, f.update x = .rejected e g ∧ result = .error e

/-- A result made up of the answers at each point is one of fresh copies. -/
theorem Gathered.pointwise {f : Tree K L a s} {observe : Tree K L a s → β}
    {points : List (Value K a)} {result : Except (DomainError K) (List β)}
    (h : Gathered (answerAt f observe) points result) : Pointwise f observe points result := by
  cases result with
  | error e =>
    obtain ⟨x, hx, hanswer⟩ := h
    obtain ⟨g, hrejected⟩ := answerAt_eq_error_iff.1 hanswer
    constructor
    · intro hall
      obtain ⟨g', haccepted⟩ := hall x hx
      cases haccepted.symm.trans hrejected
    · intro _
      exact ⟨x, hx, e, g, hrejected, rfl⟩
  | ok ys =>
    have hys : points.map (answerAt f observe) = ys.map .ok := h
    have hlength : ys.length = points.length := by
      simpa only [List.length_map] using (congrArg List.length hys).symm
    have haccepted (i : Nat) (hi : i < points.length) :
        ∃ g, f.update points[i] = .accepted g ∧ ys[i]? = some (observe g) := by
      have hanswer := congrArg (·[i]?) hys
      simp only [List.getElem?_map, List.getElem?_eq_getElem hi, Option.map_some] at hanswer
      obtain ⟨y, hy, hok⟩ := Option.map_eq_some_iff.1 hanswer.symm
      obtain ⟨g, hg, rfl⟩ := answerAt_eq_ok_iff.1 hok.symm
      exact ⟨g, hg, hy⟩
    constructor
    · intro _
      exact ⟨ys, rfl, hlength, haccepted⟩
    · rintro ⟨x, hx, e, g, hrejected⟩
      obtain ⟨i, hi, rfl⟩ := List.getElem_of_mem hx
      obtain ⟨g', hg', -⟩ := haccepted i hi
      cases hg'.symm.trans hrejected

/-- All points of a chunk move one tree, which does not show in the results. Neither do the chunks
nor the order in which they finish, but for which of several errors is reported. -/
theorem Observes.pointwise [LawfulLeaf L] {observe : Tree K L a s → β}
    {eval : Tree K L a s → Value K a → Except (DomainError K) β × Tree K L a s}
    (h : Observes observe eval) (f : Tree K L a s) (points : List (Value K a)) (options : Options)
    (workers : Nat) (schedule : List Nat) :
    Pointwise f observe points (run eval f points options workers schedule) := by
  have hrun := gathered_run h.traceless f points options workers schedule
  simp only [h f] at hrun
  exact hrun.pointwise

/-- Evaluation at many points is evaluation of a fresh copy of the tree at each point, whatever
state the tree is in, however the points are cut into chunks and in whatever order the chunks
finish. The values are those of the copies, and with derivatives each value is paired with the
derivative of the same copy in the direction one. -/
theorem values_are_pointwise (options : Options) (workers : Nat) (schedule : List Nat) :
    (∀ {a s : Shape} (f : Tree K (Builtin K Γ) a s) (points : List (Value K a)),
      Pointwise f Tree.value points (values f points options workers schedule)) ∧
    ∀ (f : Tree K (Builtin K Γ) .scalar .scalar) (points : List K),
      Pointwise f (fun g => ((g.value : K), (g.d₁ .argument (1 : K) : K))) points
        (valuesWithDerivative f points options workers schedule) := by
  constructor
  · intro a s f points
    exact observes_eval.pointwise f points options workers schedule
  · intro f points
    exact observes_evalWithDerivative.pointwise f points options workers schedule

/-- Four points in chunks of three, two of which the logarithm rejects, one in either chunk. Without
the rejected points there are values and derivatives. -/
theorem values_are_pointwise_logarithm :
    let f (x : ℚ) : Tree ℚ (Builtin ℚ fun _ => .scalar) .scalar .scalar :=
      .leaf (.elementary ⟨.ln, x, ElementaryFunction.ln.jet x⟩)
    let points : List ℚ := [1, -1, 2, 0]
    ((f 1).update (-1 : ℚ) = .rejected (.outOfDomain "ln" "(0, inf)" (-1)) (f 1) ∧
      ∃ x ∈ points, ∃ e g, (f 1).update x = .rejected e g ∧
        values (f 1) points ⟨some 3⟩ 1 [1] = .error e) ∧
    (∀ x ∈ [1, 2], ∃ g, (f 1).update x = .accepted g) ∧
      ∃ ys, valuesWithDerivative (f 1) [1, 2] ⟨none⟩ 1 [] = .ok ys ∧ ys.length = 2 ∧
        ∀ i (h : i < 2), ∃ g, (f 1).update ([1, 2] : List ℚ)[i] = .accepted g ∧
          ys[i]? = some ((g.value : ℚ), (g.d₁ .argument (1 : ℚ) : ℚ)) := by
  intro f points
  have hrejected : (f 1).update (-1 : ℚ) = .rejected (.outOfDomain "ln" "(0, inf)" (-1)) (f 1) :=
    rfl
  have haccepted : ∀ x ∈ [1, 2], ∃ g, (f 1).update x = .accepted g := by
    intro x hx
    obtain rfl | rfl : x = 1 ∨ x = 2 := by simpa using hx
    · exact ⟨f 1, rfl⟩
    · exact ⟨f 2, rfl⟩
  have hvalues := (values_are_pointwise ⟨some 3⟩ 1 [1]).1 (f 1) points
  have hderivatives := (values_are_pointwise ⟨none⟩ 1 []).2 (f 1) [1, 2]
  exact ⟨⟨hrejected, hvalues.some_rejected ⟨-1, by simp [points], _, _, hrejected⟩⟩, haccepted,
    hderivatives.all_accepted haccepted⟩

end Directional.Batch
