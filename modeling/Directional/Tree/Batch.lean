import Directional.Tree.Total
import Directional.Tree.Update

namespace Directional.Batch

/-- How many points form a chunk, unless that is left to the number of points. -/
structure Options where
  chunkSize : Option Nat
  deriving DecidableEq

/-- The size of the chunks for a number of points and a number of workers: by default four chunks
for every worker, and never zero. -/
def Options.size (options : Options) (workers points : Nat) : Nat :=
  max (options.chunkSize.getD (points / (workers * 4))) 1

/-- The points of a list in consecutive chunks of `n`, the last of which may be shorter. -/
def chunks {α : Type} (n : Nat) (points : List α) : List (List α) :=
  match points with
  | [] => []
  | x :: xs => (x :: xs.take (n - 1)) :: chunks n (xs.drop (n - 1))
termination_by points.length
decreasing_by simp only [List.length_cons, List.length_drop]; omega

/-- Chunks neither lose nor repeat nor reorder points. -/
theorem flatten_chunks {α : Type} (n : Nat) (points : List α) :
    (chunks n points).flatten = points := by
  induction points using chunks.induct n with
  | case1 => simp [chunks]
  | case2 x xs ih => simp [chunks, ih]

/-- Evaluates the points of a chunk one after the other, each on the tree that the point before has
left behind, and stops at the first error. -/
def evalChunk {σ α β ε : Type} (eval : σ → α → Except ε β × σ) (state : σ) :
    List α → Except ε (List β)
  | [] => .ok []
  | x :: xs =>
    match eval state x with
    | (.ok y, state) => (y :: ·) <$> evalChunk eval state xs
    | (.error e, _) => .error e

/-- The error of a result, if it is one. -/
def error? {ε α : Type} : Except ε α → Option ε
  | .ok _ => none
  | .error e => some e

/-- The results of all chunks in their order, or the error of the chunk that failed first. The
chunks finish in the order in which `schedule` has their numbers; numbers that it does not have
come last. -/
def collect {α ε : Type} (schedule : List Nat) (results : List (Except ε (List α))) :
    Except ε (List α) :=
  match (schedule.filterMap (results[·]?) ++ results).findSome? error? with
  | some e => .error e
  | none => .ok (results.flatMap fun result => result.toOption.getD [])

/-- Evaluates `points` in chunks, each on the tree `f`. -/
def run {σ α β ε : Type} (eval : σ → α → Except ε β × σ) (f : σ) (points : List α)
    (options : Options) (workers : Nat) (schedule : List Nat) : Except ε (List β) :=
  collect schedule ((chunks (options.size workers points.length) points).map (evalChunk eval f))

variable {K : Type} [Scalar K] {Γ : Nat → Shape} {L : Shape → Shape → Type} [Leaf K Γ L]

/-- The values of a tree at many points. Every chunk is evaluated point by point on a tree of its
own, so that the chunks may be worked on in any order. -/
def values {a s : Shape} (f : Tree K L a s) (points : List (Value K a)) (options : Options)
    (workers : Nat) (schedule : List Nat) : Except (DomainError K) (List (Value K s)) :=
  run Tree.eval f points options workers schedule

/-- The value at a new argument together with the derivative there, and the tree that is left
behind. -/
def evalWithDerivative (f : Tree K L .scalar .scalar) (x : K) :
    Except (DomainError K) (K × K) × Tree K L .scalar .scalar :=
  let (result, f) := f.eval x
  (result.map fun (y : K) => (y, (f.d₁ .argument (1 : K) : K)), f)

/-- The values and the derivatives of a function of one number at many points. -/
def valuesWithDerivative (f : Tree K L .scalar .scalar) (points : List K) (options : Options)
    (workers : Nat) (schedule : List Nat) : Except (DomainError K) (List (K × K)) :=
  run evalWithDerivative f points options workers schedule

end Directional.Batch
