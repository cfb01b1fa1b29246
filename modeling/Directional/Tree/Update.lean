import Directional.Tree.Presence

namespace Directional.Tree

variable {K : Type} [Scalar K] {Γ : Nat → Shape} {L : Shape → Shape → Type} [Leaf K Γ L]

/-- Moves a tree to a new argument. The operands that depend on it are visited from left to right,
and the values of the nodes above them recomputed; the inner function of a composition is moved
first, and then the outer one to its value. The first leaf that rejects what it is given ends this,
and the nodes above it keep their values. -/
def update : {a s : Shape} → Tree K L a s → Value K a → Outcome (DomainError K) (Tree K L a s)
  | _, _, leaf l, x => (Leaf.update l x).map leaf
  | _, _, scale c f v, x =>
    (Outcome.visit f.reacts f (f.update x)).complete (mkScale c) (scale c · v)
  | _, _, squared m f v, x =>
    (Outcome.visit f.reacts f (f.update x)).complete (mkSquared m) (squared m · v)
  | _, _, sum f g v, x =>
    .both mkSum (sum · · v)
      (.visit f.reacts f (f.update x)) g (.visit g.reacts g (g.update x))
  | _, _, product m f g v, x =>
    .both (mkProduct m) (product m · · v)
      (.visit f.reacts f (f.update x)) g (.visit g.reacts g (g.update x))
  | _, _, extremum e f g v firstActive, x =>
    .both (mkExtremum e) (extremum e · · v firstActive)
      (.visit f.reacts f (f.update x)) g (.visit g.reacts g (g.update x))
  | _, _, chain f g, x =>
    if g.reacts then
      match g.update x with
      | .accepted g => (f.update g.value).map (chain · g)
      | .rejected e g => .rejected e (chain f g)
    else .accepted (chain f g)

/-- Writes a new value into the variable with number `i`. A node that does not depend on the
variable stays as it is. -/
def write (i : Nat) (x : Value K (Γ i)) :
    {a s : Shape} → Tree K L a s → Outcome (DomainError K) (Tree K L a s)
  | _, _, leaf l => (Leaf.write l i x).map leaf
  | _, _, scale c f v =>
    if f.reactsTo i then (f.write i x).complete (mkScale c) (scale c · v)
    else .accepted (scale c f v)
  | _, _, squared m f v =>
    if f.reactsTo i then (f.write i x).complete (mkSquared m) (squared m · v)
    else .accepted (squared m f v)
  | _, _, sum f g v =>
    if f.reactsTo i || g.reactsTo i then
      .both mkSum (sum · · v)
        (.visit (f.reactsTo i) f (f.write i x)) g (.visit (g.reactsTo i) g (g.write i x))
    else .accepted (sum f g v)
  | _, _, product m f g v =>
    if f.reactsTo i || g.reactsTo i then
      .both (mkProduct m) (product m · · v)
        (.visit (f.reactsTo i) f (f.write i x)) g (.visit (g.reactsTo i) g (g.write i x))
    else .accepted (product m f g v)
  | _, _, extremum e f g v firstActive =>
    if f.reactsTo i || g.reactsTo i then
      .both (mkExtremum e) (extremum e · · v firstActive)
        (.visit (f.reactsTo i) f (f.write i x)) g (.visit (g.reactsTo i) g (g.write i x))
    else .accepted (extremum e f g v firstActive)
  | _, _, chain f g =>
    if g.reactsTo i then
      match g.write i x with
      | .accepted g => (f.update g.value).map (chain · g)
      | .rejected e g => .rejected e (chain f g)
    else .accepted (chain f g)

variable {a b s : Shape}

/-- The composition of `f` after `g`, with `f` moved to the value of `g`. -/
def mkChain (f : Tree K L b s) (g : Tree K L a b) : Except (DomainError K) (Tree K L a s) :=
  match f.update g.value with
  | .accepted f => .ok (chain f g)
  | .rejected e _ => .error e

/-- Moves a tree to a new argument if it depends on it. -/
def update? (f : Tree K L a s) (x : Value K a) : Outcome (DomainError K) (Tree K L a s) :=
  .visit f.reacts f (f.update x)

/-- Writes a new value into a variable if the tree depends on it. -/
def write? (f : Tree K L a s) (i : Nat) (x : Value K (Γ i)) :
    Outcome (DomainError K) (Tree K L a s) :=
  .visit (f.reactsTo i) f (f.write i x)

/-- The value at a new argument, and the tree that is left behind. -/
def eval (f : Tree K L a s) (x : Value K a) :
    Except (DomainError K) (Value K s) × Tree K L a s :=
  match f.update x with
  | .accepted f => (.ok f.value, f)
  | .rejected e f => (.error e, f)

end Directional.Tree
