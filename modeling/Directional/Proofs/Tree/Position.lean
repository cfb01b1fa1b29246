import Mathlib.Data.List.Nodup
import Directional.Proofs.Tree.Call

namespace Directional.Tree

/-- The way from a node to one of its operands. The first operand of a composition is the inner
function, which is moved before the outer one. -/
inductive Turn where
  | first | second

/-- A position in a tree: the turns that lead to it from the root. -/
abbrev Position : Type :=
  List Turn

/-- The positions below a node: the given ones below each of its operands. -/
def inOperands (first second : List Position) : List Position :=
  first.map (Turn.first :: ·) ++ second.map (Turn.second :: ·)

section Operands

variable {first second : List Position} {p : Position}

@[simp] theorem inOperands_nil : inOperands [] [] = [] := rfl

@[simp] theorem nil_notMem_inOperands : [] ∉ inOperands first second := by
  simp [inOperands]

@[simp] theorem first_mem_inOperands : Turn.first :: p ∈ inOperands first second ↔ p ∈ first := by
  simp [inOperands]

@[simp] theorem second_mem_inOperands : Turn.second :: p ∈ inOperands first second ↔ p ∈ second := by
  simp [inOperands]

/-- The positions in two operands and the root are different positions. -/
theorem nodup_completed (hfirst : first.Nodup) (hsecond : second.Nodup) :
    (inOperands first second ++ [[]]).Nodup := by
  have hoperands : (inOperands first second).Nodup := by
    rw [inOperands, List.nodup_append]
    refine ⟨hfirst.map List.cons_injective, hsecond.map List.cons_injective, ?_⟩
    rintro _ hp _ hq rfl
    obtain ⟨p, -, rfl⟩ := List.mem_map.1 hp
    simp at hq
  rw [List.nodup_append]
  refine ⟨hoperands, List.nodup_singleton _, ?_⟩
  rintro _ hp _ hq rfl
  rw [List.mem_singleton.1 hq] at hp
  exact nil_notMem_inOperands hp

end Operands

variable {K : Type} {Γ : Nat → Shape} {L : Shape → Shape → Type} [Leaf K Γ L] {a b s t u : Shape}

/-- The positions of the nodes that a call visits, in the order in which it completes them. An
operand is visited if it depends on the slot of the call, and the outer function of a composition
if the inner one is. -/
def agenda : {a s : Shape} → Tree K L a s → Slot → List Position
  | _, _, leaf _, _ => [[]]
  | _, _, scale k f v, X =>
    if (scale k f v).skips X then [] else inOperands (visited f X (f.agenda X)) [] ++ [[]]
  | _, _, squared m f v, X =>
    if (squared m f v).skips X then [] else inOperands (visited f X (f.agenda X)) [] ++ [[]]
  | _, _, sum f g v, X =>
    if (sum f g v).skips X then []
    else inOperands (visited f X (f.agenda X)) (visited g X (g.agenda X)) ++ [[]]
  | _, _, product m f g v, X =>
    if (product m f g v).skips X then []
    else inOperands (visited f X (f.agenda X)) (visited g X (g.agenda X)) ++ [[]]
  | _, _, extremum e f g v firstActive, X =>
    if (extremum e f g v firstActive).skips X then []
    else inOperands (visited f X (f.agenda X)) (visited g X (g.agenda X)) ++ [[]]
  | _, _, chain f g, X =>
    if g.dependsOn X then inOperands (g.agenda X) (f.agenda .argument) ++ [[]] else []
where
  /-- The positions in an operand, if it is visited at all. -/
  visited {a s : Shape} (f : Tree K L a s) (X : Slot) (positions : List Position) :
      List Position :=
    if f.dependsOn X then positions else []

/-- An operand that is not visited has no position on the way. -/
private theorem nodup_visited {f : Tree K L a s} {X : Slot} {positions : List Position}
    (h : positions.Nodup) : (agenda.visited f X positions).Nodup := by
  unfold agenda.visited
  split
  · exact h
  · exact List.nodup_nil

/-- No node is completed twice. -/
theorem nodup_agenda (f : Tree K L a s) (X : Slot) : (f.agenda X).Nodup := by
  induction f generalizing X with
  | leaf l => exact List.nodup_singleton _
  | scale _ _ _ ih | squared _ _ _ ih =>
    unfold agenda
    split
    · exact List.nodup_nil
    · exact nodup_completed (nodup_visited (ih X)) List.nodup_nil
  | sum _ _ _ ihf ihg | product _ _ _ _ ihf ihg | extremum _ _ _ _ _ ihf ihg =>
    unfold agenda
    split
    · exact List.nodup_nil
    · exact nodup_completed (nodup_visited (ihf X)) (nodup_visited (ihg X))
  | chain _ _ ihf ihg =>
    unfold agenda
    split
    · exact nodup_completed (ihg X) (ihf .argument)
    · exact List.nodup_nil

/-- A tree of whatever shapes. -/
structure Subtree (K : Type) (L : Shape → Shape → Type) where
  {argument shape : Shape}
  tree : Tree K L argument shape

/-- The operand of a node in the direction of a turn. -/
def Subtree.operand? : Subtree K L → Turn → Option (Subtree K L)
  | ⟨scale _ f _⟩, .first => some ⟨f⟩
  | ⟨squared _ f _⟩, .first => some ⟨f⟩
  | ⟨sum f _ _⟩, .first => some ⟨f⟩
  | ⟨sum _ g _⟩, .second => some ⟨g⟩
  | ⟨product _ f _ _⟩, .first => some ⟨f⟩
  | ⟨product _ _ g _⟩, .second => some ⟨g⟩
  | ⟨extremum _ f _ _ _⟩, .first => some ⟨f⟩
  | ⟨extremum _ _ g _ _⟩, .second => some ⟨g⟩
  | ⟨chain _ g⟩, .first => some ⟨g⟩
  | ⟨chain f _⟩, .second => some ⟨f⟩
  | _, _ => none

/-- The subtree at a position. -/
def Subtree.at? (u : Subtree K L) : Position → Option (Subtree K L)
  | [] => some u
  | turn :: p => (u.operand? turn).bind (·.at? p)

/-- A tree of whatever shapes and a call that is handed to it. -/
structure Handed (K : Type) (Γ : Nat → Shape) (L : Shape → Shape → Type) where
  {argument shape : Shape}
  tree : Tree K L argument shape
  call : Call K Γ argument

/-- The operand in the direction of a turn, with the call that the node hands to it. The outer
function of a composition is moved to the value of the inner one, other operands are handed the
call of the node. -/
def Handed.operand? : Handed K Γ L → Turn → Option (Handed K Γ L)
  | ⟨scale _ f _, c⟩, .first => some ⟨f, c⟩
  | ⟨squared _ f _, c⟩, .first => some ⟨f, c⟩
  | ⟨sum f _ _, c⟩, .first => some ⟨f, c⟩
  | ⟨sum _ g _, c⟩, .second => some ⟨g, c⟩
  | ⟨product _ f _ _, c⟩, .first => some ⟨f, c⟩
  | ⟨product _ _ g _, c⟩, .second => some ⟨g, c⟩
  | ⟨extremum _ f _ _ _, c⟩, .first => some ⟨f, c⟩
  | ⟨extremum _ _ g _ _, c⟩, .second => some ⟨g, c⟩
  | ⟨chain _ g, c⟩, .first => some ⟨g, c⟩
  | ⟨chain f g, _⟩, .second => some ⟨f, .update g.value⟩
  | _, _ => none

/-- The subtree at a position, with the call that reaches it. -/
def Handed.at? (v : Handed K Γ L) : Position → Option (Handed K Γ L)
  | [] => some v
  | turn :: p => (v.operand? turn).bind (·.at? p)

end Directional.Tree
