import Rulebook.Predicate.Condition
import Rulebook.Rule.Extract

/-! What the walk over a tree gives: one statement for every leaf, in order, and the predicate of
the condition that the tree stands for. Neither depends on where the group already stands. -/

namespace Rulebook

namespace Statement

@[simp] theorem empty_merge (patch : Statement) : empty.merge patch = patch := by
  cases patch
  simp [empty, merge]

theorem connective_merge (op : Connective) {patch : Statement} (h : patch.connective = none) :
    merge { connective := some op } patch = { patch with connective := some op } := by
  simp [merge, h]

end Statement

namespace Group

theorem modify_concat (g : Group) (s : Statement) (f : Statement → Statement) :
    (g ++ [s]).modify g.length f = g ++ [f s] := by
  induction g with
  | nil => rfl
  | cons t g ih => simp [ih]

theorem edit_length (g : Group) (patch : Statement) :
    g.edit g.length patch = g ++ [patch] := by
  have hpad : g.pad (g.length + 1) = g ++ [Statement.empty] := by
    rw [pad, Nat.add_sub_cancel_left]
    rfl
  rw [edit, hpad, modify_concat, Statement.empty_merge]

theorem edit_concat (g : Group) (s patch : Statement) :
    edit (g ++ [s]) g.length patch = g ++ [s.merge patch] := by
  have hpad : pad (g ++ [s]) (g.length + 1) = g ++ [s] := by simp [pad]
  rw [edit, hpad, modify_concat]

/-- The statement that a connective is put on before the rest of it is known. -/
def slot : Option Connective → Group
  | none => []
  | some op => [{ connective := some op }]

theorem edit_slot (g : Group) (c : Option Connective) {patch : Statement}
    (h : patch.connective = none) :
    edit (g ++ slot c) g.length patch = g ++ [{ patch with connective := c }] := by
  cases c with
  | none =>
    rw [slot, List.append_nil, edit_length]
    cases patch
    cases h
    rfl
  | some op => rw [slot, edit_concat, Statement.connective_merge op h]

end Group

def Test.ofComparator : Expr.Comparator → Test
  | .equal => .equal
  | .notEqual => .notEqual
  | .greater => .greaterThan
  | .less => .lessThan

namespace Expr.Node

def leaf : Node → Statement
  | .comparison op left right _ =>
    { field := some left.name, operator := some (.ofComparator op), value := some right.raw }
  | .contains target (.members m) _ =>
    { field := some target.name, operator := some .containsSet,
      value := some (.ofString (Text.joinCommas (Rule.memberTexts m))) }
  | .contains target (.literal l) _ =>
    { field := some target.name, operator := some .containsSubstring, value := some l.raw }
  | .literal l => if l.isNull then .empty else { value := some l.raw }
  | _ => .empty

def statements (c : Option Connective) : Node → Group
  | .logical op left right _ => left.statements c ++ right.statements (some op)
  | .comparison op left right source =>
    [{ leaf (.comparison op left right source) with connective := c }]
  | .contains target argument source =>
    [{ leaf (.contains target argument source) with connective := c }]
  | .literal l => [{ leaf (.literal l) with connective := c }]
  | .field _ => [{ connective := c }]
  | .members _ => [{ connective := c }]
  | .conditional .. => [{ connective := c }]

/-- What the tree asks of an entity. Only comparisons and calls of `contains` ask anything. -/
def condition : Node → Condition
  | .logical op left right _ => .join op left.condition right.condition
  | .comparison op left right _ => .test (.ofComparator op) left.name right.raw
  | .contains target (.members m) _ => .isIn target.name (Rule.memberTexts m)
  | .contains target (.literal l) _ => .test .like target.name ("%" ++ l.raw ++ "%")
  | _ => .never

theorem leaf_connective (n : Node) : n.leaf.connective = none := by
  cases n with
  | contains target argument source => cases argument <;> rfl
  | literal l =>
    rw [leaf]
    split <;> rfl
  | _ => rfl

end Expr.Node

namespace Rule
open Rulebook.Expr

variable {P A : Type} (b : PredicateBuilder P A)

theorem walk_group (n : Node) (c : Option Connective) (g : Group) :
    (walk b n g.length (g ++ Group.slot c)).group = g ++ n.statements c := by
  induction n generalizing c g with
  | logical op left right source ihl ihr =>
    -- The connective is put on the next statement before the right side is walked.
    have hleft := ihl c g
    have hright := ihr (some op) (g ++ left.statements c)
    simp only [walk, hleft, Group.edit_length]
    rw [Node.statements, ← List.append_assoc]
    exact hright
  | comparison op left right source => exact Group.edit_slot g c rfl
  | contains target argument source => cases argument <;> exact Group.edit_slot g c rfl
  | literal l =>
    have h := Group.edit_slot g c (Node.leaf_connective (.literal l))
    simp only [walk, Node.statements]
    cases hl : l.isNull <;> simpa [Node.leaf, hl, unsupported] using h
  | field f => exact Group.edit_slot g c rfl
  | members m => exact Group.edit_slot g c rfl
  | conditional condition thenBranch elseBranch source => exact Group.edit_slot g c rfl

theorem walk_predicate (n : Node) (index : Nat) (g : Group) :
    (walk b n index g).predicate = n.condition.build b := by
  induction n generalizing index g with
  | logical op left right source ihl ihr =>
    cases op <;> simp [walk, Node.condition, Condition.build, ihl, ihr]
  | comparison op left right source => cases op <;> rfl
  | contains target argument source => cases argument <;> rfl
  | literal l =>
    simp only [walk, Node.condition]
    split <;> rfl
  | field f => rfl
  | members m => rfl
  | conditional condition thenBranch elseBranch source => rfl

theorem walk_start (n : Node) : (walk b n 0 []).group = n.statements none :=
  walk_group b n none []

theorem literal_statements (l : Literal) :
    (Node.literal l).statements none = [{ value := l.value?.map .ofString }] := by
  rw [Node.statements, Node.leaf, Literal.value?]
  cases l.isNull <;> rfl

theorem ofConditional_eq (c : Conditional) :
    ofConditional c = ⟨c.condition.statements none, (Node.literal c.thenBranch).statements none,
      (Node.literal c.elseBranch).statements none⟩ := by
  simp only [ofConditional, extract, extractWith, walk_start]

theorem predicateOf_eq (c : Conditional) : predicateOf b c = c.condition.condition.build b :=
  walk_predicate b c.condition 0 []

end Rule

end Rulebook
