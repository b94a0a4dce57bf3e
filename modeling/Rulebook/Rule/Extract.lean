import Rulebook.Expr.Grammar
import Rulebook.Predicate.Builder
import Rulebook.Rule.Basic

/-! Structured rules from trees. One walk gives the statements of a group and, with a builder, the
predicate of the condition. -/

namespace Rulebook.Rule
open Rulebook.Expr

variable {P A : Type}

structure Walked (P : Type) where
  group : Group
  predicate : P

/-- A node that says nothing: an empty statement and a condition that never holds. -/
def unsupported (b : PredicateBuilder P A) (index : Nat) (g : Group) : Walked P :=
  ⟨g.edit index .empty, b.never⟩

def comparison (b : PredicateBuilder P A) (op : Comparator) (handle : A) (value : String) : P :=
  match op with
  | .equal => b.equal handle value
  | .notEqual => b.notEqual handle value
  | .greater => b.greaterThan handle value
  | .less => b.lessThan handle value

def memberTexts (m : Members) : List String := m.items.map fun item => Text.trimmed item.raw

/-- Adds the statements of a node to a group, the first one at `index`. The right side of a
connective starts behind everything the left side made. -/
def walk (b : PredicateBuilder P A) : Node → Nat → Group → Walked P
  | .logical op left right _, index, g =>
    let l := walk b left index g
    let next := l.group.length
    let r := walk b right next (l.group.edit next { connective := some op })
    ⟨r.group,
      match op with
      | .and => b.both l.predicate r.predicate
      | .or => b.either l.predicate r.predicate⟩
  | .comparison op left right _, index, g =>
    ⟨g.edit index
        { field := some left.name, operator := some (.ofComparator op), value := some right.raw },
      comparison b op (b.handle left.name) right.raw⟩
  | .contains target (.members m) _, index, g =>
    ⟨g.edit index
        { field := some target.name, operator := some .containsSet,
          value := some (.ofString (Text.joinCommas (memberTexts m))) },
      b.isIn (b.handle target.name) (memberTexts m)⟩
  | .contains target (.literal l) _, index, g =>
    ⟨g.edit index
        { field := some target.name, operator := some .containsSubstring, value := some l.raw },
      b.like (b.handle target.name) ("%" ++ l.raw ++ "%")⟩
  | .literal l, index, g =>
    if l.isNull then unsupported b index g else ⟨g.edit index { value := some l.raw }, b.never⟩
  | .field _, index, g => unsupported b index g
  | .members _, index, g => unsupported b index g
  | .conditional .., index, g => unsupported b index g

def extractWith (b : PredicateBuilder P A) (condition thenBranch elseBranch : Node) : Rule × P :=
  let c := walk b condition 0 []
  (⟨c.group, (walk noPredicates thenBranch 0 []).group, (walk noPredicates elseBranch 0 []).group⟩,
    c.predicate)

def extract (condition thenBranch elseBranch : Node) : Rule :=
  (extractWith noPredicates condition thenBranch elseBranch).1

def ofConditional (c : Conditional) : Rule :=
  extract c.condition (.literal c.thenBranch) (.literal c.elseBranch)

def predicateOf (b : PredicateBuilder P A) (c : Conditional) : P :=
  (extractWith b c.condition (.literal c.thenBranch) (.literal c.elseBranch)).2

/-- Reads a text as a structured rule. A blank text is the empty rule. -/
def read (text : String) : Except SyntaxError Rule :=
  if Text.trim text.toList = [] then .ok empty else (parse text).map ofConditional

end Rulebook.Rule
