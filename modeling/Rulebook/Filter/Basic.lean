import Rulebook.Connective
import Rulebook.Value.Basic

/-! Filter trees: comparisons of one field each, joined by `and` and `or` groups. -/

namespace Rulebook

inductive FilterOp where
  | equal
  | notEqual
  | greater
  | less
  | like
  | isIn
  deriving DecidableEq, Repr, Inhabited

namespace FilterOp

def name : FilterOp → String
  | .equal => "="
  | .notEqual => "!="
  | .greater => ">"
  | .less => "<"
  | .like => "like"
  | .isIn => "in"

def ofName? : String → Option FilterOp
  | "=" => some .equal
  | "!=" => some .notEqual
  | ">" => some .greater
  | "<" => some .less
  | "like" => some .like
  | "in" => some .isIn
  | _ => none

end FilterOp

inductive Filter where
  | leaf (field : String) (op : FilterOp) (value : Value)
  | group (kind : Connective) (clauses : List Filter)
  deriving Repr, Inhabited

namespace Filter

/-- The empty `or`, which matches nothing. -/
def none : Filter := .group .or []

/-- The clauses a filter brings to a group of a kind: its own when it is such a group. -/
def clausesFor (kind : Connective) : Filter → List Filter
  | .group k clauses => if k = kind then clauses else [.group k clauses]
  | .leaf field op value => [.leaf field op value]

def join (kind : Connective) (left right : Filter) : Filter :=
  .group kind (left.clausesFor kind ++ right.clausesFor kind)

mutual

def toValue : Filter → Value
  | .leaf field op value =>
    .record [("field", .text field), ("op", .text op.name), ("value", value)]
  | .group kind clauses =>
    .record [("kind", .text kind.name), ("clauses", .list (toValues clauses))]

def toValues : List Filter → List Value
  | [] => []
  | clause :: clauses => toValue clause :: toValues clauses

end

end Filter

end Rulebook
