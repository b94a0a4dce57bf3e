import Rulebook.Connective

/-! Trees of rule expressions. Every node keeps the text it was read from. -/

namespace Rulebook.Expr

inductive Comparator where
  | equal
  | notEqual
  | greater
  | less
  deriving DecidableEq, Repr, Inhabited

namespace Comparator

def sign : Comparator → String
  | .equal => "=="
  | .notEqual => "!="
  | .greater => ">"
  | .less => "<"

def ofSign? : String → Option Comparator
  | "==" => some .equal
  | "!=" => some .notEqual
  | ">" => some .greater
  | "<" => some .less
  | _ => none

@[simp] theorem ofSign?_sign (c : Comparator) : ofSign? c.sign = some c := by
  cases c <;> rfl

end Comparator

structure Literal where
  raw : String
  quoted : Bool
  source : String
  deriving DecidableEq, Repr, Inhabited

/-- A bare `null` stands for no value. -/
def Literal.isNull (l : Literal) : Bool := !l.quoted && l.raw == "null"

def Literal.value? (l : Literal) : Option String := if l.isNull then none else some l.raw

structure Field where
  name : String
  source : String
  deriving DecidableEq, Repr, Inhabited

structure Members where
  items : List Literal
  source : String
  deriving DecidableEq, Repr, Inhabited

inductive Argument where
  | literal (l : Literal)
  | members (m : Members)
  deriving DecidableEq, Repr, Inhabited

def Argument.source : Argument → String
  | .literal l => l.source
  | .members m => m.source

/-- A tree built by hand may have any node where a condition or a branch stands. -/
inductive Node where
  | literal (l : Literal)
  | field (f : Field)
  | members (m : Members)
  | comparison (op : Comparator) (left : Field) (right : Literal) (source : String)
  | contains (target : Field) (argument : Argument) (source : String)
  | logical (op : Connective) (left right : Node) (source : String)
  | conditional (condition thenBranch elseBranch : Node) (source : String)
  deriving DecidableEq, Repr, Inhabited

namespace Node

def source : Node → String
  | .literal l => l.source
  | .field f => f.source
  | .members m => m.source
  | .comparison _ _ _ source => source
  | .contains _ _ source => source
  | .logical _ _ _ source => source
  | .conditional _ _ _ source => source

def ofArgument : Argument → Node
  | .literal l => .literal l
  | .members m => .members m

def children : Node → List Node
  | .conditional condition thenBranch elseBranch _ => [condition, thenBranch, elseBranch]
  | .logical _ left right _ => [left, right]
  | .comparison _ left right _ => [.field left, .literal right]
  | .contains target argument _ => [.field target, ofArgument argument]
  | .members m => m.items.map .literal
  | .field _ => []
  | .literal _ => []

end Node

structure Conditional where
  condition : Node
  thenBranch : Literal
  elseBranch : Literal
  source : String
  deriving DecidableEq, Repr, Inhabited

def Conditional.node (c : Conditional) : Node :=
  .conditional c.condition (.literal c.thenBranch) (.literal c.elseBranch) c.source

end Rulebook.Expr
