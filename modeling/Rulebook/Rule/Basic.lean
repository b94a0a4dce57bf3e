import Rulebook.Connective
import Rulebook.Expr.Node
import Rulebook.Text.Commas

/-! Structured rules: three groups of statements. The place of a statement in its group is the
order of the text, and a connective stands on the statement it precedes. -/

namespace Rulebook

inductive Operator where
  | equals
  | notEquals
  | greaterThan
  | lessThan
  | containsSubstring
  | containsSet
  deriving DecidableEq, Repr, Inhabited

namespace Operator

def all : List Operator :=
  [.equals, .notEquals, .greaterThan, .lessThan, .containsSubstring, .containsSet]

theorem mem_all (op : Operator) : op ∈ all := by cases op <;> decide

def name : Operator → String
  | .equals => "equals"
  | .notEquals => "notEquals"
  | .greaterThan => "greaterThan"
  | .lessThan => "lessThan"
  | .containsSubstring => "containsSubstring"
  | .containsSet => "containsSet"

def ofName? (s : String) : Option Operator := all.find? (·.name == s)

@[simp] theorem ofName?_name (op : Operator) : ofName? op.name = some op := by
  cases op <;> decide

def ofComparator : Expr.Comparator → Operator
  | .equal => .equals
  | .notEqual => .notEquals
  | .greater => .greaterThan
  | .less => .lessThan

end Operator

/-- A statement has any of its members. The value of `containsSet` is the members joined by
commas. -/
structure Statement where
  connective : Option Connective := none
  field : Option LooseText := none
  operator : Option Operator := none
  value : Option LooseText := none
  deriving DecidableEq, Repr, Inhabited

namespace Statement

def empty : Statement := {}

/-- A statement without an operator and without a value says nothing. -/
def isEmpty (s : Statement) : Bool := s.operator.isNone && s.value.isNone

/-- The members of the patch replace those of the statement. A patch has no members without a
value, which would clear those of the statement. -/
def merge (s patch : Statement) : Statement where
  connective := patch.connective <|> s.connective
  field := patch.field <|> s.field
  operator := patch.operator <|> s.operator
  value := patch.value <|> s.value

end Statement

abbrev Group := List Statement

inductive GroupKind where
  | condition
  | branch
  deriving DecidableEq, Repr

namespace Group

def pad (g : Group) (size : Nat) : Group := g ++ List.replicate (size - g.length) Statement.empty

/-- Merges a patch into the statement at an index; missing statements up to there are empty. -/
def edit (g : Group) (index : Nat) (patch : Statement) : Group :=
  (pad g (index + 1)).modify index (·.merge patch)

theorem length_pad (g : Group) (size : Nat) : (pad g size).length = max g.length size := by
  simp [pad]; omega

/-- A group is complete when its first statement has an operator, or, in a branch, a value. -/
def isComplete (kind : GroupKind) : Group → Bool
  | [] => false
  | first :: _ => first.operator.isSome || (kind == .branch && first.value.isSome)

end Group

inductive GroupName where
  | condition
  | thenBranch
  | elseBranch
  deriving DecidableEq, Repr, Inhabited

namespace GroupName

def all : List GroupName := [.condition, .thenBranch, .elseBranch]

theorem mem_all (name : GroupName) : name ∈ all := by cases name <;> decide

def text : GroupName → String
  | .condition => "if"
  | .thenBranch => "then"
  | .elseBranch => "else"

def ofText? (s : String) : Option GroupName := all.find? (·.text == s)

def kind : GroupName → GroupKind
  | .condition => .condition
  | _ => .branch

end GroupName

/-- A rule gives the value of its `thenBranch` where its condition holds, and that of its
`elseBranch` elsewhere. -/
structure Rule where
  condition : Group
  thenBranch : Group
  elseBranch : Group
  deriving DecidableEq, Repr, Inhabited

namespace Rule

def empty : Rule := ⟨[.empty], [.empty], [.empty]⟩

def group (r : Rule) : GroupName → Group
  | .condition => r.condition
  | .thenBranch => r.thenBranch
  | .elseBranch => r.elseBranch

def edit (r : Rule) (name : GroupName) (index : Nat) (patch : Statement) : Rule :=
  match name with
  | .condition => { r with condition := r.condition.edit index patch }
  | .thenBranch => { r with thenBranch := r.thenBranch.edit index patch }
  | .elseBranch => { r with elseBranch := r.elseBranch.edit index patch }

def isComplete (r : Rule) (name : GroupName) : Bool := (r.group name).isComplete name.kind

/-- Every value the rule mentions, in the order of their first mention. A value is split at its
commas. -/
def values (r : Rule) : List LooseText :=
  ((GroupName.all.flatMap r.group).filterMap (·.value)).flatMap LooseText.commaParts |>.eraseDups

end Rule

end Rulebook
