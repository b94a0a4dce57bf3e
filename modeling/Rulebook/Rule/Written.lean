import Rulebook.Expr.Token
import Rulebook.Number.Text
import Rulebook.Rule.Basic

/-! The text of a structured rule. Literals are written only when all their characters are letters,
digits, blanks or one of `, . _ -`, and fields only when they are plain names. -/

namespace Rulebook

inductive UnsafeText where
  | literal (value : LooseText)
  | field (name : LooseText)
  deriving DecidableEq, Repr

namespace Rule

def isSafeChar (c : Char) : Bool :=
  c.isAlphanum || c == ',' || c == '.' || c == ' ' || c == '_' || c == '-'

def isSafeLiteral (s : String) : Bool := s ≠ "" && s.toList.all isSafeChar

def checkLiteral (t : LooseText) : Except UnsafeText String :=
  match t.string?.filter isSafeLiteral with
  | some s => .ok s
  | none => .error (.literal t)

def checkField (t : LooseText) : Except UnsafeText String :=
  match t.string?.filter Expr.isName with
  | some s => .ok s
  | none => .error (.field t)

def quote (t : LooseText) : Except UnsafeText String := do
  return "'" ++ (← checkLiteral t) ++ "'"

/-- Plain decimals stay bare, so that the comparison stays one of numbers. -/
def orderedLiteral (t : LooseText) : Except UnsafeText String :=
  if t.string?.any Number.isPlain then checkLiteral t else quote t

/-- A statement as text; one without an operator is its value. -/
def writeStatement (s : Statement) : Except UnsafeText String :=
  let value := s.value.getD ""
  match s.operator with
  | none => quote value
  | some op => do
    let field ← checkField (s.field.getD "")
    match op with
    | .containsSet =>
      let members ← value.commaMembers.mapM quote
      return "\x7b" ++ Text.joinCommas members ++ "\x7d.contains(" ++ field ++ ")"
    | .containsSubstring => return field ++ ".contains(" ++ (← quote value) ++ ")"
    | .equals => return field ++ " == " ++ (← quote value)
    | .notEquals => return field ++ " != " ++ (← quote value)
    | .greaterThan => return field ++ " > " ++ (← orderedLiteral value)
    | .lessThan => return field ++ " < " ++ (← orderedLiteral value)

/-- The text that joins a statement to the one before it; `and` where it has no connective. -/
def joint (s : Statement) : String := (s.connective.getD .and).joint

def writeRest : Group → Except UnsafeText String
  | [] => .ok ""
  | s :: g => do
    let text ← writeStatement s
    return joint s ++ text ++ (← writeRest g)

def writeGroup (g : Group) : Except UnsafeText String :=
  match g.filter (!·.isEmpty) with
  | [] => .ok ""
  | first :: rest => do
    let text ← writeStatement first
    return text ++ (← writeRest rest)

/-- The text of a rule: empty while its condition or its `thenBranch` is incomplete. An incomplete
`elseBranch` is written as `null`. -/
def write (r : Rule) : Except UnsafeText String :=
  if r.isComplete .condition && r.isComplete .thenBranch then do
    let condition ← writeGroup r.condition
    let thenText ← writeGroup r.thenBranch
    let elseText ← if r.isComplete .elseBranch then writeGroup r.elseBranch else .ok "null"
    return condition ++ " ? " ++ thenText ++ " : " ++ elseText
  else .ok ""

end Rule

end Rulebook
