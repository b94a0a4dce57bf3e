import Rulebook.Rule.Basic
import Rulebook.Value.Basic

/-! Structured rules from data documents. Reading stops at the first violation: the groups in
order, in a group keyed by ordinals first its keys, then the statements, in a statement its members
in order. -/

namespace Rulebook

inductive ShapeViolation where
  | notObject
  | missingGroup
  | notOrdinal
  | notGroup
  | notStatement
  | notConnective
  | notText
  | notOperator
  deriving DecidableEq, Repr

def ShapeViolation.text : ShapeViolation → String
  | .notObject => "expected an object"
  | .missingGroup => "group is missing"
  | .notOrdinal => "statement keys must be ordinals"
  | .notGroup => "expected an array or an ordinal-keyed object"
  | .notStatement => "expected a statement object"
  | .notConnective => "expected \"and\" or \"or\""
  | .notText => "expected a string"
  | .notOperator => "expected one of " ++ String.intercalate ", " (Operator.all.map Operator.name)

structure ShapeError where
  path : LooseText
  violation : ShapeViolation
  deriving DecidableEq, Repr

namespace Statement

/-- A member of a statement; `null` counts as absent. -/
def member? (fields : List (LooseText × Value)) (key : String) : Option Value :=
  match Value.field? fields key with
  | some .null => none
  | v => v

def readConnective (path : LooseText) : Option Value → Except ShapeError (Option Connective)
  | none => .ok none
  | some v =>
    match v.string?.bind Connective.ofName? with
    | some c => .ok (some c)
    | none => .error ⟨path ++ ".logicalOperator", .notConnective⟩

def readField (path : LooseText) : Option Value → Except ShapeError (Option LooseText)
  | none => .ok none
  | some (.text t) => .ok (some t)
  | some _ => .error ⟨path ++ ".field", .notText⟩

def readOperator (path : LooseText) : Option Value → Except ShapeError (Option Operator)
  | none => .ok none
  | some v =>
    match v.string?.bind Operator.ofName? with
    | some op => .ok (some op)
    | none => .error ⟨path ++ ".operator", .notOperator⟩

/-- A value is a text, or a number, which stands for its text. -/
def readValue (path : LooseText) : Option Value → Except ShapeError (Option LooseText)
  | none => .ok none
  | some (.text t) => .ok (some t)
  | some (.number n) => .ok (some n.text)
  | some _ => .error ⟨path ++ ".value", .notText⟩

def ofValue (path : LooseText) (v : Value) : Except ShapeError Statement :=
  match v with
  | .record fields => do
    let connective ← readConnective path (member? fields "logicalOperator")
    let field ← readField path (member? fields "field")
    let operator ← readOperator path (member? fields "operator")
    let value ← readValue path (member? fields "value")
    return ⟨connective, field, operator, value⟩
  | _ => .error ⟨path, .notStatement⟩

def memberOf (key : String) (text : Option LooseText) : List (LooseText × Value) :=
  text.toList.map fun t => (.ofString key, .text t)

def toValue (s : Statement) : Value :=
  .record <|
    memberOf "logicalOperator" (s.connective.map fun c => .ofString c.name) ++
    memberOf "field" s.field ++
    memberOf "operator" (s.operator.map fun op => .ofString op.name) ++
    memberOf "value" s.value

end Statement

namespace Group

def isOrdinal (key : LooseText) : Bool := Text.isDigits key.shown.toList

def ordinal (key : LooseText) : Number := .ofDecimal false (Text.digitsValue key.shown.toList) 0

/-- Entries by ascending ordinals; equal ones stay in the order given. -/
def sortOrdinals (entries : List (LooseText × Value)) : List (LooseText × Value) :=
  entries.mergeSort fun a b => (ordinal a.1).compare? (ordinal b.1) != some .gt

def readItems (path : LooseText) (index : Nat) : List Value → Except ShapeError Group
  | [] => .ok []
  | v :: rest => do
    let s ← Statement.ofValue (path ++ .ofString ("[" ++ toString index ++ "]")) v
    return s :: (← readItems path (index + 1) rest)

def readEntries (path : LooseText) : List (LooseText × Value) → Except ShapeError Group
  | [] => .ok []
  | (key, v) :: rest => do
    let s ← Statement.ofValue (path ++ "." ++ key) v
    return s :: (← readEntries path rest)

/-- Reads a group. Only the order of ordinals counts, and a record without entries is one empty
statement. -/
def ofValue (path : LooseText) (mayMiss : Bool) : Option Value → Except ShapeError Group
  | none | some .null =>
    if mayMiss then .ok [.empty] else .error ⟨path, .missingGroup⟩
  | some (.list items) => readItems path 0 items
  | some (.record fields) =>
    match fields.find? (!isOrdinal ·.1) with
    | some (key, _) => .error ⟨path ++ "." ++ key, .notOrdinal⟩
    | none =>
      if fields.isEmpty then .ok [.empty] else readEntries path (sortOrdinals fields)
  | some _ => .error ⟨path, .notGroup⟩

def toValue (g : Group) : Value := .list (g.map Statement.toValue)

end Group

namespace Rule

def ofValue : Value → Except ShapeError Rule
  | .record fields => do
    let condition ← Group.ofValue "$.if" false (Value.field? fields "if")
    let thenBranch ← Group.ofValue "$.then" false (Value.field? fields "then")
    let elseBranch ← Group.ofValue "$.else" true (Value.field? fields "else")
    return ⟨condition, thenBranch, elseBranch⟩
  | _ => .error ⟨"$", .notObject⟩

def toValue (r : Rule) : Value :=
  .record (GroupName.all.map fun name => (name.text, (r.group name).toValue))

end Rule

end Rulebook
