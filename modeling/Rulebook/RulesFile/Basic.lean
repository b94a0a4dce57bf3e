import Rulebook.Value.Basic

/-! Rules files: named expressions, a version, and perhaps a table for the fragments. How the text
of a file is read as a document is left to its reader. -/

namespace Rulebook

/-- What a reader makes of a text. Some tags stand for a date, a set, an ordered mapping or bytes.
As a whole document such an object is `other`; inside one it reads as a record without fields, since
it has no member of a rules file. -/
inductive Document where
  | plain (v : Value)
  | other
  deriving Repr

/-- Whatever a reader stops with has a name and a message. -/
structure ReadError where
  name : LooseText
  message : LooseText
  deriving DecidableEq, Repr

abbrev DocumentReader := String → Except ReadError Document

structure NamedRule where
  name : LooseText
  expression : LooseText
  deriving DecidableEq, Repr, Inhabited

structure RulesFile where
  version : Number
  table : Option LooseText
  rules : List NamedRule
  deriving DecidableEq, Repr, Inhabited

inductive ConfigViolation where
  | malformed (e : ReadError)
  | notMapping
  | version
  | table
  | rules
  | rule (index : Nat)
  | duplicate (name : LooseText)
  deriving DecidableEq, Repr

def ConfigViolation.text : ConfigViolation → LooseText
  | .malformed e => e.message
  | .notMapping => "expected a mapping at the top level"
  | .version => "\"version\" must be a number"
  | .table => "\"table\" must be a string"
  | .rules => "\"rules\" must be a list"
  | .rule index =>
    .ofString ("rules[" ++ toString index ++ "] needs a string \"name\" and \"expression\"")
  | .duplicate name => "duplicate rule name \"" ++ name ++ "\""

namespace NamedRule

def ofValue? (v : Value) : Option NamedRule := do
  let fields ← v.record?
  let name ← (← Value.field? fields "name").text?
  let expression ← (← Value.field? fields "expression").text?
  return ⟨name, expression⟩

end NamedRule

namespace RulesFile

/-- Reads the entries from `index` on. No name is one of `seen` or comes twice. -/
def readRules (seen : List LooseText) (index : Nat) : List Value →
    Except ConfigViolation (List NamedRule)
  | [] => .ok []
  | v :: rest =>
    match NamedRule.ofValue? v with
    | none => .error (.rule index)
    | some rule =>
      if seen.contains rule.name then .error (.duplicate rule.name)
      else do return rule :: (← readRules (rule.name :: seen) (index + 1) rest)

def readVersion : Option Value → Except ConfigViolation Number
  | none => .ok (.ofNat 1)
  | some (.number n) => .ok n
  | some _ => .error .version

def readTable : Option Value → Except ConfigViolation (Option LooseText)
  | none => .ok none
  | some (.text t) => .ok (some t)
  | some _ => .error .table

def readList : Option Value → Except ConfigViolation (List Value)
  | none => .ok []
  | some (.list items) => .ok items
  | some _ => .error .rules

/-- Reads a rules file from a document. Absent members have defaults; `null` is not absent. -/
def ofValue : Value → Except ConfigViolation RulesFile
  | .record fields => do
    let version ← readVersion (Value.field? fields "version")
    let table ← readTable (Value.field? fields "table")
    let items ← readList (Value.field? fields "rules")
    let rules ← readRules [] 0 items
    return ⟨version, table, rules⟩
  | _ => .error .notMapping

/-- Objects of any kind pass for mappings, and `other` ones have no members. -/
def ofDocument : Document → Except ConfigViolation RulesFile
  | .plain v => ofValue v
  | .other => ofValue (.record [])

def ofText (read : DocumentReader) (content : String) : Except ConfigViolation RulesFile := do
  ofDocument (← (read content).mapError .malformed)

end RulesFile

end Rulebook
