import Rulebook.Fault.Problem
import Rulebook.Filter.Build
import Rulebook.Fragment
import Rulebook.Rule.Shown

/-! The commands: each takes its options, the files there are and the directory it runs in, and
gives the text it prints. -/

namespace Rulebook

structure Workplace where
  files : FileTree
  directory : Path
  deriving DecidableEq, Repr, Inhabited

namespace Command

def parse (expression : String) (format : OutputFormat) : Except Problem String :=
  match Rule.read expression with
  | .ok r => .ok (r.shown format)
  | .error e => .error (.refused e)

def filterOf (expression : String) : Except Problem Filter :=
  match Expr.parse expression with
  | .ok c => .ok (Rule.predicateOf filterPredicates c)
  | .error e => .error (.refused e)

def showCondition (format : OutputFormat) (c : SqlCondition) : String :=
  match format with
  | .text => c.text
  | .json => Json.pretty c.toValue

def whereClause (expression : String) (format : OutputFormat) : Except Problem String := do
  let filter ← filterOf expression
  match filter.toSql with
  | .ok c => return showCondition format c
  | .error e => .error (.invalidList e)

def readDocument (w : Workplace) (file : String) : Except Problem Value :=
  match w.files.entry? (w.directory.resolve file) with
  | none => .error (.fileNotFound file)
  | some .directory => .error (.document file .unreadable)
  | some (.file content) =>
    match Json.read? content with
    | some v => .ok v
    | none => .error (.document file .malformed)

def format (w : Workplace) (file : String) : Except Problem String := do
  let v ← readDocument w file
  let rule ← (Rule.ofValue v).mapError .shape
  let text ← rule.write.mapError .unsafeText
  if text = "" then .error (.incompleteRule file) else return text

/-- The `CASE WHEN` fragment of a rule. Without a table the one of the rules file is taken. -/
def sql (read : DocumentReader) (w : Workplace) (expression : String)
    (table config : Option String) : Except Problem String := do
  let chosen ←
    match table with
    | some t => pure (some t)
    | none =>
      let found ← (RulesConfig.resolve read w.files w.directory config).mapError .config
      pure (found.bind fun c => c.contents.table.map LooseText.shown)
  match chosen with
  | some t => (Fragment.ofText expression t).mapError .refused
  | none => .error .missingTable

structure CheckReport where
  output : String
  failures : Nat
  deriving DecidableEq, Repr

def syntaxProblem? (expression : String) : Option String :=
  match Expr.parse expression with
  | .ok _ => none
  | .error e => some (e.refusal.text.shown ++ " (at position " ++ toString e.index ++ ")")

def checkLine (rule : NamedRule) : String :=
  match syntaxProblem? rule.expression.shown with
  | none => "✓ " ++ rule.name.shown
  | some problem => "✗ " ++ rule.name.shown ++ ": " ++ problem

def checkRules (rules : List NamedRule) : CheckReport :=
  let failures := rules.countP fun rule => (syntaxProblem? rule.expression.shown).isSome
  let count := toString (rules.length - failures) ++ " of " ++ toString rules.length ++ " rule" ++
    (if rules.length = 1 then "" else "s") ++ " valid"
  ⟨String.intercalate "\n" (rules.map checkLine ++ [count]), failures⟩

def checkExpression (expression : String) : CheckReport :=
  match syntaxProblem? expression with
  | none => ⟨"✓ valid", 0⟩
  | some problem => ⟨"✗ " ++ problem, 1⟩

def check (read : DocumentReader) (w : Workplace) (expression config : Option String) :
    Except Problem CheckReport :=
  match expression with
  | some e => .ok (checkExpression e)
  | none => do
    let found ← (RulesConfig.require read w.files w.directory config).mapError .config
    return checkRules found.contents.rules

def readEntity (json : String) : Except Problem Entity :=
  match Json.read? json with
  | none => .error (.entity .malformed)
  | some (.record fields) => .ok fields
  | some _ => .error (.entity .notObject)

def eval (expression entity : String) : Except Problem String := do
  let fields ← readEntity entity
  let value ← (evaluate expression fields).mapError .ofEvaluation
  return value.getD "null"

end Command

end Rulebook
