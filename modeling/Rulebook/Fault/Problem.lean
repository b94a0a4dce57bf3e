import Rulebook.Evaluate
import Rulebook.Fault.Definitions
import Rulebook.Filter.Sql
import Rulebook.Rule.OfValue
import Rulebook.Rule.Written
import Rulebook.RulesFile.Find

/-! Everything that can go wrong in a command, and the fault it is reported as. -/

namespace Rulebook

inductive EntityViolation where
  | malformed
  | notObject
  deriving DecidableEq, Repr

def EntityViolation.text : EntityViolation → String
  | .malformed => "malformed JSON"
  | .notObject => "expected a JSON object"

inductive DocumentViolation where
  | malformed
  | unreadable
  deriving DecidableEq, Repr

def DocumentViolation.text : DocumentViolation → String
  | .malformed => "malformed JSON"
  | .unreadable => "cannot be read"

inductive Problem where
  | refused (e : Expr.SyntaxError)
  | unsafeText (u : UnsafeText)
  | shape (e : ShapeError)
  | invalidList (e : InvalidList)
  | config (e : ConfigError)
  | entity (v : EntityViolation)
  | fileNotFound (file : String)
  | document (file : String) (v : DocumentViolation)
  | incompleteRule (file : String)
  | missingTable
  /-- An attribute that cannot be turned into text. -/
  | unprintable
  deriving DecidableEq, Repr

/-- Failures below a command that have no definition of their own. -/
inductive OutsideCause where
  | malformedDocument (e : ReadError)
  | malformedJson
  | unreadableFile
  deriving DecidableEq, Repr

inductive Detail where
  | text (t : LooseText)
  | count (n : Nat)
  deriving DecidableEq, Repr

namespace Detail

def ofString (s : String) : Detail := .text (.ofString s)

def display : Detail → LooseText
  | .text t => t
  | .count n => .ofString (toString n)

def value : Detail → Value
  | .text t => .text t
  | .count n => .number (.ofNat n)

end Detail

namespace Problem

def details? : Problem → Option (Definition × List (String × Detail))
  | .refused e =>
    some (.invalidSyntax,
      [("expression", .ofString e.expression), ("reason", .text e.refusal.text),
        ("index", .count e.index)])
  | .unsafeText (.literal value) => some (.unsafeLiteral, [("value", .text value)])
  | .unsafeText (.field name) => some (.unsafeField, [("field", .text name)])
  | .shape e =>
    some (.invalidShape, [("path", .text e.path), ("reason", .ofString e.violation.text)])
  | .invalidList e =>
    some (.invalidFilterValue,
      [("field", .ofString e.field), ("op", .ofString FilterOp.isIn.name),
        ("expected", .ofString "a non-empty list")])
  | .config (.notFound searched) => some (.configNotFound, [("searched", .ofString searched)])
  | .config (.invalid file v) =>
    some (.invalidConfig, [("file", .ofString file), ("reason", .text v.text)])
  | .config (.unreadable _) => none
  | .entity v => some (.invalidEntity, [("reason", .ofString v.text)])
  | .fileNotFound file => some (.fileNotFound, [("file", .ofString file)])
  | .document file v =>
    some (.invalidRuleFile, [("file", .ofString file), ("reason", .ofString v.text)])
  | .incompleteRule file => some (.incompleteRule, [("file", .ofString file)])
  | .missingTable => some (.missingTable, [])
  | .unprintable => none

def cause? : Problem → Option OutsideCause
  | .config (.invalid _ (.malformed e)) => some (.malformedDocument e)
  | .entity .malformed => some .malformedJson
  | .document _ .malformed => some .malformedJson
  | .document _ .unreadable => some .unreadableFile
  | _ => none

def report? (p : Problem) : Option Report :=
  p.details?.map fun (d, details) =>
    let member (name : String) : LooseText :=
      ((Value.field? details name).map Detail.display).getD "undefined"
    let message := Id.run (MessagePart.fill (m := Id) member d.message)
    ⟨d.domain, d.fullCode, message, details.map fun f => (.ofString f.1, f.2.value), d.facetNames⟩

def ofEvaluation : EvaluationError → Problem
  | .refused e => .refused e
  | .unprintable => .unprintable

end Problem

end Rulebook
