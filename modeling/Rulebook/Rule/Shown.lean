import Rulebook.Rule.OfValue
import Rulebook.Value.Json

/-! Structured rules as readers see them: a line for each statement, or a JSON document. -/

namespace Rulebook

inductive OutputFormat where
  | text
  | json
  deriving DecidableEq, Repr, Inhabited

def OutputFormat.ofName? : String → Option OutputFormat
  | "text" => some .text
  | "json" => some .json
  | _ => none

def Statement.shown (s : Statement) : String :=
  let parts := (s.connective.toList.map Connective.name) ++ (s.field.toList.map LooseText.shown) ++
    (s.operator.toList.map Operator.name) ++ (s.value.toList.map fun v => "'" ++ v.shown ++ "'")
  if parts.isEmpty then "(empty)" else String.intercalate " " parts

def Group.shownFrom (index : Nat) : Group → List String
  | [] => []
  | s :: g => ("  " ++ toString index ++ ": " ++ s.shown) :: shownFrom (index + 1) g

def Rule.shownText (r : Rule) : String :=
  String.intercalate "\n"
    (GroupName.all.flatMap fun name => (name.text ++ ":") :: Group.shownFrom 0 (r.group name))

def Rule.shown (format : OutputFormat) (r : Rule) : String :=
  match format with
  | .text => r.shownText
  | .json => Json.pretty r.toValue

end Rulebook
