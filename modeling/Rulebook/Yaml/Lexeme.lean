import Rulebook.Text.Units

/-! Lexemes of YAML documents, each with the place it stands at. -/

namespace Rulebook.Yaml

inductive Mark where
  /-- Spaces and tabs. -/
  | gap
  | comment
  | lineBreak
  | documentStart
  | dash
  | question
  | colon
  | comma
  | openList
  | closeList
  | openMap
  | closeMap
  | plain
  | single
  | double
  deriving DecidableEq, Repr

namespace Mark

def isSilent : Mark → Bool
  | .gap | .comment | .lineBreak => true
  | _ => false

end Mark

/-- A lexeme begins `offset` code units behind the start of the document. `indent` is the width of
the spaces, dashes and other block marks in front of the first content of its line. -/
structure Lexeme where
  mark : Mark
  text : List Char
  offset : Nat
  indent : Nat
  deriving DecidableEq, Repr

namespace Lexeme

def stop (x : Lexeme) : Nat := x.offset + Text.unitCount x.text

def isSilent (x : Lexeme) : Bool := x.mark.isSilent

def hasTab (x : Lexeme) : Bool := x.mark = .gap && x.text.contains '\t'

end Lexeme

/-- Where the next lexeme stands. `fresh` says that the line has no content yet. -/
structure Placement where
  offset : Nat
  indent : Nat
  fresh : Bool
  deriving DecidableEq, Repr

/-- The placement behind a lexeme. Only gaps that begin with a space count as indentation. -/
def Placement.after (p : Placement) (x : Lexeme) : Placement :=
  let width := if p.fresh then x.text.length else 0
  match x.mark with
  | .lineBreak => ⟨x.stop, 0, true⟩
  | .gap => ⟨x.stop, if x.text.head? = some ' ' then p.indent + width else p.indent, p.fresh⟩
  | .dash | .question | .colon => ⟨x.stop, p.indent + width, p.fresh⟩
  | _ => ⟨x.stop, p.indent, false⟩

/-- Gives every lexeme its place. A comment may not touch what stands in front of it. -/
def place (p : Placement) (separate : Bool) : List (Mark × List Char) → Option (List Lexeme)
  | [] => some []
  | (mark, text) :: rest =>
    if mark = .comment ∧ separate = false then none
    else do
      let x : Lexeme := ⟨mark, text, p.offset, p.indent⟩
      return x :: (← place (p.after x) mark.isSilent rest)

end Rulebook.Yaml
