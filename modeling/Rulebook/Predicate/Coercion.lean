import Rulebook.Number.Text

/-! What a literal means beside a typed attribute: a truth value, a number, or its own text. -/

namespace Rulebook

inductive Coerced where
  | bool (b : Bool)
  | number (n : Number)
  | text (s : String)
  deriving DecidableEq, Repr

/-- The letters of a text in lower case. No letter outside ASCII turns into an ASCII letter of
`true` or `false`. -/
def lowerLetters (s : String) : List Char := s.toList.map Char.toLower

/-- `true` and `false` in any case are truth values, plain decimals are numbers. -/
def coerce (literal : String) : Coerced :=
  if lowerLetters literal = "true".toList then .bool true
  else if lowerLetters literal = "false".toList then .bool false
  else
    match Number.ofPlain? literal with
    | some n => .number n
    | none => .text literal

example : coerce "TRUE" = .bool true := by decide
example : coerce "1." = .text "1." := by decide

end Rulebook
