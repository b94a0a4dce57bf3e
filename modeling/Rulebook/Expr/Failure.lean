import Rulebook.Expr.Token
import Rulebook.Text.Loose

/-! Why a text is not a rule: what was expected at which byte, and what stood there. -/

namespace Rulebook.Expr

/-- What was expected. Nothing is found where the text ends. -/
inductive Expected where
  | pattern (p : Pattern) (found : Option LooseText)
  | word (w : String) (found : Option String)
  | mark (c : Char) (found : Option String)
  | blank
  | ending (found : Char)
  deriving DecidableEq, Repr

/-- The first thing that was missing, `offset` bytes behind the start of the text. -/
structure Failure where
  offset : Nat
  expected : Expected
  deriving DecidableEq, Repr

namespace Failure

def text (f : Failure) : LooseText :=
  let place := "(position " ++ toString f.offset ++ "): "
  match f.expected with
  | .pattern p found =>
    let head := "ParseError " ++ place ++ "Expecting string matching '" ++ p.text ++ "', "
    match found with
    | some start => .ofString (head ++ "got '") ++ start ++ "...'"
    | none => .ofString (head ++ "but got end of input.")
  | .word w found =>
    let head := "ParseError " ++ place ++ "Expecting string '" ++ w ++ "', "
    match found with
    | some s => .ofString (head ++ "got '" ++ s ++ "...'")
    | none => .ofString (head ++ "but got end of input.")
  | .mark c found =>
    let head := "ParseError " ++ place ++ "Expecting character '" ++ c.toString ++ "', "
    match found with
    | some s => .ofString (head ++ "got '" ++ s ++ "'")
    | none => .ofString (head ++ "but got end of input.")
  | .blank =>
    .ofString ("ParseError 'many1' " ++ place ++ "Expecting to match at least one value")
  | .ending c =>
    .ofString ("ParseError 'endOfInput' " ++ place ++ "Expected end of input but got '" ++
      c.toString ++ "'")

def furthest (a b : Failure) : Failure := if a.offset < b.offset then b else a

end Failure

inductive Refusal where
  | empty
  | failed (f : Failure)
  deriving DecidableEq, Repr

def Refusal.text : Refusal → LooseText
  | .empty => .ofString "Empty rule expression"
  | .failed f => f.text

end Rulebook.Expr
