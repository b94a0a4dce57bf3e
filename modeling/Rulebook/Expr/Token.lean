/-! The tokens of rule texts that are classes of texts, and the characters they are made of. -/

namespace Rulebook.Expr

def isBare (c : Char) : Bool := c.isAlphanum || c == '_' || c == '.' || c == '-'

def isNameStart (c : Char) : Bool := c.isAlpha || c == '_'

def isNameRest (c : Char) : Bool := c.isAlphanum || c == '_'

theorem isNameRest_of_isNameStart {c : Char} (h : isNameStart c = true) : isNameRest c = true := by
  simp only [isNameStart, isNameRest, Char.isAlphanum, Bool.or_eq_true] at *
  exact h.imp_left .inl

inductive Pattern where
  | quotedLiteral
  | bareLiteral
  | name
  deriving DecidableEq, Repr

namespace Pattern

def text : Pattern → String
  | .quotedLiteral => "/^'[^']*'/"
  | .bareLiteral => "/^[A-Za-z0-9_.\\-]+/"
  | .name => "/^[A-Za-z_][A-Za-z0-9_]*/"

/-- The longest beginning of a text that belongs to a class. Quoted literals have no escapes. -/
def match? : Pattern → List Char → Option (List Char)
  | .quotedLiteral, '\'' :: s =>
    match s.dropWhile (· != '\'') with
    | [] => none
    | _ :: _ => some ('\'' :: s.takeWhile (· != '\'') ++ ['\''])
  | .quotedLiteral, _ => none
  | .bareLiteral, s =>
    match s.takeWhile isBare with
    | [] => none
    | token => some token
  | .name, c :: s => if isNameStart c then some (c :: s.takeWhile isNameRest) else none
  | .name, [] => none

end Pattern

def isName (s : String) : Bool :=
  match s.toList with
  | [] => false
  | c :: rest => isNameStart c && rest.all isNameRest

end Rulebook.Expr
