import Rulebook.Text.Units

/-! Regular expressions over code units. The notation is read as far as single units, the point, a
star behind either, the two anchors and escaped signs go; what else has a meaning of its own is
refused. -/

namespace Rulebook
namespace Regex

inductive Class where
  | only (u : UInt16)
  | any
  deriving DecidableEq, Repr

def signs : List Char := "^$\\.*+?()[]\x7b\x7d|".toList

def isSign (u : UInt16) : Bool := (Text.units signs).contains u

inductive Lexeme where
  | start
  | finish
  | star
  | takes (c : Class)
  deriving DecidableEq, Repr

def lexeme? : UInt16 → Option Lexeme
  | 0x5E => some .start -- `^`
  | 0x24 => some .finish -- `$`
  | 0x2A => some .star -- `*`
  | 0x2E => some (.takes .any) -- `.`
  | u => if isSign u then none else some (.takes (.only u))

/-- A backslash takes the meaning from the sign behind it. -/
def lexemes? : List UInt16 → Option (List Lexeme)
  | [] => some []
  | 0x5C :: u :: s => if isSign u then (lexemes? s).map (.takes (.only u) :: ·) else none
  | u :: s => do return (← lexeme? u) :: (← lexemes? s)

/-- The terms of an expression: anchors, and classes of which a star takes any number. -/
inductive Term where
  | start
  | finish
  | one (c : Class)
  | run (c : Class)
  deriving DecidableEq, Repr

/-- A star needs a class in front of it. -/
def terms? : List Lexeme → Option (List Term)
  | [] => some []
  | .start :: s => (terms? s).map (.start :: ·)
  | .finish :: s => (terms? s).map (.finish :: ·)
  | .takes c :: .star :: s => (terms? s).map (.run c :: ·)
  | .takes c :: s => (terms? s).map (.one c :: ·)
  | .star :: _ => none

end Regex

/-- An expression is its terms, and whether the point takes line breaks too. -/
structure Regex where
  terms : List Regex.Term
  dotAll : Bool
  deriving DecidableEq, Repr

namespace Regex

def ofSource? (dotAll : Bool) (source : List UInt16) : Option Regex :=
  ((lexemes? source).bind terms?).map (⟨·, dotAll⟩)

def isLineBreak (u : UInt16) : Bool := u == 0x0A || u == 0x0D || u == 0x2028 || u == 0x2029

def takes (dotAll : Bool) : Class → UInt16 → Bool
  | .only v, u => u == v
  | .any, u => dotAll || !isLineBreak u

/-- Whether a property holds behind some run of units that are taken, the empty one included. A
place is what is left behind it, and whether it is the beginning of the text. -/
def behindRun (takes : UInt16 → Bool) (holds : Bool → List UInt16 → Bool) :
    Bool → List UInt16 → Bool
  | first, [] => holds first []
  | first, u :: s => holds first (u :: s) || (takes u && behindRun takes holds false s)

def matchesFrom (dotAll : Bool) : List Term → Bool → List UInt16 → Bool
  | [], _, _ => true
  | .start :: p, first, s => first && matchesFrom dotAll p first s
  | .finish :: p, first, s => s.isEmpty && matchesFrom dotAll p first s
  | .one _ :: _, _, [] => false
  | .one c :: p, _, u :: s => takes dotAll c u && matchesFrom dotAll p false s
  | .run c :: p, first, s => behindRun (takes dotAll c) (matchesFrom dotAll p) first s

def test (r : Regex) (text : List UInt16) : Bool :=
  behindRun (fun _ => true) (matchesFrom r.dotAll r.terms) true text

example : (ofSource? false (Text.units "b.*$".toList)).map (·.test (Text.units "abc\nd".toList)) =
    some false := by decide

end Regex

end Rulebook
