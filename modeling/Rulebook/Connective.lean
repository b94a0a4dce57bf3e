/-! The two ways to join conditions. -/

namespace Rulebook

inductive Connective where
  | and
  | or
  deriving DecidableEq, Repr, Inhabited

namespace Connective

def name : Connective → String
  | .and => "and"
  | .or => "or"

def ofName? : String → Option Connective
  | "and" => some .and
  | "or" => some .or
  | _ => none

@[simp] theorem ofName?_name (c : Connective) : ofName? c.name = some c := by
  cases c <;> rfl

def joint (c : Connective) : String := " " ++ c.name ++ " "

end Connective

end Rulebook
