import Rulebook.Predicate.OnEntity
import Rulebook.Rule.Extract

/-! The value a rule gives an entity. -/

namespace Rulebook

inductive EvaluationError where
  | refused (e : Expr.SyntaxError)
  | unprintable
  deriving DecidableEq, Repr

/-- The value of the branch that the condition picks; none for a bare `null`. -/
def Expr.Conditional.evaluate (c : Expr.Conditional) (entity : Entity) :
    Except Value.Unprintable (Option String) := do
  let holds ← Rule.predicateOf entityPredicates c entity
  return (if holds then c.thenBranch else c.elseBranch).value?

def evaluate (text : String) (entity : Entity) : Except EvaluationError (Option String) :=
  match Expr.parse text with
  | .error e => .error (.refused e)
  | .ok c =>
    match c.evaluate entity with
    | .error _ => .error .unprintable
    | .ok v => .ok v

end Rulebook
