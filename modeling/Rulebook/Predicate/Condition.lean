import Rulebook.Connective
import Rulebook.Predicate.Builder

/-! Conditions as trees of their own, before a builder gives them a meaning. -/

namespace Rulebook

inductive Test where
  | equal
  | notEqual
  | greaterThan
  | lessThan
  | like
  deriving DecidableEq, Repr, Inhabited

inductive Condition where
  | test (t : Test) (field literal : String)
  | isIn (field : String) (literals : List String)
  | join (c : Connective) (left right : Condition)
  | never
  deriving DecidableEq, Repr, Inhabited

namespace Condition

variable {P A : Type}

def build (b : PredicateBuilder P A) : Condition → P
  | .test .equal field literal => b.equal (b.handle field) literal
  | .test .notEqual field literal => b.notEqual (b.handle field) literal
  | .test .greaterThan field literal => b.greaterThan (b.handle field) literal
  | .test .lessThan field literal => b.lessThan (b.handle field) literal
  | .test .like field literal => b.like (b.handle field) literal
  | .isIn field literals => b.isIn (b.handle field) literals
  | .join .and left right => b.both (left.build b) (right.build b)
  | .join .or left right => b.either (left.build b) (right.build b)
  | .never => b.never

end Condition

end Rulebook
