import Rulebook.Filter.Basic
import Rulebook.Predicate.Builder

/-! Predicates as filter trees. -/

namespace Rulebook

def filterPredicates : PredicateBuilder Filter String where
  handle name := name
  equal field value := .leaf field .equal (.text value)
  notEqual field value := .leaf field .notEqual (.text value)
  greaterThan field value := .leaf field .greater (.text value)
  lessThan field value := .leaf field .less (.text value)
  like field pattern := .leaf field .like (.text pattern)
  isIn field values := .leaf field .isIn (.list (values.map fun v => .text (.ofString v)))
  both left right := left.join .and right
  either left right := left.join .or right
  never := .none

end Rulebook
