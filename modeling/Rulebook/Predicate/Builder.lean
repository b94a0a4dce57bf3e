/-! What an extractor needs to compose a predicate: a handle for an attribute name, and a predicate
for each kind of condition over handles and literals. -/

namespace Rulebook

structure PredicateBuilder (P A : Type) where
  handle : String → A
  equal : A → String → P
  notEqual : A → String → P
  greaterThan : A → String → P
  lessThan : A → String → P
  /-- The pattern is one of `LIKE`: a percent sign takes any run, an underscore one unit. -/
  like : A → String → P
  /-- The attribute is one of the values. -/
  isIn : A → List String → P
  both : P → P → P
  either : P → P → P
  /-- A condition that never holds. -/
  never : P

/-- Builds nothing, for readers who want the structured rule alone. -/
def noPredicates : PredicateBuilder Unit Unit where
  handle _ := ()
  equal _ _ := ()
  notEqual _ _ := ()
  greaterThan _ _ := ()
  lessThan _ _ := ()
  like _ _ := ()
  isIn _ _ := ()
  both _ _ := ()
  either _ _ := ()
  never := ()

end Rulebook
