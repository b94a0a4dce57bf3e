import Rulebook.Filter.Build
import Rulebook.Proofs.Predicate.ShortCircuit
import Rulebook.Proofs.Rule.Walk

/-! Filters judge entities too. Groups of one kind are one group in a filter and nested pairs in a
predicate, and an empty `or` may be gone from a filter; neither changes an outcome. -/

namespace Rulebook

namespace Filter

variable (entity : Entity)

/-- A comparison is the predicate that its operator stands for, asked for the texts it compares
with. A value of another kind is never met. -/
def leafHolds (field : String) (op : FilterOp) (value : Value) : EntityPredicate :=
  let read := entityPredicates.handle field
  match op, value with
  | .equal, .text t => entityPredicates.equal read t.shown
  | .notEqual, .text t => entityPredicates.notEqual read t.shown
  | .greater, .text t => entityPredicates.greaterThan read t.shown
  | .less, .text t => entityPredicates.lessThan read t.shown
  | .like, .text t => entityPredicates.like read t.shown
  | .isIn, .list values =>
    entityPredicates.isIn read (values.filterMap fun v => v.text?.map (·.shown))
  | _, _ => entityPredicates.never

mutual

/-- The outcome of a filter for an entity. The clauses of a group are judged from left to right up
to the first that settles it. -/
def holds : Filter → Judgement
  | .leaf field op value => leafHolds field op value entity
  | .group kind clauses => holdsGroup kind clauses

def holdsGroup (kind : Connective) : List Filter → Judgement
  | [] => .ok !kind.settling
  | clause :: clauses => kind.shortCircuit (holds clause) (holdsGroup kind clauses)

end

variable (kind : Connective)

theorem holdsGroup_append (left right : List Filter) :
    holdsGroup entity kind (left ++ right) =
      kind.shortCircuit (holdsGroup entity kind left) (holdsGroup entity kind right) := by
  induction left with
  | nil => simp [holdsGroup]
  | cons clause left ih =>
    rw [List.cons_append, holdsGroup, ih, holdsGroup, Connective.shortCircuit_assoc]

theorem holdsGroup_singleton (f : Filter) : holdsGroup entity kind [f] = f.holds entity := by
  simp [holdsGroup]

theorem holdsGroup_clausesFor (f : Filter) :
    holdsGroup entity kind (f.clausesFor kind) = f.holds entity := by
  cases f with
  | leaf field op value => exact holdsGroup_singleton entity kind _
  | group k clauses =>
    by_cases hk : k = kind
    · rw [clausesFor, if_pos hk, holds, hk]
    · rw [clausesFor, if_neg hk, holdsGroup_singleton]

theorem holds_join (left right : Filter) :
    (left.join kind right).holds entity =
      kind.shortCircuit (left.holds entity) (right.holds entity) := by
  rw [join, holds, holdsGroup_append, holdsGroup_clausesFor, holdsGroup_clausesFor]

theorem holds_none : none.holds entity = .ok false := by
  rw [none, holds, holdsGroup]
  rfl

end Filter

namespace Condition

theorem holds_test (t : Test) (field literal : String) (entity : Entity) :
    ((test t field literal).build filterPredicates).holds entity =
      (test t field literal).build entityPredicates entity := by
  cases t <;> simp [build, filterPredicates, Filter.holds, Filter.leafHolds]

theorem holds_isIn (field : String) (literals : List String) (entity : Entity) :
    ((isIn field literals).build filterPredicates).holds entity =
      (isIn field literals).build entityPredicates entity := by
  have htext : (fun v : Value => v.text?.map (·.shown)) ∘
      (fun v : String => Value.text (.ofString v)) = some := by
    funext v
    simp [Value.text?]
  have htexts : (literals.map fun v => Value.text (.ofString v)).filterMap
      (fun v => v.text?.map (·.shown)) = literals := by
    rw [List.filterMap_map, htext, List.filterMap_some]
  simp only [build, filterPredicates, Filter.holds, Filter.leafHolds, htexts]

theorem holds_build (c : Condition) (entity : Entity) :
    (c.build filterPredicates).holds entity = c.build entityPredicates entity := by
  induction c with
  | test t field literal => exact holds_test t field literal entity
  | isIn field literals => exact holds_isIn field literals entity
  | never => exact Filter.holds_none entity
  | join op left right ihl ihr =>
    rw [build_join, ← ihl, ← ihr]
    cases op <;> exact Filter.holds_join entity _ _ _

end Condition

namespace Rule
open Rulebook.Expr

/-- The predicate and the filter that are made of one tree, whatever its nodes are, judge every
entity alike, errors included. -/
theorem extractWith_agree (condition thenBranch elseBranch : Node) (entity : Entity) :
    (extractWith entityPredicates condition thenBranch elseBranch).2 entity =
      (extractWith filterPredicates condition thenBranch elseBranch).2.holds entity := by
  simp only [extractWith, walk_predicate]
  exact (condition.condition.holds_build entity).symm

end Rule

end Rulebook
