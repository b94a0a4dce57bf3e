import Rulebook.Filter.Build
import Rulebook.Predicate.Condition

/-! Flat filters: no group stands in a group of its own kind, and an `and` joins at least two
clauses. Joining keeps filters flat and keeps their comparisons in order, so the filter of a
condition is flat and compares what the condition does. -/

namespace Rulebook

namespace Filter

structure Leaf where
  field : String
  op : FilterOp
  value : Value
  deriving Repr

mutual

def leaves : Filter → List Leaf
  | .leaf field op value => [⟨field, op, value⟩]
  | .group _ clauses => leavesAll clauses

def leavesAll : List Filter → List Leaf
  | [] => []
  | clause :: clauses => leaves clause ++ leavesAll clauses

end

theorem leavesAll_eq_flatMap (clauses : List Filter) :
    leavesAll clauses = clauses.flatMap leaves := by
  induction clauses with
  | nil => rfl
  | cons clause clauses ih => rw [leavesAll, ih, List.flatMap_cons]

def kind? : Filter → Option Connective
  | .leaf .. => Option.none
  | .group kind _ => some kind

/-- The clauses of every group are of another kind than the group, and those of an `and` are two at
least. -/
inductive IsFlat : Filter → Prop
  | leaf (field : String) (op : FilterOp) (value : Value) : IsFlat (.leaf field op value)
  | group {kind : Connective} {clauses : List Filter} (apart : ∀ f ∈ clauses, f.kind? ≠ some kind)
      (many : kind = .and → 2 ≤ clauses.length) (flat : ∀ f ∈ clauses, IsFlat f) :
      IsFlat (.group kind clauses)

theorem isFlat_none : IsFlat none := .group (by simp) (by simp) (by simp)

variable (kind : Connective)

theorem flatMap_leaves_clausesFor (f : Filter) : (f.clausesFor kind).flatMap leaves = f.leaves := by
  cases f with
  | leaf field op value => rfl
  | group k clauses =>
    rw [clausesFor]
    split
    · rw [leaves, leavesAll_eq_flatMap]
    · rw [List.flatMap_singleton]

variable {f : Filter}

theorem IsFlat.apart_clausesFor (h : f.IsFlat) : ∀ g ∈ f.clausesFor kind, g.kind? ≠ some kind := by
  cases h with
  | leaf field op value => simp [clausesFor, kind?]
  | group apart many flat =>
    rw [clausesFor]
    split
    case isTrue hkind => exact hkind ▸ apart
    case isFalse hkind => simpa [kind?] using hkind

theorem IsFlat.flat_clausesFor (h : f.IsFlat) : ∀ g ∈ f.clausesFor kind, g.IsFlat := by
  cases h with
  | leaf field op value => simpa [clausesFor] using IsFlat.leaf field op value
  | group apart many flat =>
    rw [clausesFor]
    split
    · exact flat
    · simpa using IsFlat.group apart many flat

theorem IsFlat.clausesFor_and_ne_nil (h : f.IsFlat) : f.clausesFor .and ≠ [] := by
  cases h with
  | leaf field op value => exact List.cons_ne_nil _ _
  | group apart many flat =>
    rw [clausesFor]
    split
    case isTrue hkind => exact List.ne_nil_of_length_pos (Nat.lt_of_succ_lt (many hkind))
    case isFalse => exact List.cons_ne_nil _ _

variable {left right : Filter}

theorem leaves_join (left right : Filter) :
    (left.join kind right).leaves = left.leaves ++ right.leaves := by
  rw [join, leaves, leavesAll_eq_flatMap, List.flatMap_append, flatMap_leaves_clausesFor,
    flatMap_leaves_clausesFor]

theorem IsFlat.join (hl : left.IsFlat) (hr : right.IsFlat) : (left.join kind right).IsFlat := by
  refine .group (fun f hf => ?_) (fun hkind => ?_) fun f hf => ?_
  · exact (List.mem_append.1 hf).elim (hl.apart_clausesFor kind f) (hr.apart_clausesFor kind f)
  · have hleft := List.length_pos_iff.2 hl.clausesFor_and_ne_nil
    have hright := List.length_pos_iff.2 hr.clausesFor_and_ne_nil
    rw [hkind, List.length_append]
    omega
  · exact (List.mem_append.1 hf).elim (hl.flat_clausesFor kind f) (hr.flat_clausesFor kind f)

end Filter

def Test.filterOp : Test → FilterOp
  | .equal => .equal
  | .notEqual => .notEqual
  | .greaterThan => .greater
  | .lessThan => .less
  | .like => .like

namespace Condition

def comparisons : Condition → List Filter.Leaf
  | .test t field literal => [⟨field, t.filterOp, .text literal⟩]
  | .isIn field literals => [⟨field, .isIn, .list (literals.map fun v => .text (.ofString v))⟩]
  | .join _ left right => left.comparisons ++ right.comparisons
  | .never => []

theorem filter_join (op : Connective) (left right : Condition) :
    (join op left right).build filterPredicates =
      (left.build filterPredicates).join op (right.build filterPredicates) := by
  cases op <;> rfl

theorem leaves_build (c : Condition) : (c.build filterPredicates).leaves = c.comparisons := by
  induction c with
  | test t field literal => cases t <;> rfl
  | isIn field literals => rfl
  | never => rfl
  | join op left right ihl ihr => rw [filter_join, Filter.leaves_join, ihl, ihr, comparisons]

theorem isFlat_build (c : Condition) : (c.build filterPredicates).IsFlat := by
  induction c with
  | test t field literal => cases t <;> exact .leaf field _ _
  | isIn field literals => exact .leaf field _ _
  | never => exact Filter.isFlat_none
  | join op left right ihl ihr =>
    rw [filter_join]
    exact ihl.join op ihr

/-- The filter of a condition has the comparisons of the condition, each once and in order, and no
group of its own kind in a group. -/
theorem build_flattens (c : Condition) :
    (c.build filterPredicates).leaves = c.comparisons ∧ (c.build filterPredicates).IsFlat :=
  ⟨leaves_build c, isFlat_build c⟩

/-- A condition that never holds is gone from an `or`, which stays a group of its own. -/
example : ((join .and (test .equal "a" "1") (join .or never (test .equal "b" "2"))).build
    filterPredicates) = .group .and [.leaf "a" .equal (.text "1"),
      .group .or [.leaf "b" .equal (.text "2")]] := rfl

end Condition

end Rulebook
