import Rulebook.Filter.Build
import Rulebook.Proofs.Expr.Shape
import Rulebook.Proofs.Rule.Leaves
import Rulebook.Proofs.Sql.Written

/-! The filters of chains of tests. Joining filters loses no operand and keeps their order, and each
operand of the filter is the comparison of one test. -/

namespace Rulebook

namespace Filter
open Sql

/-- An empty group would vanish when it is joined with others. -/
def IsFilled : Filter → Prop
  | .leaf .. => True
  | .group _ clauses => clauses ≠ []

theorem operands_groupTokens (kind : Connective) {tss : List (List (Token Filter))}
    (h : tss ≠ []) : operands (groupTokens kind tss) = tss.flatMap operands := by
  match tss with
  | [ts] => simp [groupTokens]
  | _ :: _ :: _ => exact operands_grouped kind _

theorem operands_group (kind : Connective) {clauses : List Filter} (h : clauses ≠ []) :
    operands (group kind clauses).tokens = clauses.flatMap fun f => operands f.tokens := by
  rw [tokens, tokensAll_eq_map, operands_groupTokens kind (by simpa using h), List.flatMap_map]

theorem clausesFor_ne_nil (kind : Connective) {f : Filter} (h : f.IsFilled) :
    f.clausesFor kind ≠ [] := by
  cases f with
  | leaf field op value => exact List.cons_ne_nil _ _
  | group k clauses =>
    rw [clausesFor]
    split
    · exact h
    · exact List.cons_ne_nil _ _

theorem operands_clausesFor (kind : Connective) {f : Filter} (h : f.IsFilled) :
    (f.clausesFor kind).flatMap (fun g => operands g.tokens) = operands f.tokens := by
  cases f with
  | leaf field op value => simp [clausesFor]
  | group k clauses =>
    rw [clausesFor]
    split
    · rw [operands_group k h]
    · simp

theorem exists_clausesFor (f : Filter) : ∃ kind, f.clausesFor kind = [f] := by
  cases f with
  | leaf field op value => exact ⟨.and, rfl⟩
  | group kind clauses => cases kind with
    | and => exact ⟨.or, rfl⟩
    | or => exact ⟨.and, rfl⟩

variable {left right : Filter}

theorem isFilled_join (kind : Connective) (h : left.IsFilled) : (left.join kind right).IsFilled :=
  List.append_ne_nil_of_left_ne_nil (clausesFor_ne_nil kind h) _

theorem operands_join (kind : Connective) (hl : left.IsFilled) (hr : right.IsFilled) :
    operands (left.join kind right).tokens = operands left.tokens ++ operands right.tokens := by
  rw [join, operands_group kind (isFilled_join kind hl), List.flatMap_append,
    operands_clausesFor kind hl, operands_clausesFor kind hr]

end Filter

namespace Expr.Node
open Sql

def filter (n : Node) : Filter := n.condition.build filterPredicates

theorem filter_logical (op : Connective) (left right : Node) (source : String) :
    (logical op left right source).filter = left.filter.join op right.filter := by
  cases op <;> rfl

theorem leaves_of_isTest {n : Node} (h : n.IsTest) : n.leaves = [n] := by
  cases n with
  | logical => cases h
  | _ => rfl

theorem exists_leaf {n : Node} (h : n.IsTest) :
    ∃ field op value, n.filter = .leaf field op value ∧ Filter.IsOperand n.filter := by
  cases n with
  | comparison op left right source => cases op <;> exact ⟨_, _, _, rfl, _, rfl⟩
  | contains target argument source =>
    cases argument with
    | literal l => exact ⟨_, _, _, rfl, _, rfl⟩
    | members m =>
      obtain ⟨first, others, hitems⟩ := List.exists_cons_of_ne_nil h
      refine ⟨_, _, _, rfl, ?_⟩
      simp [filter, condition, Condition.build, filterPredicates, Filter.IsOperand, Filter.leafSql,
        Rule.memberTexts, hitems]
  | _ => cases h

theorem isFilled_of_isTest {n : Node} (h : n.IsTest) : n.filter.IsFilled := by
  obtain ⟨field, op, value, hleaf, -⟩ := exists_leaf h
  rw [hleaf]
  trivial

theorem tokens_of_isTest {n : Node} (h : n.IsTest) : n.filter.tokens = [.operand n.filter] := by
  obtain ⟨field, op, value, hleaf, -⟩ := exists_leaf h
  rw [hleaf]
  rfl

theorem clausesFor_of_isTest {n : Node} (h : n.IsTest) (kind : Connective) :
    n.filter.clausesFor kind = [n.filter] := by
  obtain ⟨field, op, value, hleaf, -⟩ := exists_leaf h
  rw [hleaf]
  rfl

theorem isFilled_of_isChain {n : Node} (h : n.IsChain) : n.filter.IsFilled := by
  induction h with
  | test h => exact isFilled_of_isTest h
  | join op source _ _ ih =>
    rw [filter_logical]
    exact Filter.isFilled_join op ih

theorem operands_of_isChain {n : Node} (h : n.IsChain) :
    operands n.filter.tokens = n.leaves.map filter := by
  induction h with
  | test h =>
    rw [tokens_of_isTest h, leaves_of_isTest h]
    rfl
  | join op source hl hr ih =>
    rw [filter_logical, Filter.operands_join op (isFilled_of_isChain hl) (isFilled_of_isTest hr), ih,
      tokens_of_isTest hr, leaves, leaves_of_isTest hr, List.map_append]
    rfl

end Expr.Node

end Rulebook
