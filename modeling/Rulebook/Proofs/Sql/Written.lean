import Rulebook.Filter.Sql
import Rulebook.Proofs.Sql.Precedence

/-! What the condition of a filter is written as: comparisons and empty groups, and the connectives
and parentheses around them. The parameters are those of the comparisons, in the same order. -/

namespace Rulebook

namespace Filter
open Sql

theorem induct {P : Filter → Prop} (leaf : ∀ field op value, P (.leaf field op value))
    (group : ∀ kind clauses, (∀ f ∈ clauses, P f) → P (.group kind clauses)) : ∀ f, P f
  | .leaf field op value => leaf field op value
  | .group kind clauses => group kind clauses fun f _ => induct leaf group f

def joining : Joining Filter where
  combine
    | _, [f] => f
    | kind, clauses => .group kind clauses
  combine_single _ _ := rfl

mutual

/-- The filter without its groups of one clause. -/
def collapse : Filter → Filter
  | .leaf field op value => .leaf field op value
  | .group kind clauses => joining.combine kind (collapseAll clauses)

def collapseAll : List Filter → List Filter
  | [] => []
  | clause :: clauses => collapse clause :: collapseAll clauses

end

def groupTokens (kind : Connective) : List (List (Token Filter)) → List (Token Filter)
  | [] => [.operand (.group kind [])]
  | [ts] => ts
  | tss => grouped kind tss

mutual

def tokens : Filter → List (Token Filter)
  | .leaf field op value => [.operand (.leaf field op value)]
  | .group kind clauses => groupTokens kind (tokensAll clauses)

def tokensAll : List Filter → List (List (Token Filter))
  | [] => []
  | clause :: clauses => tokens clause :: tokensAll clauses

end

theorem collapseAll_eq_map (clauses : List Filter) : collapseAll clauses = clauses.map collapse := by
  induction clauses with
  | nil => rfl
  | cons clause clauses ih => rw [collapseAll, ih, List.map_cons]

theorem tokensAll_eq_map (clauses : List Filter) : tokensAll clauses = clauses.map tokens := by
  induction clauses with
  | nil => rfl
  | cons clause clauses ih => rw [tokensAll, ih, List.map_cons]

/-- Read with precedence the tokens of a filter are the filter, up to groups of one clause. -/
theorem resolves_tokens (f : Filter) : Resolves joining f.tokens f.collapse := by
  induction f using induct with
  | leaf field op value => exact resolves_operand _
  | group kind clauses ih =>
    have hall : List.Forall₂ (Resolves joining) (clauses.map tokens) (clauses.map collapse) := by
      simpa [List.forall₂_same] using ih
    rw [tokens, collapse, tokensAll_eq_map, collapseAll_eq_map]
    match clauses, hall with
    | [], _ => exact resolves_operand _
    | [clause], .cons h .nil => exact h
    | first :: second :: rest, hall => exact resolves_grouped kind hall (by simp)

def IsOperand : Filter → Prop
  | .leaf field op value => ∃ c, leafSql quotedName field op value = .ok c
  | .group _ clauses => clauses = []

theorem IsOperand.exists_list {field : String} {value : Value}
    (h : (leaf field .isIn value).IsOperand) : ∃ v vs, value = .list (v :: vs) := by
  obtain ⟨c, hc⟩ := h
  cases value with
  | list values => cases values with
    | nil => cases hc
    | cons v vs => exact ⟨v, vs, rfl⟩
  | _ => cases hc

end Filter

namespace Sql
open Rulebook.Filter

def Token.written : Token Filter → SqlCondition
  | .operand f => f.toSql.toOption.getD ⟨"", []⟩
  | .joint c => ⟨joiner c, []⟩
  | .opening => ⟨"(", []⟩
  | .closing => ⟨")", []⟩

def textOf (ts : List (Token Filter)) : List Char := ts.flatMap (·.written.sql.toList)

def paramsOf (ts : List (Token Filter)) : List Value := ts.flatMap (·.written.params)

@[simp] theorem textOf_cons (t : Token Filter) (ts : List (Token Filter)) :
    textOf (t :: ts) = t.written.sql.toList ++ textOf ts := List.flatMap_cons

@[simp] theorem paramsOf_cons (t : Token Filter) (ts : List (Token Filter)) :
    paramsOf (t :: ts) = t.written.params ++ paramsOf ts := List.flatMap_cons

structure Writes (c : SqlCondition) (ts : List (Token Filter)) : Prop where
  sql : c.sql.toList = textOf ts
  params : c.params = paramsOf ts
  operands : ∀ f ∈ operands ts, f.IsOperand

theorem flatMap_intercalate {α β : Type} (g : α → List β) (sep : List α) (xss : List (List α)) :
    (sep.intercalate xss).flatMap g = (sep.flatMap g).intercalate (xss.map (·.flatMap g)) := by
  induction xss with
  | nil => rfl
  | cons xs xss ih =>
    cases xss with
    | nil => simp
    | cons ys xss =>
      rw [List.intercalate_cons_cons, List.flatMap_append, List.flatMap_append, ih]
      simp [List.intercalate_cons_cons]

theorem marks_cons_cons (v w : Value) (vs : List Value) :
    (String.intercalate ", " ((v :: w :: vs).map fun _ => "?")).toList =
      '?' :: ',' :: ' ' :: (String.intercalate ", " ((w :: vs).map fun _ => "?")).toList := by
  simp

theorem writes_operand {f : Filter} {c : SqlCondition} (h : f.toSql = .ok c) (hf : f.IsOperand) :
    Writes c [.operand f] where
  sql := by simp [textOf, Token.written, h, Except.toOption]
  params := by simp [paramsOf, Token.written, h, Except.toOption]
  operands := by simpa [Sql.operands] using hf

theorem Writes.enclosed {c : SqlCondition} {ts : List (Token Filter)} (h : Writes c ts) :
    ("(" ++ c.sql ++ ")").toList = textOf (enclosed ts) := by
  simp [h.sql, textOf, Sql.enclosed, Token.written]

theorem textOf_grouped (kind : Connective) {parts : List SqlCondition}
    {tss : List (List (Token Filter))} (h : List.Forall₂ Writes parts tss) :
    (String.intercalate (joiner kind) (parts.map fun p => "(" ++ p.sql ++ ")")).toList =
      textOf (grouped kind tss) := by
  have hparts : parts.map (fun p => ("(" ++ p.sql ++ ")").toList) =
      tss.map fun ts => textOf (enclosed ts) := by
    induction h with
    | nil => rfl
    | cons hp _ ih => rw [List.map_cons, List.map_cons, hp.enclosed, ih]
  rw [String.toList_intercalate, List.map_map, textOf, grouped, flatMap_intercalate, List.map_map]
  exact congrArg₂ List.intercalate (by simp [Token.written]) hparts

theorem paramsOf_grouped (kind : Connective) {parts : List SqlCondition}
    {tss : List (List (Token Filter))} (h : List.Forall₂ Writes parts tss) :
    parts.flatMap (·.params) = paramsOf (grouped kind tss) := by
  induction h with
  | nil => rfl
  | cons hp hrest ih =>
    cases hrest with
    | nil => simp [grouped, paramsOf, Sql.enclosed, Token.written, hp.params]
    | cons hq hrest =>
      rw [List.flatMap_cons, ih, grouped_cons_cons]
      simp [paramsOf, Sql.enclosed, Token.written, hp.params]

theorem operands_grouped_of_writes (kind : Connective) {parts : List SqlCondition}
    {tss : List (List (Token Filter))} (h : List.Forall₂ Writes parts tss) :
    ∀ f ∈ operands (grouped kind tss), f.IsOperand := by
  rw [operands_grouped]
  induction h with
  | nil => simp
  | cons hp _ ih =>
    intro f hf
    rw [List.flatMap_cons, List.mem_append] at hf
    exact hf.elim (hp.operands f) (ih f)

theorem writes_group (kind : Connective) {parts : List SqlCondition}
    {tss : List (List (Token Filter))} (h : List.Forall₂ Writes parts tss) :
    Writes (groupSql kind parts) (groupTokens kind tss) := by
  match parts, tss, h with
  | [], [], _ => exact writes_operand rfl rfl
  | [_], [_], .cons hp .nil => exact hp
  | _ :: _ :: _, _ :: _ :: _, h =>
    exact ⟨textOf_grouped kind h, paramsOf_grouped kind h, operands_grouped_of_writes kind h⟩

theorem forall₂_of_renderAll {column : String → String} {clauses : List Filter}
    {parts : List SqlCondition} (h : renderAll column clauses = .ok parts) :
    List.Forall₂ (fun f c => f.render column = .ok c) clauses parts := by
  induction clauses generalizing parts with
  | nil =>
    cases h
    exact .nil
  | cons clause clauses ih =>
    rw [renderAll] at h
    cases hpart : clause.render column with
    | error e => rw [hpart] at h; cases h
    | ok part =>
      cases hrest : renderAll column clauses with
      | error e => rw [hpart, hrest] at h; cases h
      | ok rest =>
        rw [hpart, hrest] at h
        cases h
        exact .cons hpart (ih hrest)

theorem of_render_group {column : String → String} {kind : Connective} {clauses : List Filter}
    {c : SqlCondition} (h : (Filter.group kind clauses).render column = .ok c) :
    ∃ parts, List.Forall₂ (fun f c => f.render column = .ok c) clauses parts ∧
      c = groupSql kind parts := by
  rw [render] at h
  cases hparts : renderAll column clauses with
  | error e => rw [hparts] at h; cases h
  | ok parts =>
    rw [hparts] at h
    cases h
    exact ⟨parts, forall₂_of_renderAll hparts, rfl⟩

theorem writes_tokens {f : Filter} {c : SqlCondition} (h : f.toSql = .ok c) :
    Writes c f.tokens := by
  induction f using induct generalizing c with
  | leaf field op value => exact writes_operand h ⟨c, h⟩
  | group kind clauses ih =>
    obtain ⟨parts, hparts, rfl⟩ := of_render_group h
    rw [tokens, tokensAll_eq_map]
    refine writes_group kind (List.forall₂_map_right_iff.2 ?_)
    clear h
    induction hparts with
    | nil => exact .nil
    | cons hpart _ ihp =>
      exact .cons (ih _ (by simp) hpart) (ihp fun f hf => ih f (by simp [hf]))

end Sql

end Rulebook
