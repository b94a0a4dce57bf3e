import Rulebook.Proofs.Expr.Completeness
import Rulebook.Proofs.Expr.Spelled
import Rulebook.Proofs.Filter.Chain

/-! The values of a condition and its text are apart: the literals of a rule are the parameters, in
the order of the text, and the text is the same whatever they say. -/

namespace Rulebook

namespace Filter
open Sql

theorem exists_renderAll {column : String → String} {clauses : List Filter}
    (h : ∀ f ∈ clauses, ∃ c, f.render column = .ok c) :
    ∃ parts, renderAll column clauses = .ok parts := by
  induction clauses with
  | nil => exact ⟨[], rfl⟩
  | cons clause clauses ih =>
    obtain ⟨part, hpart⟩ := h clause (by simp)
    obtain ⟨parts, hparts⟩ := ih fun f hf => h f (by simp [hf])
    exact ⟨part :: parts, by rw [renderAll, hpart, hparts]; rfl⟩

theorem exists_toSql {f : Filter} (h : ∀ g ∈ operands f.tokens, g.IsOperand) :
    ∃ c, f.toSql = .ok c := by
  induction f using induct with
  | leaf field op value => exact h (.leaf field op value) (by simp [tokens, operands])
  | group kind clauses ih =>
    have hclauses : ∀ f ∈ clauses, ∃ c, f.toSql = .ok c := by
      intro f hf
      refine ih f hf fun g hg => h g ?_
      rw [operands_group kind (List.ne_nil_of_mem hf)]
      exact List.mem_flatMap.2 ⟨f, hf, hg⟩
    obtain ⟨parts, hparts⟩ := exists_renderAll hclauses
    exact ⟨groupSql kind parts, by rw [toSql, render, hparts]; rfl⟩

/-- Nothing in the place of every value; of a list its length is kept. -/
def blankValue : Value → Value
  | .list values => .list (values.map fun _ => .null)
  | _ => .null

mutual

def outline : Filter → Filter
  | .leaf field op value => .leaf field op (blankValue value)
  | .group kind clauses => .group kind (outlineAll clauses)

def outlineAll : List Filter → List Filter
  | [] => []
  | clause :: clauses => outline clause :: outlineAll clauses

end

theorem outlineAll_eq_map (clauses : List Filter) : outlineAll clauses = clauses.map outline := by
  induction clauses with
  | nil => rfl
  | cons clause clauses ih => rw [outlineAll, ih, List.map_cons]

theorem outline_clausesFor (kind : Connective) (f : Filter) :
    f.outline.clausesFor kind = (f.clausesFor kind).map outline := by
  cases f with
  | leaf field op value => rfl
  | group k clauses =>
    rw [outline, clausesFor, clausesFor]
    split
    · exact outlineAll_eq_map clauses
    · rfl

theorem outline_join (kind : Connective) (left right : Filter) :
    (left.join kind right).outline = left.outline.join kind right.outline := by
  rw [join, join, outline, outlineAll_eq_map, List.map_append, outline_clausesFor,
    outline_clausesFor]

def IsUnmarked : Filter → Prop
  | .leaf field _ _ => '?' ∉ field.toList
  | .group .. => True

theorem count_quotedName {n : String} (h : '?' ∉ n.toList) :
    (quotedName n).toList.count '?' = 0 := by
  rw [List.count_eq_zero]
  intro hm
  have hname : '?' ∈ n.toList.flatMap fun c => if c = '"' then ['"', '"'] else [c] := by
    simpa [quotedName] using hm
  obtain ⟨c, hc, hmem⟩ := List.mem_flatMap.1 hname
  split at hmem
  · simp at hmem
  · rw [List.mem_singleton] at hmem
    exact h (hmem ▸ hc)

theorem count_compareSql {n : String} (sign : String) (value : Value) (h : '?' ∉ n.toList)
    (hsign : sign.toList.count '?' = 0) :
    (compareSql (quotedName n) sign value).sql.toList.count '?' = 1 := by
  simp [compareSql, count_quotedName h, hsign]

theorem count_marks (v : Value) (vs : List Value) :
    (String.intercalate ", " ((v :: vs).map fun _ => "?")).toList.count '?' = vs.length + 1 := by
  induction vs generalizing v with
  | nil => simp
  | cons w vs ih =>
    rw [marks_cons_cons, List.count_cons_self, List.count_cons_of_ne (by decide),
      List.count_cons_of_ne (by decide), ih]
    rfl

theorem count_written {f : Filter} (h : f.IsOperand) (hm : f.IsUnmarked) :
    (Token.operand f).written.sql.toList.count '?' = (Token.operand f).written.params.length := by
  cases f with
  | group kind clauses =>
    cases h
    cases kind <;> rfl
  | leaf n op v =>
    cases op with
    | equal => exact count_compareSql "=" v hm rfl
    | notEqual => exact count_compareSql "!=" v hm rfl
    | greater => exact count_compareSql ">" v hm rfl
    | less => exact count_compareSql "<" v hm rfl
    | like => exact count_compareSql "LIKE" v hm rfl
    | isIn =>
      obtain ⟨v, vs, rfl⟩ := h.exists_list
      have htext : (Token.operand (.leaf n .isIn (.list (v :: vs)))).written.sql =
          quotedName n ++ " IN (" ++ String.intercalate ", " ((v :: vs).map fun _ => "?") ++ ")" :=
        rfl
      have hopening : " IN (".toList.count '?' = 0 := rfl
      have hclosing : ")".toList.count '?' = 0 := rfl
      rw [htext, String.toList_append, String.toList_append, String.toList_append,
        List.count_append, List.count_append, List.count_append, count_quotedName hm, hopening,
        count_marks, hclosing, Nat.zero_add]
      rfl

theorem count_textOf {ts : List (Token Filter)}
    (h : ∀ f ∈ operands ts, f.IsOperand ∧ f.IsUnmarked) :
    (textOf ts).count '?' = (paramsOf ts).length := by
  induction ts with
  | nil => rfl
  | cons t ts ih =>
    have hrest := ih fun f hf => h f (mem_operands_cons t hf)
    rw [textOf_cons, paramsOf_cons, List.count_append, List.length_append, hrest]
    cases t with
    | operand f =>
      have hf := h f (by simp [operands])
      rw [count_written hf.1 hf.2]
    | joint c => cases c <;> rfl
    | opening => rfl
    | closing => rfl

theorem paramsOf_eq_operands (ts : List (Token Filter)) :
    paramsOf ts = (operands ts).flatMap fun f => (Token.operand f).written.params := by
  induction ts with
  | nil => rfl
  | cons t ts ih =>
    rw [paramsOf_cons, ih]
    cases t <;> simp [operands, Token.written]

end Filter

namespace Expr.Node
open Sql

/-- The literals that a test compares with. A part of a text may stand between any two others. -/
def testTexts : Node → List String
  | .comparison _ _ right _ => [right.raw]
  | .contains _ (.literal l) _ => ["%" ++ l.raw ++ "%"]
  | .contains _ (.members m) _ => Rule.memberTexts m
  | _ => []

def texts (n : Node) : List String := n.leaves.flatMap testTexts

theorem params_of_isTest {n : Node} (h : n.IsTest) :
    (Token.operand n.filter).written.params = n.testTexts.map fun t => .text (.ofString t) := by
  cases n with
  | comparison op left right source => cases op <;> rfl
  | contains target argument source =>
    cases argument with
    | literal l => rfl
    | members m =>
      obtain ⟨first, others, hitems⟩ := List.exists_cons_of_ne_nil h
      simp [filter, condition, Condition.build, filterPredicates, Token.written, Filter.toSql,
        Filter.render, Filter.leafSql, testTexts, Rule.memberTexts, hitems, Except.toOption]
  | _ => cases h

theorem isUnmarked_of_isNamedTest {n : Node} (h : n.IsNamedTest) : n.filter.IsUnmarked := by
  have hname : ∀ {s : String}, isName s = true → '?' ∉ s.toList := by
    intro s hs hm
    obtain ⟨c, u, hcu, hc, hu⟩ := isName_iff.1 hs
    rw [hcu, List.mem_cons] at hm
    obtain rfl | hm := hm
    · exact absurd hc (by decide)
    · exact absurd (hu _ hm) (by decide)
  cases n with
  | comparison op left right source => cases op <;> exact hname (h.named left rfl)
  | contains target argument source => cases argument <;> exact hname (h.named target rfl)
  | _ => cases h.isTest

/-- Two trees that differ in the literals alone, and in the texts they were read from. -/
inductive Alike : Node → Node → Prop
  | comparison (op : Comparator) {left left' : Field} (right right' : Literal)
      (source source' : String) (hname : left.name = left'.name) :
      Alike (.comparison op left right source) (.comparison op left' right' source')
  | containsLiteral {target target' : Field} (l l' : Literal) (source source' : String)
      (hname : target.name = target'.name) :
      Alike (.contains target (.literal l) source) (.contains target' (.literal l') source')
  | containsMembers {target target' : Field} {m m' : Members} (source source' : String)
      (hname : target.name = target'.name) (hlength : m.items.length = m'.items.length) :
      Alike (.contains target (.members m) source) (.contains target' (.members m') source')
  | logical (op : Connective) {left left' right right' : Node} (source source' : String)
      (hl : Alike left left') (hr : Alike right right') :
      Alike (.logical op left right source) (.logical op left' right' source')

theorem Alike.outline {n m : Node} (h : n.Alike m) : n.filter.outline = m.filter.outline := by
  induction h with
  | comparison op right right' source source' hname =>
    cases op <;> simp [filter, condition, Condition.build, Test.ofComparator, filterPredicates,
      Filter.outline, Filter.blankValue, hname]
  | containsLiteral l l' source source' hname =>
    simp [filter, condition, Condition.build, filterPredicates, Filter.outline, Filter.blankValue,
      hname]
  | containsMembers source source' hname hlength =>
    simp [filter, condition, Condition.build, filterPredicates, Filter.outline, Filter.blankValue,
      Rule.memberTexts, hname, hlength, Function.comp_def]
  | logical op source source' _ _ ihl ihr =>
    rw [filter_logical, filter_logical, Filter.outline_join, Filter.outline_join, ihl, ihr]

theorem isNamedTest_of_mem_leaves {n m : Node} (h : n.IsSpelled) (hm : m ∈ n.leaves) :
    m.IsNamedTest := by
  induction h with
  | test h =>
    rw [leaves_of_isTest h.isTest, List.mem_singleton] at hm
    exact hm ▸ h
  | join op _ _ hr ih =>
    rw [leaves, List.mem_append, leaves_of_isTest hr.isTest, List.mem_singleton] at hm
    exact hm.elim ih fun he => he ▸ hr

theorem toSql_of_isSpelled {n : Node} (h : n.IsSpelled) :
    ∃ sql, n.filter.toSql = .ok ⟨sql, n.texts.map fun t => .text (.ofString t)⟩ ∧
      sql.toList.count '?' = n.texts.length := by
  have hoperands := operands_of_isChain h.isChain
  have hall : ∀ f ∈ operands n.filter.tokens, f.IsOperand ∧ f.IsUnmarked := by
    intro f hf
    rw [hoperands] at hf
    obtain ⟨m, hm, rfl⟩ := List.mem_map.1 hf
    have htest := isNamedTest_of_mem_leaves h hm
    obtain ⟨-, -, -, -, hoperand⟩ := exists_leaf htest.isTest
    exact ⟨hoperand, isUnmarked_of_isNamedTest htest⟩
  obtain ⟨⟨sql, params⟩, hsql⟩ := Filter.exists_toSql fun f hf => (hall f hf).1
  have hwrites := writes_tokens hsql
  have hparams : params = n.texts.map fun t => .text (.ofString t) := by
    have htests : ∀ m ∈ n.leaves, (Token.operand m.filter).written.params =
        m.testTexts.map fun t => .text (.ofString t) :=
      fun m hm => params_of_isTest (isNamedTest_of_mem_leaves h hm).isTest
    rw [show params = _ from hwrites.params, Filter.paramsOf_eq_operands, hoperands,
      List.flatMap_map, texts, List.map_flatMap]
    exact List.flatMap_congr htests
  refine ⟨sql, by rw [hsql, hparams], ?_⟩
  have hcount := Filter.count_textOf hall
  rw [← hwrites.sql, ← hwrites.params, hparams, List.length_map] at hcount
  exact hcount

end Expr.Node

namespace Rule
open Rulebook.Expr

end Rule

end Rulebook
