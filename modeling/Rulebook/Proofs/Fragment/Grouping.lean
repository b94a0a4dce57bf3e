import Rulebook.Fragment
import Rulebook.Proofs.Filter.Values
import Rulebook.Proofs.Sql.ReadBack
import Rulebook.Proofs.Sql.Truth

/-! The two SQL forms of a condition side by side. In the fragment the condition is a chain without
parentheses, as it is written in the rule; in the parameterized condition every group but the whole
has parentheses. -/

namespace Rulebook

namespace Fragment
open Text Sql

def joint? (s : List Char) : Option (Connective × List Char) :=
  let word := (trimStart s).takeWhile (!isBlank ·)
  let rest := (trimStart s).dropWhile (!isBlank ·)
  if leadingBlanks s = [] ∨ leadingBlanks rest = [] then none
  else (Connective.ofName? (String.ofList (word.map Char.toLower))).map (·, trimStart rest)

def tokensAround : List String → List Char → Option (List (Token String))
  | [], _ => none
  | [piece], s => if s = piece.toList then some [.operand piece] else none
  | piece :: next :: pieces, s => do
    let (c, rest) ← (s.dropPrefix? piece.toList).bind joint?
    return .operand piece :: .joint c :: (← tokensAround (next :: pieces) rest)

theorem joint?_of_isJoint {c : Connective} {text : String} (h : Expr.IsJoint c text)
    {s : List Char} (hs : Stops isBlank s) : joint? (text.toList ++ s) = some (c, s) := by
  obtain ⟨before, after, upper, hbefore, hafter, rfl⟩ := h
  have hword : (Expr.connectiveWord c upper).toList.all (!isBlank ·) = true ∧
      Connective.ofName? (String.ofList ((Expr.connectiveWord c upper).toList.map Char.toLower)) =
        some c := by
    cases c <;> cases upper <;> decide
  have hletters := List.all_eq_true.1 hword.1
  have hbehind : Stops (fun d => !isBlank d) (after.text.toList ++ s) := by
    obtain ⟨d, u, hdu⟩ := List.exists_cons_of_ne_nil fun he => hafter (String.toList_eq_nil_iff.1 he)
    rw [hdu]
    simpa using after.blank d (by simp [hdu])
  have hfront := Expr.stops_connectiveWord c upper (q := isBlank) (by decide)
    (after.text.toList ++ s)
  have htext : (before.text ++ Expr.connectiveWord c upper ++ after.text).toList ++ s =
      before.text.toList ++ ((Expr.connectiveWord c upper).toList ++ (after.text.toList ++ s)) := by
    simp
  have hlead : leadingBlanks (before.text.toList ++
      ((Expr.connectiveWord c upper).toList ++ (after.text.toList ++ s))) ≠ [] := by
    rw [leadingBlanks, takeWhile_append before.blank hfront]
    exact fun he => hbefore (String.toList_eq_nil_iff.1 he)
  have htrail : leadingBlanks (after.text.toList ++ s) ≠ [] := by
    rw [leadingBlanks, takeWhile_append after.blank hs]
    exact fun he => hafter (String.toList_eq_nil_iff.1 he)
  rw [htext, joint?, trimStart, dropWhile_append before.blank hfront,
    takeWhile_append hletters hbehind, dropWhile_append hletters hbehind, hword.2,
    if_neg (not_or.2 ⟨hlead, htrail⟩), trimStart, dropWhile_append after.blank hs]
  rfl

end Fragment

namespace Expr
open Text Sql Fragment

theorem Node.IsSpelled.exists_links {n : Node} (h : n.IsSpelled) :
    ∃ (first : Node) (links : List Link), n = links.foldl Link.join first ∧ first.IsNamedTest ∧
      ∀ l ∈ links, IsJoint l.op l.text ∧ l.right.IsNamedTest := by
  induction h with
  | @test n h => exact ⟨n, [], rfl, h, by simp⟩
  | @join op left right text _ ht hr ih =>
    obtain ⟨first, links, rfl, hfirst, hlinks⟩ := ih
    refine ⟨first, links ++ [⟨op, text, right⟩], by simp [Link.join], hfirst, ?_⟩
    intro l hl
    rw [List.mem_append, List.mem_singleton] at hl
    exact hl.elim (hlinks l) fun he => he ▸ ⟨ht, hr⟩

section Links

variable (n : Node) (links : List Link)

theorem source_foldl_join : (links.foldl Link.join n).source =
    n.source ++ String.join (links.map fun l => l.text ++ l.right.source) := by
  induction links generalizing n with
  | nil => simp
  | cons l links ih =>
    rw [List.foldl_cons, ih, List.map_cons, String.join_cons, Link.join, ← String.append_assoc,
      ← String.append_assoc]
    rfl

theorem Node.connectives_of_isTest {n : Node} (h : n.IsTest) : n.connectives = [] := by
  cases n with
  | logical => cases h
  | _ => rfl

theorem leaves_foldl_join (h : ∀ l ∈ links, l.right.IsNamedTest) :
    (links.foldl Link.join n).leaves = n.leaves ++ links.map (·.right) := by
  induction links generalizing n with
  | nil => simp
  | cons l links ih =>
    have hl : l.right.leaves = [l.right] := Node.leaves_of_isTest (h l (by simp)).isTest
    rw [List.foldl_cons, ih _ fun m hm => h m (by simp [hm]), Link.join, Node.leaves, hl]
    simp

theorem connectives_foldl_join (h : ∀ l ∈ links, l.right.IsNamedTest) :
    (links.foldl Link.join n).connectives = n.connectives ++ links.map (·.op) := by
  induction links generalizing n with
  | nil => simp
  | cons l links ih =>
    have hl : l.right.connectives = [] := Node.connectives_of_isTest (h l (by simp)).isTest
    rw [List.foldl_cons, ih _ fun m hm => h m (by simp [hm]), Link.join, Node.connectives, hl]
    simp

end Links

theorem tokensAround_links (piece : String) {links : List Link}
    (h : ∀ l ∈ links, IsJoint l.op l.text ∧ l.right.IsNamedTest) :
    tokensAround (piece :: links.map (·.right.source))
        (piece ++ String.join (links.map fun l => l.text ++ l.right.source)).toList =
      some (chain piece (links.map fun l => (l.op, l.right.source))) := by
  induction links generalizing piece with
  | nil => simp [tokensAround, chain]
  | cons l links ih =>
    obtain ⟨hjoint, hright⟩ := h l (by simp)
    have hrest := ih l.right.source fun m hm => h m (by simp [hm])
    let tail := l.right.source ++ String.join (links.map fun l => l.text ++ l.right.source)
    have htail : Stops isBlank tail.toList := by
      rw [String.toList_append]
      exact hright.stops.append fun he => hright.nonempty (String.toList_eq_nil_iff.1 he)
    have htext : (piece ++ String.join ((l :: links).map fun l =>
        l.text ++ l.right.source)).toList = piece.toList ++ (l.text.toList ++ tail.toList) := by
      simp [tail]
    have hpiece : (piece.toList ++ (l.text.toList ++ tail.toList)).dropPrefix? piece.toList =
        some (l.text.toList ++ tail.toList) :=
      List.dropPrefix?_eq_some_iff.2 ⟨_, rfl, beq_self_eq_true _⟩
    rw [htext, List.map_cons, tokensAround, hpiece, Option.bind_some,
      joint?_of_isJoint hjoint htail]
    simp only [tail, Option.bind_eq_bind, Option.bind_some, hrest]
    rfl

end Expr

namespace Filter
open Sql

variable (v : Nat → Bool) (kind : Connective)

/-- With truth values in the place of operands each clause is a condition, and joined they give
`b`. -/
def JoinTo (clauses : List Filter) (b : Bool) : Prop :=
  ∃ bs, List.Forall₂ (Resolves truths) (assignAll v 0 (clauses.map tokens)) bs ∧
    truths.combine kind bs = b

variable {v kind}

theorem joinTo_singleton {f : Filter} {b : Bool} :
    JoinTo v kind [f] b ↔ Resolves truths (assign v 0 f.tokens) b := by
  constructor
  · rintro ⟨bs, hall, rfl⟩
    obtain ⟨b, rest, h, hrest, rfl⟩ := List.forall₂_cons_left_iff.1 hall
    cases hrest
    rwa [truths.combine_single]
  · exact fun h => ⟨[b], .cons h .nil, truths.combine_single _ _⟩

theorem resolves_group {clauses : List Filter} {b : Bool} (h : JoinTo v kind clauses b)
    (hne : clauses ≠ []) : Resolves truths (assign v 0 (group kind clauses).tokens) b := by
  match clauses, h with
  | [f], h => exact joinTo_singleton.1 h
  | f :: g :: rest, ⟨bs, hall, hb⟩ =>
    have hbs : bs ≠ [] := by
      rintro rfl
      cases hall
    have hgrouped := resolves_grouped kind hall hbs
    rw [hb, ← assign_grouped] at hgrouped
    rw [tokens, tokensAll_eq_map]
    exact hgrouped

theorem JoinTo.concat {clauses : List Filter} {b : Bool} (h : JoinTo v kind clauses b)
    {f : Filter} (hf : f.tokens = [.operand f]) {i : Nat}
    (hi : (clauses.flatMap fun g => operands g.tokens).length = i) :
    JoinTo v kind (clauses ++ [f]) (truths.combine kind [b, v i]) := by
  obtain ⟨bs, hall, rfl⟩ := h
  refine ⟨bs ++ [v i], ?_, combine_concat kind bs (v i)⟩
  rw [List.map_append, assignAll_append, List.flatMap_map, hi, Nat.zero_add, List.map_singleton, hf]
  exact List.rel_append hall (.cons (resolves_operand _) .nil)

end Filter

namespace Expr.Node
open Sql

/-- The truth value of a condition whose connectives are taken from left to right, where `v` gives
those of its leaves. -/
def holdsInOrder (n : Node) (v : Nat → Bool) : Bool := leftToRight (v 0) (valued v 1 n.connectives)

theorem holdsInOrder_of_isTest {n : Node} (h : n.IsTest) (v : Nat → Bool) :
    n.holdsInOrder v = v 0 := by
  rw [holdsInOrder, connectives_of_isTest h]
  rfl

theorem holdsInOrder_logical (op : Connective) (left : Node) {right : Node} (source : String)
    (h : right.IsTest) (v : Nat → Bool) :
    (logical op left right source).holdsInOrder v =
      truths.combine op [left.holdsInOrder v, v left.leaves.length] := by
  rw [holdsInOrder, connectives, connectives_of_isTest h, valued_append, leftToRight,
    List.foldl_append, length_leaves, Nat.add_comm]
  rfl

theorem joinTo_clausesFor {n : Node} (h : n.IsChain) (v : Nat → Bool) (kind : Connective) :
    Filter.JoinTo v kind (n.filter.clausesFor kind) (n.holdsInOrder v) := by
  induction h generalizing kind with
  | @test n h =>
    have hoperand : Resolves truths (assign v 0 n.filter.tokens) (n.holdsInOrder v) := by
      rw [tokens_of_isTest h, holdsInOrder_of_isTest h]
      exact resolves_operand _
    rw [clausesFor_of_isTest h]
    exact Filter.joinTo_singleton.2 hoperand
  | @join op left right source hl hr ih =>
    have hcount : ((left.filter.clausesFor op).flatMap fun g => operands g.tokens).length =
        left.leaves.length := by
      rw [Filter.operands_clausesFor op (isFilled_of_isChain hl), operands_of_isChain hl,
        List.length_map]
    have hclauses := (ih op).concat (tokens_of_isTest hr) hcount
    rw [← holdsInOrder_logical op left source hr] at hclauses
    rw [filter_logical, Filter.join, clausesFor_of_isTest hr, Filter.clausesFor]
    split
    case isTrue he => exact he ▸ hclauses
    case isFalse =>
      exact Filter.joinTo_singleton.2 (Filter.resolves_group hclauses (by simp))

theorem truth_tokens {n : Node} (h : n.IsChain) (v : Nat → Bool) :
    truth v n.filter.tokens = some (n.holdsInOrder v) := by
  obtain ⟨kind, hclauses⟩ := n.filter.exists_clausesFor
  have hjoin := joinTo_clausesFor h v kind
  rw [hclauses] at hjoin
  exact (Filter.joinTo_singleton.1 hjoin).resolve

end Expr.Node

namespace Fragment
open Sql Rulebook.Expr Rule

def whenTokens (c : Conditional) : Option (List (Token String)) :=
  tokensAround (c.condition.leaves.map Node.source) c.condition.source.toList

def whenTruth (c : Conditional) (v : Nat → Bool) : Option Bool := (whenTokens c).bind (truth v)

def whereTruth (c : SqlCondition) (v : Nat → Bool) : Option Bool :=
  (conditionTokens c).bind (truth v)

theorem whenTokens_of_isSpelled {c : Conditional} (h : c.condition.IsSpelled) :
    ∃ piece links, whenTokens c = some (chain piece links) ∧
      piece :: links.map (·.2) = c.condition.leaves.map Node.source ∧
      links.map (·.1) = c.condition.connectives := by
  obtain ⟨first, links, hcondition, hfirst, hlinks⟩ := h.exists_links
  have hnamed : ∀ l ∈ links, l.right.IsNamedTest := fun l hl => (hlinks l hl).2
  have hleaves : c.condition.leaves.map Node.source =
      first.source :: links.map (·.right.source) := by
    rw [hcondition, leaves_foldl_join first links hnamed, Node.leaves_of_isTest hfirst.isTest]
    simp
  have hconnectives : c.condition.connectives = links.map (·.op) := by
    rw [hcondition, connectives_foldl_join first links hnamed,
      Node.connectives_of_isTest hfirst.isTest]
    rfl
  refine ⟨first.source, links.map fun l => (l.op, l.right.source), ?_, ?_, ?_⟩
  · rw [whenTokens, hleaves, hcondition, source_foldl_join]
    exact tokensAround_links first.source hlinks
  · rw [hleaves, List.map_map]
    rfl
  · rw [hconnectives, List.map_map]
    rfl

theorem ofText_of_parse {text : String} {c : Conditional} (h : parse text = .ok c)
    (table : String) : ofText text table =
      .ok ("SELECT CASE WHEN " ++ c.condition.source ++ " THEN " ++ c.thenBranch.source ++
        " ELSE " ++ c.elseBranch.source ++ " FROM " ++ table) := by
  rw [ofText, h]
  rfl

/-- Both conditions are read, with the tests of the rule as operands. The condition with parentheses
takes the connectives from left to right. The condition without them does so for all truth values of
the tests exactly when no `and` stands behind an `or`. -/
theorem whenTruth_eq_iff (text table : String) (c : Conditional) (h : parse text = .ok c) :
    ofText text table =
        .ok ("SELECT CASE WHEN " ++ c.condition.source ++ " THEN " ++ c.thenBranch.source ++
          " ELSE " ++ c.elseBranch.source ++ " FROM " ++ table) ∧
      ∃ sql, (predicateOf filterPredicates c).toSql = .ok sql ∧
        (whenTokens c).map operands = some (c.condition.leaves.map Node.source) ∧
        (conditionTokens sql).map operands = some (c.condition.leaves.map Node.filter) ∧
        (∀ v, (whenTruth c v).isSome ∧ whereTruth sql v = some (c.condition.holdsInOrder v)) ∧
        ((∀ v, whenTruth c v = whereTruth sql v) ↔
          ¬ [Connective.or, .and].Sublist c.condition.connectives) := by
  have hspelled := isSpelled_of_parse h
  have hchain := hspelled.isChain
  obtain ⟨sql, hsql, -⟩ := Node.toSql_of_isSpelled hspelled
  obtain ⟨piece, links, hwhen, hoperands, hconnectives⟩ := whenTokens_of_isSpelled hspelled
  have hwhere := conditionTokens_of_toSql hsql
  have hwhenTruth (v : Nat → Bool) : whenTruth c v =
      some (byPrecedence (v 0) (valued v 1 c.condition.connectives)) := by
    rw [whenTruth, hwhen, Option.bind_some, truth_chain, hconnectives]
  have hwhereTruth (v : Nat → Bool) :
      whereTruth ⟨sql, c.condition.texts.map fun t => .text (.ofString t)⟩ v =
        some (c.condition.holdsInOrder v) := by
    rw [whereTruth, hwhere, Option.bind_some, Node.truth_tokens hchain]
  refine ⟨ofText_of_parse h table, _, ?_, ?_, ?_, fun v => ⟨?_, hwhereTruth v⟩, ?_⟩
  · rw [predicateOf_eq]
    exact hsql
  · rw [hwhen, Option.map_some, operands_chain, hoperands]
  · rw [hwhere, Option.map_some, Node.operands_of_isChain hchain]
  · rw [hwhenTruth, Option.isSome_some]
  · rw [← byPrecedence_eq_iff]
    simp only [hwhenTruth, hwhereTruth, Option.some.injEq, Node.holdsInOrder]

def threeTests (first second : Connective) : RuleForm where
  condition := (((ConditionForm.single (test "a" "1" rfl (by decide) (by simp [isBare]))).joined
    ⟨.one, first, false, .one, test "b" "2" rfl (by decide) (by simp [isBare])⟩).joined
    ⟨.one, second, false, .one, test "c" "3" rfl (by decide) (by simp [isBare])⟩)
  beforeQuestion := .one
  afterQuestion := .one
  thenBranch := .quoted "p" (by decide)
  beforeColon := .one
  afterColon := .one
  elseBranch := .quoted "q" (by decide)
where
  test (name token : String) (hname : isName name = true) (hne : token ≠ "")
      (htoken : ∀ c ∈ token.toList, isBare c = true) : PredicateForm :=
    .comparison ⟨name, hname⟩ .one .equal .one (.bare token hne htoken)

theorem whenTruth_eq_iff_threeTests :
    let r := threeTests .and .or
    r.text = "a == 1 and b == 2 or c == 3 ? 'p' : 'q'" ∧
      ofText r.text "t" =
        .ok "SELECT CASE WHEN a == 1 and b == 2 or c == 3 THEN 'p' ELSE 'q' FROM t" ∧
      ∃ sql, (predicateOf filterPredicates r.tree).toSql = .ok sql ∧
        sql.sql = "((\"a\" = ?) AND (\"b\" = ?)) OR (\"c\" = ?)" ∧
        ∀ v, whenTruth r.tree v = whereTruth sql v := by
  intro r
  obtain ⟨htext, sql, hsql, -, -, -, hiff⟩ := whenTruth_eq_iff r.text "t" r.tree (parse_form r)
  refine ⟨by decide, htext, sql, hsql, ?_, hiff.2 (by decide)⟩
  cases hsql
  decide

/-- Where the first of three tests holds alone, `or` in front of `and` makes a difference. -/
theorem whenTruth_ne_threeTests :
    let r := threeTests .or .and
    r.text = "a == 1 or b == 2 and c == 3 ? 'p' : 'q'" ∧ parse r.text = .ok r.tree ∧
      ∃ sql, (predicateOf filterPredicates r.tree).toSql = .ok sql ∧
        whenTruth r.tree (· = 0) = some true ∧ whereTruth sql (· = 0) = some false := by
  intro r
  exact ⟨by decide, parse_form r, _, rfl, by decide, by decide⟩

end Fragment

end Rulebook
