import Rulebook.Evaluate
import Rulebook.Proofs.Expr.Spelled
import Rulebook.Proofs.Rule.RoundTrip

/-! What a rule means after it was read, written and read again. A set is kept as one text, so a
member with commas comes back as the parts between them; everything else means what it meant. -/

namespace Rulebook

namespace Expr

def Members.split (m : Members) : Members :=
  { m with items := m.items.flatMap fun item =>
      (LooseText.ofString (Text.trimmed item.raw)).commaMembers.map fun part =>
        { item with raw := part.shown } }

namespace Node

def splitMembers : Node → Node
  | .logical op left right source => .logical op left.splitMembers right.splitMembers source
  | .contains target (.members m) source => .contains target (.members m.split) source
  | n => n

def memberRaws : Node → List String
  | .logical _ left right _ => left.memberRaws ++ right.memberRaws
  | .contains _ (.members m) _ => m.items.map (·.raw)
  | _ => []

end Node

def Conditional.splitMembers (c : Conditional) : Conditional :=
  { c with condition := c.condition.splitMembers }

end Expr

namespace Rule
open Rulebook.Expr

theorem memberTexts_split (m : Members) :
    memberTexts m.split = m.items.flatMap fun item =>
      (LooseText.ofString (Text.trimmed item.raw)).commaMembers.map (·.shown) := by
  have hparts : ∀ t : LooseText, t.commaMembers.map (fun part => Text.trimmed part.shown) =
      t.commaMembers.map (·.shown) := by
    intro t
    refine List.map_congr_left fun part hpart => ?_
    obtain ⟨htrim, -⟩ := LooseText.of_mem_commaMembers hpart
    rw [← LooseText.shown_trimmed, htrim]
  simp only [memberTexts, Members.split, List.map_flatMap, List.map_map, Function.comp_def, hparts]

theorem commaMembers_joinCommas {m : Members} (h : m.items ≠ []) :
    (LooseText.ofString (Text.joinCommas (memberTexts m))).commaMembers.map (·.shown) =
      memberTexts m.split := by
  have hne : (memberTexts m).map LooseText.ofString ≠ [] := by simpa [memberTexts] using h
  rw [← LooseText.joined_ofString, LooseText.commaMembers_joined hne, memberTexts_split,
    List.map_flatMap, memberTexts, List.map_map, List.flatMap_map]
  rfl

theorem memberTexts_of_not_mem {m : Members} (h : ∀ item ∈ m.items, ',' ∉ item.raw.toList) :
    memberTexts m.split = memberTexts m := by
  have hitem : ∀ item ∈ m.items,
      (LooseText.ofString (Text.trimmed item.raw)).commaMembers.map (·.shown) =
        [Text.trimmed item.raw] := by
    intro item hitem
    have hcomma : .char ',' ∉ (LooseText.ofString (Text.trimmed item.raw)).glyphs := by
      have hraw := h item hitem
      simp only [LooseText.ofString, Text.trimmed, String.toList_ofList]
      intro hm
      obtain ⟨c, hc, heq⟩ := List.mem_map.1 hm
      cases heq
      exact hraw (Text.mem_of_mem_trim hc)
    rw [LooseText.commaMembers_of_not_mem hcomma, ← LooseText.trimmed_ofString,
      LooseText.trimmed_trimmed, LooseText.trimmed_ofString]
    simp
  rw [memberTexts_split, memberTexts, List.map_eq_flatMap]
  exact List.flatMap_congr hitem

theorem leaf_condition {n : Node} (h : n.IsTest) (c : Option Connective) :
    n.statements c = [{ n.leaf with connective := c }] ∧ n.leaf.operator.isSome = true ∧
      ({ n.leaf with connective := c } : Statement).condition = n.splitMembers.condition := by
  cases n with
  | comparison op left right source =>
    refine ⟨rfl, rfl, ?_⟩
    cases op <;> simp [Node.leaf, Statement.condition, Operator.ofComparator, Node.splitMembers,
      Node.condition, Test.ofComparator]
  | contains target argument source =>
    cases argument with
    | literal l =>
      refine ⟨rfl, rfl, ?_⟩
      simp [Node.leaf, Statement.condition, Node.splitMembers, Node.condition]
    | members m =>
      refine ⟨rfl, rfl, ?_⟩
      have hmembers := commaMembers_joinCommas h
      simp [Node.leaf, Statement.condition, Node.splitMembers, Node.condition, hmembers]
  | _ => exact h.elim

theorem statements_condition {n : Node} (h : n.IsChain) :
    ∃ first rest, n.statements none = first :: rest ∧
      (∀ s ∈ first :: rest, s.operator.isSome = true) ∧
      rest.foldl (fun c s => .join (s.connective.getD .and) c s.condition) first.condition =
        n.splitMembers.condition := by
  induction h with
  | test h =>
    obtain ⟨hstatements, hop, hcondition⟩ := leaf_condition h none
    exact ⟨_, [], hstatements, by simpa using hop, hcondition⟩
  | @join op left right source hl hr ih =>
    obtain ⟨first, rest, hleft, hops, hfold⟩ := ih
    obtain ⟨hright, hop, hcondition⟩ := leaf_condition hr (some op)
    refine ⟨first, rest ++ [{ right.leaf with connective := some op }], ?_, ?_, ?_⟩
    · rw [Node.statements, hleft, hright, List.cons_append]
    · intro s hs
      rw [← List.cons_append, List.mem_append, List.mem_singleton] at hs
      rcases hs with hs | rfl
      · exact hops s hs
      · exact hop
    · rw [List.foldl_append, hfold]
      simp [hcondition, Node.splitMembers, Node.condition]

theorem splitMembers_condition {n : Node} (h : ∀ raw ∈ n.memberRaws, ',' ∉ raw.toList) :
    n.splitMembers.condition = n.condition := by
  induction n with
  | logical op left right source ihl ihr =>
    simp only [Node.memberRaws, List.mem_append] at h
    rw [Node.splitMembers, Node.condition, Node.condition, ihl fun raw hr => h raw (.inl hr),
      ihr fun raw hr => h raw (.inr hr)]
  | contains target argument source =>
    cases argument with
    | literal l => rfl
    | members m =>
      have hitems : ∀ item ∈ m.items, ',' ∉ item.raw.toList := fun item hitem =>
        h _ (List.mem_map_of_mem hitem)
      rw [Node.splitMembers, Node.condition, memberTexts_of_not_mem hitems, Node.condition]
  | _ => rfl

theorem filter_isEmpty {g : Group} (h : ∀ s ∈ g, s.operator.isSome = true) :
    g.filter (!·.isEmpty) = g := by
  rw [List.filter_eq_self]
  intro s hs
  obtain ⟨op, hop⟩ := Option.isSome_iff_exists.1 (h s hs)
  simp [Statement.isEmpty, hop]

theorem literal_isBranch {l : Literal}
    (h : Group.isComplete .branch ((Node.literal l).statements none) = true) :
    Group.IsBranch ((Node.literal l).statements none) := by
  rw [literal_statements] at h ⊢
  refine ⟨⟨_, rfl, rfl, ?_⟩, by simp⟩
  simpa [Group.isComplete] using h

theorem literal_value (l : Literal) :
    (Group.value? ((Node.literal l).statements none)).map (·.shown) = l.value? := by
  rw [literal_statements, Group.value?]
  cases l.value? <;> simp [Group.isComplete]

theorem isComplete_of_write {r : Rule} {text : String} (h : r.write = .ok text) (hne : text ≠ "") :
    r.isComplete .condition = true ∧ r.isComplete .thenBranch = true := by
  rw [← Bool.and_eq_true]
  by_contra hc
  rw [write, if_neg hc] at h
  exact hne (Except.ok.inj h).symm

theorem isChoice_ofConditional {c : Conditional} (hc : c.condition.IsChain)
    (ht : (ofConditional c).isComplete .thenBranch = true) : (ofConditional c).IsChoice := by
  rw [ofConditional_eq] at ht ⊢
  obtain ⟨first, rest, hstatements, hops, -⟩ := statements_condition hc
  refine ⟨?_, literal_isBranch ht, ?_⟩
  · rw [hstatements]
    exact ⟨⟨first, rfl, hops first (by simp)⟩, fun s hs _ => hops s hs⟩
  · cases he : Group.isComplete .branch ((Node.literal c.elseBranch).statements none) with
    | true => exact .inr (literal_isBranch he)
    | false => exact .inl he

theorem ofConditional_condition {c : Conditional} (hc : c.condition.IsChain) :
    (ofConditional c).condition.condition = c.condition.splitMembers.condition := by
  obtain ⟨first, rest, hstatements, hops, hfold⟩ := statements_condition hc
  rw [ofConditional_eq, Group.condition, hstatements, filter_isEmpty hops, ← hfold]

theorem conditional_evaluate (c : Conditional) (entity : Entity) :
    c.evaluate entity = (c.condition.condition.build entityPredicates entity).map fun holds =>
      if holds then c.thenBranch.value? else c.elseBranch.value? := by
  rw [Conditional.evaluate, predicateOf_eq]
  cases c.condition.condition.build entityPredicates entity with
  | error e => rfl
  | ok holds => cases holds <;> rfl

theorem evaluate_of_parse {text : String} {c : Conditional} (h : parse text = .ok c)
    (entity : Entity) :
    evaluate text entity = (c.evaluate entity).mapError fun _ => .unprintable := by
  simp only [evaluate, h]
  cases c.evaluate entity <;> rfl

/-- Reading a rule and writing it changes nothing but the members that have commas: the written rule
gives every entity what the read one gives with each of its lists split. -/
theorem evaluate_write {t s : String} {c : Conditional} {r : Rule} (ht : parse t = .ok c)
    (hr : read t = .ok r) (hs : r.write = .ok s) (hne : s ≠ "") :
    (∀ entity, evaluate s entity =
      (c.splitMembers.evaluate entity).mapError fun _ => .unprintable) ∧
    ((∀ raw ∈ c.condition.memberRaws, ',' ∉ raw.toList) →
      ∀ entity, evaluate s entity = evaluate t entity) := by
  have hchain := isChain_of_parse ht
  rw [read_of_parse ht] at hr
  obtain rfl : ofConditional c = r := Except.ok.inj hr
  have hchoice := isChoice_ofConditional hchain (isComplete_of_write hs hne).2
  obtain ⟨f, rfl, -, hcondition, hthen, helse⟩ := exists_rule hchoice hs
  rw [ofConditional_condition hchain] at hcondition
  have hthenValue : f.tree.thenBranch.value? = c.thenBranch.value? := by
    rw [hthen, ofConditional_eq, literal_value]
  have helseValue : f.tree.elseBranch.value? = c.elseBranch.value? := by
    rw [helse, ofConditional_eq, literal_value]
  have hsplit : ∀ entity, evaluate f.text entity =
      (c.splitMembers.evaluate entity).mapError fun _ => .unprintable := by
    intro entity
    rw [evaluate_of_parse (parse_form f), conditional_evaluate, conditional_evaluate, hcondition,
      hthenValue, helseValue]
    rfl
  refine ⟨hsplit, fun hcommas entity => ?_⟩
  rw [hsplit, evaluate_of_parse ht, conditional_evaluate, conditional_evaluate,
    Conditional.splitMembers, splitMembers_condition hcommas]

def choice (p : PredicateForm) : RuleForm where
  condition := .single p
  beforeQuestion := .one
  afterQuestion := .one
  thenBranch := .quoted "x" (by decide)
  beforeColon := .one
  afterColon := .one
  elseBranch := .quoted "y" (by decide)

def oneOf (m : MembersForm) : RuleForm :=
  choice (.fieldContains ⟨"r", by decide⟩ ⟨.none, .none, .none⟩ (.members m))

def writtenOneOf (first : LiteralForm) (others : List LiteralForm) : RuleForm :=
  choice (.membersContain (tight first others) ⟨.none, .none, .none⟩ ⟨"r", by decide⟩)

theorem evaluate_write_oneOf :
    (oneOf ⟨.one, .bare "a" (by decide) (by simp [isBare]), [], .one⟩).text =
      "r.contains(\x7b a \x7d) ? 'x' : 'y'" ∧
    evaluate "\x7b'a'\x7d.contains(r) ? 'x' : 'y'" [("r", .text "a")] =
      evaluate "r.contains(\x7b a \x7d) ? 'x' : 'y'" [("r", .text "a")] := by
  have htext : (oneOf ⟨.one, .bare "a" (by decide) (by simp [isBare]), [], .one⟩).text =
      "r.contains(\x7b a \x7d) ? 'x' : 'y'" := by decide
  have hparse := parse_form (oneOf ⟨.one, .bare "a" (by decide) (by simp [isBare]), [], .one⟩)
  rw [htext] at hparse
  have hwrite : (ofConditional
      (oneOf ⟨.one, .bare "a" (by decide) (by simp [isBare]), [], .one⟩).tree).write =
        .ok "\x7b'a'\x7d.contains(r) ? 'x' : 'y'" := by decide
  exact ⟨htext, (evaluate_write hparse (read_of_parse hparse) hwrite (by decide)).2 (by decide) _⟩

/-- A set of the one value `a,b` is written as a set of two values, of which none is `a,b`. -/
theorem evaluate_write_comma :
    ¬ ∀ (t s : String) (r : Rule), isRule t = true → read t = .ok r → r.write = .ok s → s ≠ "" →
      ∀ entity, evaluate s entity = evaluate t entity := by
  intro h
  have hparse := parse_form (oneOf ⟨.none, .quoted "a,b" (by decide), [], .none⟩)
  have hwritten := parse_form (writtenOneOf (.quoted "a" (by decide)) [.quoted "b" (by decide)])
  have hrule : isRule (oneOf ⟨.none, .quoted "a,b" (by decide), [], .none⟩).text = true := by
    rw [isRule, hparse]
    rfl
  have hwrite : (ofConditional (oneOf ⟨.none, .quoted "a,b" (by decide), [], .none⟩).tree).write =
      .ok (writtenOneOf (.quoted "a" (by decide)) [.quoted "b" (by decide)]).text := by
    decide
  have hsame := h _ _ _ hrule (read_of_parse hparse) hwrite (by decide) [("r", .text "a,b")]
  rw [evaluate_of_parse hparse, evaluate_of_parse hwritten] at hsame
  exact absurd hsame (by decide)

end Rule

end Rulebook
