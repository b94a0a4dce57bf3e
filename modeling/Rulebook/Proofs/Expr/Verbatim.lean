import Rulebook.Proofs.Expr.Form
import Rulebook.Proofs.Expr.Shape

/-! Trees whose sources are put together, in order, from the sources of the children and the text
that stands between them. The trees of forms are such trees. -/

namespace Rulebook.Expr
open Text

namespace Literal

def Verbatim (l : Literal) : Prop :=
  if l.quoted then '\'' ∉ l.raw.toList ∧ l.source = "'" ++ l.raw ++ "'"
  else l.source = l.raw ∧ l.raw ≠ "" ∧ ∀ c ∈ l.raw.toList, isBare c = true

inductive Listed : List Literal → String → Prop
  | single (l : Literal) : Listed [l] l.source
  | cons (l : Literal) (before after : Gap) {items : List Literal} {text : String}
      (tail : Listed items text) :
      Listed (l :: items) (l.source ++ before.text ++ "," ++ after.text ++ text)

end Literal

def Field.Verbatim (f : Field) : Prop := isName f.name = true ∧ f.source = f.name

def Members.Verbatim (m : Members) : Prop :=
  (∀ l ∈ m.items, l.Verbatim) ∧ ∃ (lead trail : Gap) (text : String), Literal.Listed m.items text ∧
    m.source = "\x7b" ++ lead.text ++ text ++ trail.text ++ "\x7d"

def Argument.Verbatim : Argument → Prop
  | .literal l => l.Verbatim
  | .members m => m.Verbatim

namespace Node

/-- The source of the node, and of every node below it, is put together from its children. -/
def Verbatim : Node → Prop
  | .literal l => l.Verbatim
  | .field f => f.Verbatim
  | .members m => m.Verbatim
  | .comparison op left right source =>
    left.Verbatim ∧ right.Verbatim ∧ ∃ before after : Gap,
      source = left.source ++ before.text ++ op.sign ++ after.text ++ right.source
  | .contains target argument source =>
    target.Verbatim ∧ argument.Verbatim ∧ ∃ call : CallForm,
      source = target.source ++ call.opening ++ argument.source ++ call.closing ∨
        (∃ m, argument = .members m) ∧
          source = argument.source ++ call.opening ++ target.source ++ call.closing
  | .logical op left right source =>
    left.Verbatim ∧ right.IsTest ∧ right.Verbatim ∧
      ∃ (before after : Space) (upper : Bool),
        source = left.source ++ before.text ++ connectiveWord op upper ++ after.text ++ right.source
  | .conditional condition thenBranch elseBranch source =>
    condition.IsChain ∧ condition.Verbatim ∧ thenBranch.Verbatim ∧ elseBranch.Verbatim ∧
      ∃ beforeQuestion afterQuestion beforeColon afterColon : Gap,
        source = condition.source ++ beforeQuestion.text ++ "?" ++ afterQuestion.text ++
          thenBranch.source ++ beforeColon.text ++ ":" ++ afterColon.text ++ elseBranch.source

end Node

theorem FieldForm.verbatim (f : FieldForm) : f.tree.Verbatim := ⟨f.name, rfl⟩

theorem LiteralForm.verbatim (l : LiteralForm) : l.tree.Verbatim := by
  cases l with
  | quoted content closed => simpa [tree, Literal.Verbatim] using closed
  | bare token nonempty bare => simpa [tree, Literal.Verbatim] using ⟨nonempty, bare⟩

theorem MembersForm.listed (first : LiteralForm) (others : List MemberForm) :
    Literal.Listed ((first :: others.map (·.item)).map (·.tree))
      (first.text ++ String.join (others.map (·.text))) := by
  induction others generalizing first with
  | nil => simpa using Literal.Listed.single first.tree
  | cons m others ih =>
    have h := Literal.Listed.cons first.tree m.before m.after (ih m.item)
    simpa [MemberForm.text, String.append_assoc] using h

theorem MembersForm.verbatim (m : MembersForm) : m.tree.Verbatim := by
  refine ⟨?_, m.lead, m.trail, _, MembersForm.listed m.first m.others, ?_⟩
  · intro l hl
    obtain ⟨item, -, rfl⟩ := List.mem_map.1 hl
    exact item.verbatim
  · simp [tree, text, String.append_assoc]

theorem ArgumentForm.verbatim (a : ArgumentForm) : a.tree.Verbatim := by
  cases a with
  | literal l => exact l.verbatim
  | members m => exact m.verbatim

theorem PredicateForm.isTest (p : PredicateForm) : p.tree.IsTest := by
  cases p with
  | fieldContains target call argument =>
    cases argument with
    | literal l => trivial
    | members m => exact List.cons_ne_nil _ _
  | membersContain argument call target => exact List.cons_ne_nil _ _
  | comparison left before op after right => trivial

theorem PredicateForm.verbatim (p : PredicateForm) : p.tree.Verbatim := by
  cases p with
  | fieldContains target call argument =>
    refine ⟨target.verbatim, argument.verbatim, call, .inl ?_⟩
    rw [ArgumentForm.tree_source]
    rfl
  | membersContain argument call target =>
    exact ⟨target.verbatim, argument.verbatim, call, .inr ⟨⟨_, rfl⟩, rfl⟩⟩
  | comparison left before op after right =>
    refine ⟨left.verbatim, right.verbatim, before, after, ?_⟩
    rw [LiteralForm.tree_source]
    rfl

theorem ConditionForm.isChain (c : ConditionForm) : c.tree.IsChain := by
  induction c with
  | single p => exact .test p.isTest
  | joined left link ih => exact .join link.op _ ih link.right.isTest

theorem ConditionForm.verbatim (c : ConditionForm) : c.tree.Verbatim := by
  induction c with
  | single p => exact p.verbatim
  | joined left link ih =>
    refine ⟨ih, link.right.isTest, link.right.verbatim, link.before, link.after, link.upper, ?_⟩
    rw [tree_source, PredicateForm.tree_source, LinkForm.text, LinkForm.joint]
    simp only [String.append_assoc]

theorem RuleForm.verbatim (r : RuleForm) : r.tree.node.Verbatim := by
  refine ⟨r.condition.isChain, r.condition.verbatim, r.thenBranch.verbatim,
    r.elseBranch.verbatim, r.beforeQuestion, r.afterQuestion, r.beforeColon, r.afterColon, ?_⟩
  rw [tree, ConditionForm.tree_source]
  simp only [Node.source, LiteralForm.tree_source, text]

end Rulebook.Expr
