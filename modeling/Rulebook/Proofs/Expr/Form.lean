import Rulebook.Expr.Node
import Rulebook.Expr.Token
import Rulebook.Text.Blank
import Rulebook.Text.Cursor

/-! Derivations of the grammar. A form fixes what a tree leaves open: the blanks of every gap, the
quotes of every literal, the case of every connective and the side a list stands on. It has one text
and one tree, and each node of the tree keeps the piece of the text that is written for it. -/

namespace Rulebook.Expr
open Text

structure Blanks where
  text : String
  blank : ∀ c ∈ text.toList, isBlank c = true

/-- Blanks between two tokens. The order mark is none of them. -/
structure Gap extends Blanks where
  unmarked : orderMark ∉ text.toList

namespace Gap

def none : Gap := ⟨⟨"", by simp⟩, by simp⟩

def one : Gap := ⟨⟨" ", by simp; decide⟩, by decide⟩

end Gap

/-- Blanks beside a connective, where they may not be missing. -/
structure Space extends Gap where
  nonempty : text ≠ ""

def Space.one : Space := ⟨.one, by decide⟩

structure FieldForm where
  text : String
  name : isName text = true

def FieldForm.tree (f : FieldForm) : Field := ⟨f.text, f.text⟩

inductive LiteralForm where
  | quoted (content : String) (closed : '\'' ∉ content.toList)
  | bare (token : String) (nonempty : token ≠ "") (bare : ∀ c ∈ token.toList, isBare c = true)

namespace LiteralForm

def text : LiteralForm → String
  | quoted content _ => "'" ++ content ++ "'"
  | bare token _ _ => token

def tree : LiteralForm → Literal
  | quoted content _ => ⟨content, true, "'" ++ content ++ "'"⟩
  | bare token _ _ => ⟨token, false, token⟩

@[simp] theorem tree_source (l : LiteralForm) : l.tree.source = l.text := by
  cases l <;> rfl

end LiteralForm

structure MemberForm where
  before : Gap
  after : Gap
  item : LiteralForm

def MemberForm.text (m : MemberForm) : String :=
  m.before.text ++ "," ++ m.after.text ++ m.item.text

structure MembersForm where
  lead : Gap
  first : LiteralForm
  others : List MemberForm
  trail : Gap

namespace MembersForm

def items (m : MembersForm) : List LiteralForm := m.first :: m.others.map (·.item)

def text (m : MembersForm) : String :=
  "\x7b" ++ m.lead.text ++ m.first.text ++ String.join (m.others.map (·.text)) ++ m.trail.text ++
    "\x7d"

def tree (m : MembersForm) : Members := ⟨m.items.map (·.tree), m.text⟩

end MembersForm

inductive ArgumentForm where
  | literal (l : LiteralForm)
  | members (m : MembersForm)

namespace ArgumentForm

def text : ArgumentForm → String
  | literal l => l.text
  | members m => m.text

def tree : ArgumentForm → Argument
  | literal l => .literal l.tree
  | members m => .members m.tree

@[simp] theorem tree_source (a : ArgumentForm) : a.tree.source = a.text := by
  cases a <;> simp [tree, text, Argument.source, MembersForm.tree]

end ArgumentForm

structure CallForm where
  beforeParen : Gap
  lead : Gap
  trail : Gap

namespace CallForm

def opening (c : CallForm) : String := ".contains" ++ c.beforeParen.text ++ "(" ++ c.lead.text

def closing (c : CallForm) : String := c.trail.text ++ ")"

end CallForm

inductive PredicateForm where
  | fieldContains (target : FieldForm) (call : CallForm) (argument : ArgumentForm)
  | membersContain (argument : MembersForm) (call : CallForm) (target : FieldForm)
  | comparison (left : FieldForm) (before : Gap) (op : Comparator) (after : Gap)
      (right : LiteralForm)

namespace PredicateForm

def text : PredicateForm → String
  | fieldContains target call argument =>
    target.text ++ call.opening ++ argument.text ++ call.closing
  | membersContain argument call target =>
    argument.text ++ call.opening ++ target.text ++ call.closing
  | comparison left before op after right =>
    left.text ++ before.text ++ op.sign ++ after.text ++ right.text

def tree (p : PredicateForm) : Node :=
  match p with
  | fieldContains target _ argument => .contains target.tree argument.tree p.text
  | membersContain argument _ target => .contains target.tree (.members argument.tree) p.text
  | comparison left _ op _ right => .comparison op left.tree right.tree p.text

@[simp] theorem tree_source (p : PredicateForm) : p.tree.source = p.text := by
  cases p <;> rfl

end PredicateForm

def connectiveWord (op : Connective) (upper : Bool) : String :=
  match op, upper with
  | .and, false => "and"
  | .and, true => "AND"
  | .or, false => "or"
  | .or, true => "OR"

structure LinkForm where
  before : Space
  op : Connective
  upper : Bool
  after : Space
  right : PredicateForm

namespace LinkForm

def joint (l : LinkForm) : String :=
  l.before.text ++ connectiveWord l.op l.upper ++ l.after.text

def text (l : LinkForm) : String := l.joint ++ l.right.text

end LinkForm

inductive ConditionForm where
  | single (p : PredicateForm)
  | joined (left : ConditionForm) (link : LinkForm)

namespace ConditionForm

def text : ConditionForm → String
  | single p => p.text
  | joined left link => left.text ++ link.text

def tree : ConditionForm → Node
  | single p => p.tree
  | joined left link => .logical link.op left.tree link.right.tree (left.text ++ link.text)

@[simp] theorem tree_source (c : ConditionForm) : c.tree.source = c.text := by
  cases c with
  | single p => exact p.tree_source
  | joined left link => rfl

def ofLinks (first : PredicateForm) (links : List LinkForm) : ConditionForm :=
  links.foldl joined (single first)

theorem text_foldl (c : ConditionForm) (links : List LinkForm) :
    (links.foldl joined c).text = c.text ++ String.join (links.map (·.text)) := by
  induction links generalizing c with
  | nil => simp
  | cons l links ih => simp [ih, text, String.append_assoc]

@[simp] theorem text_ofLinks (first : PredicateForm) (links : List LinkForm) :
    (ofLinks first links).text = first.text ++ String.join (links.map (·.text)) :=
  text_foldl (single first) links

theorem exists_links (c : ConditionForm) : ∃ first links, c = ofLinks first links := by
  induction c with
  | single p => exact ⟨p, [], rfl⟩
  | joined left link ih =>
    obtain ⟨first, links, rfl⟩ := ih
    exact ⟨first, links ++ [link], by simp [ofLinks]⟩

end ConditionForm

structure RuleForm where
  condition : ConditionForm
  beforeQuestion : Gap
  afterQuestion : Gap
  thenBranch : LiteralForm
  beforeColon : Gap
  afterColon : Gap
  elseBranch : LiteralForm

namespace RuleForm

def text (r : RuleForm) : String :=
  r.condition.text ++ r.beforeQuestion.text ++ "?" ++ r.afterQuestion.text ++ r.thenBranch.text ++
    r.beforeColon.text ++ ":" ++ r.afterColon.text ++ r.elseBranch.text

def tree (r : RuleForm) : Conditional :=
  ⟨r.condition.tree, r.thenBranch.tree, r.elseBranch.tree, r.text⟩

end RuleForm

end Rulebook.Expr
