import Rulebook.Proofs.Expr.Form
import Rulebook.Proofs.Expr.Shape

/-! What every tree that is read keeps of its text, the order mark in the text or not: tests ask
about names and begin with no blank, and every connective stands between blanks. -/

namespace Rulebook.Expr
open Text Reader

/-- A connective and the blanks around it, which may hold the order mark. -/
def IsJoint (op : Connective) (text : String) : Prop :=
  ∃ (before after : Blanks) (upper : Bool), before.text ≠ "" ∧ after.text ≠ "" ∧
    text = before.text ++ connectiveWord op upper ++ after.text

namespace Node

def target? : Node → Option Field
  | .comparison _ left _ _ => some left
  | .contains target _ _ => some target
  | _ => none

structure IsNamedTest (n : Node) : Prop where
  isTest : n.IsTest
  named : ∀ f ∈ n.target?, isName f.name = true
  nonempty : n.source ≠ ""
  stops : Stops isBlank n.source.toList

inductive IsSpelled : Node → Prop
  | test {n : Node} (h : n.IsNamedTest) : IsSpelled n
  | join (op : Connective) {left right : Node} {text : String} (hl : IsSpelled left)
      (ht : IsJoint op text) (hr : right.IsNamedTest) :
      IsSpelled (.logical op left right (left.source ++ text ++ right.source))

end Node

namespace Reader.Gives

variable {α : Type} {p : Reader α} {P Q : α → Prop}

theorem and (hp : Gives p P) (hq : Gives p Q) : Gives p fun v => P v ∧ Q v :=
  fun c r h => ⟨hp c r h, hq c r h⟩

end Reader.Gives

theorem gives_pattern (p : Pattern) : Gives (pattern p) fun t => p.Matches t.toList := by
  intro c r h
  simp only [pattern] at h
  split at h
  case h_1 => cases h
  case h_2 =>
    split at h
    case h_1 token htoken =>
      cases h
      simpa using (Pattern.of_match? htoken).1
    case h_2 => cases h

theorem gives_word (w : String) : Gives (word w) fun t => t = w := by
  intro c r h
  simp only [word] at h
  split at h
  case h_1 => cases h
  case h_2 =>
    split at h
    case isTrue => cases h; rfl
    case isFalse => cases h

theorem gives_mark (m : Char) : Gives (mark m) fun t => t = m.toString := by
  intro c r h
  simp only [mark] at h
  split at h
  case h_1 => cases h
  case h_2 =>
    split at h
    case h_1 => cases h
    case h_2 =>
      split at h
      case isTrue => cases h; rfl
      case isFalse => cases h

theorem gives_someBlanks :
    Gives someBlanks fun t => t ≠ "" ∧ ∀ c ∈ t.toList, isBlank c = true := by
  intro c r h
  simp only [someBlanks] at h
  split at h
  case h_1 => cases h
  case h_2 hne =>
    cases h
    refine ⟨by simpa using hne, fun d hd => ?_⟩
    rw [String.toList_ofList] at hd
    exact List.mem_takeWhile_imp hd

theorem gives_fieldName : Gives fieldName fun f => isName f.name = true ∧ f.source = f.name :=
  (gives_pattern .name).bind fun _ h => .pure ⟨isName_iff.2 h, rfl⟩

theorem gives_keyword (op : Connective) (upper : Bool) :
    Gives (keyword op (connectiveWord op upper)) fun k => ∃ upper, k.2 = connectiveWord k.1 upper :=
  (gives_word _).bind fun _ h => .pure ⟨upper, h⟩

theorem gives_connective : Gives connective fun k => ∃ upper, k.2 = connectiveWord k.1 upper :=
  .either (.either (gives_keyword .and false) (gives_keyword .and true))
    (.either (gives_keyword .or false) (gives_keyword .or true))

theorem Node.IsNamedTest.of_name {n : Node} {f : Field} (rest : String) (ht : n.IsTest)
    (hf : n.target? = some f) (hname : isName f.name = true ∧ f.source = f.name)
    (hsource : n.source = f.source ++ rest) : n.IsNamedTest := by
  have hm := isName_iff.1 hname.1
  have hs : n.source.toList = f.name.toList ++ rest.toList := by
    rw [hsource, hname.2, String.toList_append]
  refine ⟨ht, by simpa [hf] using hname.1, fun he => hm.nonempty ?_, ?_⟩
  · rw [he] at hs
    exact (List.append_eq_nil_iff.1 hs.symm).1
  · rw [hs]
    exact hm.stops.append hm.nonempty

theorem gives_openedMembers :
    Gives members fun m => m.items ≠ [] ∧ ∃ rest, m.source = "\x7b" ++ rest := by
  refine gives_members.and ((gives_mark _).bind fun opening h => ?_)
  subst h
  refine .next fun lead => .next fun first => .next fun others => .next fun trail => ?_
  refine .next fun closing => .pure ⟨lead ++ (first.source ++ (String.join (others.map (·.1)) ++
    (trail ++ closing))), ?_⟩
  simp only [String.append_assoc]
  rfl

theorem gives_fieldContains : Gives fieldContains Node.IsNamedTest := by
  refine gives_fieldName.bind fun target htarget => .next fun opening => ?_
  refine gives_argument.bind fun argument hargument => .next fun closing => .pure ?_
  refine .of_name (opening ++ argument.source ++ closing) ?_ rfl htarget ?_
  · cases argument with
    | literal l => trivial
    | members m => exact hargument m rfl
  · simp only [Node.source, String.append_assoc]

theorem gives_membersContain : Gives membersContain Node.IsNamedTest := by
  refine gives_openedMembers.bind fun m hm => .next fun opening => ?_
  refine gives_fieldName.bind fun target htarget => .next fun closing => .pure ?_
  obtain ⟨hne, rest, hrest⟩ := hm
  refine ⟨hne, by simpa [Node.target?] using htarget.1, ?_, ?_⟩
  · simp [Node.source, hrest]
  · simp [Node.source, hrest]
    decide

theorem gives_comparison : Gives comparison Node.IsNamedTest := by
  refine gives_fieldName.bind fun left hleft => .next fun before => .next fun op => ?_
  refine .next fun after => .next fun right => .pure ?_
  refine .of_name (before ++ op.sign ++ after ++ right.source) trivial rfl hleft ?_
  simp only [Node.source, String.append_assoc]

theorem gives_predicate : Gives predicate Node.IsNamedTest :=
  .either gives_fieldContains (.either gives_membersContain gives_comparison)

theorem gives_link : Gives link fun l => IsJoint l.op l.text ∧ l.right.IsNamedTest := by
  refine gives_someBlanks.bind fun before hbefore => gives_connective.bind fun k hk => ?_
  refine gives_someBlanks.bind fun after hafter => gives_predicate.bind fun right hright => ?_
  obtain ⟨upper, hw⟩ := hk
  refine .pure ⟨⟨⟨before, hbefore.2⟩, ⟨after, hafter.2⟩, upper, hbefore.1, hafter.1, ?_⟩, hright⟩
  rw [← hw]

theorem isSpelled_foldl {n : Node} (hn : n.IsSpelled) {links : List Link}
    (h : ∀ l ∈ links, IsJoint l.op l.text ∧ l.right.IsNamedTest) :
    (links.foldl Link.join n).IsSpelled := by
  induction links generalizing n with
  | nil => exact hn
  | cons l links ih =>
    have hl := h l (by simp)
    exact ih (.join l.op hn hl.1 hl.2) fun m hm => h m (by simp [hm])

theorem gives_condition : Gives condition Node.IsSpelled :=
  gives_predicate.bind fun _ hfirst => (Gives.many gives_link).bind fun _ hlinks =>
    .pure (isSpelled_foldl (.test hfirst) hlinks)

theorem Node.IsSpelled.isChain {n : Node} (h : n.IsSpelled) : n.IsChain := by
  induction h with
  | test h => exact .test h.isTest
  | join op _ _ hr ih => exact .join op _ ih hr.isTest

theorem isSpelled_of_parse {text : String} {c : Conditional} (h : parse text = .ok c) :
    c.condition.IsSpelled :=
  of_parse (gives_conditional gives_condition) h

theorem isChain_of_parse {text : String} {c : Conditional} (h : parse text = .ok c) :
    c.condition.IsChain :=
  (isSpelled_of_parse h).isChain

end Rulebook.Expr
