import Mathlib
import Rulebook.Proofs.Expr.Soundness
import Rulebook.Proofs.Fragment.Grouping
import Rulebook.Proofs.Rule.Formatting

/-! The fragment takes the condition and the branches from the text of the rule. Where an order mark
may be dropped in front of a token, it does not. -/

namespace Rulebook.Expr
open Text Reader

variable {kind : List Char → Prop} [Legible kind]

theorem copies_nextMember : YieldsFor kind nextMember id Prod.fst := by
  refine yieldsFor_blanks.bind fun before => ?_
  refine (yields_mark (t := ",") rfl (by decide)).bind fun _ => ?_
  refine yieldsFor_blanks.bind fun after => ?_
  refine yields_literal.bind fun item => ?_
  refine .pure fun _ => ⟨_, rfl, ?_⟩
  simp [String.append_assoc]

theorem copies_members : YieldsFor kind members id Members.source := by
  refine (yields_mark (t := "\x7b") rfl (by decide)).bind fun _ => ?_
  refine yieldsFor_blanks.bind fun lead => ?_
  refine yields_literal.bind fun first => ?_
  refine copies_nextMember.many.bind fun others => ?_
  refine yieldsFor_blanks.bind fun trail => ?_
  refine (yields_mark (t := "\x7d") rfl (by decide)).bind fun _ => ?_
  refine .pure fun _ => ⟨_, rfl, ?_⟩
  simp [String.append_assoc]

theorem copies_containsOpening : YieldsFor kind containsOpening id id := by
  refine (yields_word (by simp; decide) (by decide)).bind fun _ => ?_
  refine yieldsFor_blanks.bind fun gap => ?_
  refine (yields_mark (t := "(") rfl (by decide)).bind fun _ => ?_
  refine yieldsFor_blanks.bind fun inner => ?_
  refine .pure fun _ => ⟨_, rfl, ?_⟩
  simp [String.append_assoc]

theorem copies_containsClosing : YieldsFor kind containsClosing id id :=
  yieldsFor_blanks.bind fun inner => (yields_mark (t := ")") rfl (by decide)).bind fun _ =>
    .pure fun _ => ⟨inner.text ++ ")", rfl, by simp⟩

theorem copies_argument : YieldsFor kind argument id Argument.source := by
  refine .either ((copies_members.map Argument.members).of_forms fun m => ?_)
    ((yields_literal.map Argument.literal).of_forms fun l => ?_)
  · exact ⟨.members m, rfl, rfl⟩
  · exact ⟨.literal l.tree, rfl, l.tree_source.symm⟩

theorem copies_fieldContains : YieldsFor kind fieldContains id Node.source := by
  refine yields_fieldName.bind fun target => ?_
  refine copies_containsOpening.bind fun opening => ?_
  refine copies_argument.bind fun argument => ?_
  refine copies_containsClosing.bind fun closing => ?_
  refine .pure fun _ => ⟨_, rfl, ?_⟩
  simp [Node.source, FieldForm.tree, String.append_assoc]

theorem copies_membersContain : YieldsFor kind membersContain id Node.source := by
  refine copies_members.bind fun argument => ?_
  refine copies_containsOpening.bind fun opening => ?_
  refine yields_fieldName.bind fun target => ?_
  refine copies_containsClosing.bind fun closing => ?_
  refine .pure fun _ => ⟨_, rfl, ?_⟩
  simp [Node.source, FieldForm.tree, String.append_assoc]

theorem copies_comparison : YieldsFor kind comparison id Node.source := by
  refine yields_fieldName.bind fun left => ?_
  refine yieldsFor_blanks.bind fun before => ?_
  refine yields_comparator.bind fun op => ?_
  refine yieldsFor_blanks.bind fun after => ?_
  refine yields_literal.bind fun right => ?_
  refine .pure fun _ => ⟨_, rfl, ?_⟩
  simp [Node.source, FieldForm.tree, String.append_assoc]

theorem copies_predicate : YieldsFor kind predicate id Node.source :=
  copies_fieldContains.either (copies_membersContain.either copies_comparison)

theorem copies_link : YieldsFor kind link id fun l => l.text ++ l.right.source := by
  refine yieldsFor_someBlanks.bind fun before => ?_
  refine yields_connective.bind fun word => ?_
  refine yieldsFor_someBlanks.bind fun after => ?_
  refine copies_predicate.bind fun right => ?_
  refine .pure fun _ => ⟨_, rfl, ?_⟩
  simp [String.append_assoc]

theorem copies_condition : YieldsFor kind condition id Node.source := by
  refine copies_predicate.bind fun first => ?_
  refine copies_link.many.bind fun links => ?_
  refine .pure fun _ => ⟨_, rfl, ?_⟩
  rw [id, List.map_id, source_foldl_join, String.append_empty]

theorem copies_conditional : SoundFor kind conditional fun c t rest => rest = [] ∧
    ∃ (beforeQuestion afterQuestion beforeColon afterColon : Blanks)
      (thenBranch elseBranch : LiteralForm),
      c.thenBranch = thenBranch.tree ∧ c.elseBranch = elseBranch.tree ∧
        t = c.condition.source ++ beforeQuestion.text ++ "?" ++ afterQuestion.text ++
          thenBranch.text ++ beforeColon.text ++ ":" ++ afterColon.text ++ elseBranch.text := by
  refine copies_condition.bind fun condition => ?_
  refine yieldsFor_blanks.bind fun beforeQuestion => ?_
  refine (yields_mark (t := "?") rfl (by decide)).bind fun _ => ?_
  refine yieldsFor_blanks.bind fun afterQuestion => ?_
  refine yields_literal.bind fun thenBranch => ?_
  refine yieldsFor_blanks.bind fun beforeColon => ?_
  refine (yields_mark (t := ":") rfl (by decide)).bind fun _ => ?_
  refine yieldsFor_blanks.bind fun afterColon => ?_
  refine yields_literal.bind fun elseBranch => ?_
  refine (sound_ending_pure _).mono fun v t rest h => ?_
  obtain ⟨rfl, rfl, rfl⟩ := h
  refine ⟨rfl, beforeQuestion, afterQuestion, beforeColon, afterColon, thenBranch, elseBranch,
    rfl, rfl, ?_⟩
  simp [String.append_assoc]

end Rulebook.Expr

namespace Rulebook.Fragment
open Text Rulebook.Expr Reader Rule

/-- Cut at the blanks around `?` and `:`, the trimmed text of the rule gives the condition and the
branches of the fragment. -/
def Copies (text table fragment : String) : Prop :=
  ∃ (condition : String) (beforeQuestion afterQuestion beforeColon afterColon : Blanks)
    (thenBranch elseBranch : LiteralForm),
    trimmed text = condition ++ beforeQuestion.text ++ "?" ++ afterQuestion.text ++
        thenBranch.text ++ beforeColon.text ++ ":" ++ afterColon.text ++ elseBranch.text ∧
      fragment = "SELECT CASE WHEN " ++ condition ++ " THEN " ++ thenBranch.text ++ " ELSE " ++
        elseBranch.text ++ " FROM " ++ table

/-- Every fragment is copied from its rule, if each order mark of the text is sheltered. A text with
halves of characters is none of these. -/
theorem ofText_copies (text table fragment : String) (hs : Sheltered (trim text.toList))
    (h : ofText text table = .ok fragment) : Copies text table fragment := by
  obtain ⟨c, hparse, rfl⟩ : ∃ c, parse text = .ok c ∧ ofNode c.node table = fragment := by
    rw [ofText] at h
    cases hparse : parse text with
    | error e => rw [hparse] at h; cases h
    | ok c => rw [hparse] at h; exact ⟨c, rfl, by cases h; rfl⟩
  obtain ⟨t, rest, hsplit, rfl, beforeQuestion, afterQuestion, beforeColon, afterColon, thenBranch,
    elseBranch, hthen, helse, rfl⟩ := SoundFor.of_parse copies_conditional hs hparse
  refine ⟨c.condition.source, beforeQuestion, afterQuestion, beforeColon, afterColon, thenBranch,
    elseBranch, ?_, ?_⟩
  · rw [trimmed, hsplit, List.append_nil, String.ofList_toList]
  · simp [ofNode, Conditional.node, Node.children, Node.source, hthen, helse]

def markedTest : RuleForm :=
  choice (.comparison ⟨"note", by decide⟩ .one .equal .one (.quoted "\ufeff" (by decide)))

theorem ofText_copies_markedTest :
    markedTest.text = "note == '\ufeff' ? 'x' : 'y'" ∧
      Copies markedTest.text "t" "SELECT CASE WHEN note == '\ufeff' THEN 'x' ELSE 'y' FROM t" :=
  ⟨by decide, ofText_copies markedTest.text "t" _ (by decide)
    (ofText_of_parse (parse_form markedTest) "t")⟩

/-- A list whose first member has an order mark in front. The mark is lost, and the member takes
the text behind it in its place. -/
def markedMember : String := "\x7b\ufeff'a, 'b'\x7d.contains(r)?'p':'q'"

theorem ofText_markedMember :
    ofText markedMember "t" =
        .ok "SELECT CASE WHEN \x7b'a, ', 'b'\x7d.contains(r) THEN 'p' ELSE 'q' FROM t" ∧
      ¬ Copies markedMember "t"
        "SELECT CASE WHEN \x7b'a, ', 'b'\x7d.contains(r) THEN 'p' ELSE 'q' FROM t" := by
  refine ⟨by cbv, ?_⟩
  rintro ⟨condition, gap, afterQuestion, beforeColon, afterColon, thenBranch, elseBranch, htext,
    hfragment⟩
  have hmark : orderMark ∉ condition.toList := by
    intro hm
    have hmem : orderMark ∈ ("SELECT CASE WHEN " ++ condition ++ " THEN " ++ thenBranch.text ++
        " ELSE " ++ elseBranch.text ++ " FROM " ++ "t").toList := by simp [hm]
    rw [← hfragment] at hmem
    exact absurd hmem (by decide)
  obtain ⟨tail, hsplit⟩ : ∃ tail, trim markedMember.toList =
      condition.toList ++ (gap.text.toList ++ '?' :: tail) := by
    have hlist := congrArg String.toList htext
    simp only [trimmed, String.toList_ofList, String.toList_append, List.append_assoc] at hlist
    exact ⟨_, hlist⟩
  -- The condition ends in front of blanks and `?`, so it has the mark and loses it.
  have hbehind : (trimStart ((trim markedMember.toList).drop condition.toList.length)).head? =
      some '?' := by
    have hstop : Stops isBlank ('?' :: tail) := stops_cons.2 (by decide)
    rw [hsplit, List.drop_left, trimStart, dropWhile_append gap.blank hstop]
    rfl
  have hlong : 1 < condition.toList.length := by
    by_contra hshort
    have hshort : condition.toList.length = 0 ∨ condition.toList.length = 1 := by omega
    obtain h | h := hshort
    all_goals
      rw [h] at hbehind
      exact absurd hbehind (by decide)
  have hsecond : condition.toList[1]? = some orderMark := by
    rw [← List.getElem?_append_left hlong, ← hsplit]
    decide
  exact hmark (List.mem_of_getElem? hsecond)

end Rulebook.Fragment
