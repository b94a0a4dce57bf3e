import Rulebook.Proofs.Expr.Completeness

/-! Every tree a reader gives is the tree of a form, and the text it took is the form's text. Texts
with the order mark are left out, since the mark is dropped where it stands in front of a token. -/

namespace Rulebook.Expr
open Text Reader

variable {kind : List Char → Prop} [Legible kind]

theorem yields_quotedLiteral : YieldsFor kind quotedLiteral LiteralForm.tree LiteralForm.text := by
  refine (yields_pattern .quotedLiteral).bind fun t => ?_
  obtain ⟨t, u, hu, ht⟩ := t
  have htext : t = "'" ++ String.ofList u ++ "'" := by simp [← String.toList_inj, ht]
  refine .pure fun _ => ⟨.quoted (String.ofList u) (by simpa using hu), ?_, ?_⟩
  · simp only [htext, unquote_quoted]
    rfl
  · rw [String.append_empty]
    exact htext

theorem yields_bareLiteral : YieldsFor kind bareLiteral LiteralForm.tree LiteralForm.text := by
  refine (yields_pattern .bareLiteral).bind fun t => ?_
  obtain ⟨t, hne, hbare⟩ := t
  exact .pure fun _ => ⟨.bare t (by simpa using hne) hbare, rfl, String.append_empty⟩

theorem yields_literal : YieldsFor kind literal LiteralForm.tree LiteralForm.text :=
  yields_quotedLiteral.either yields_bareLiteral

theorem yields_fieldName : YieldsFor kind fieldName FieldForm.tree FieldForm.text :=
  (yields_pattern .name).bind fun t =>
    .pure fun _ => ⟨⟨t.1, isName_iff.2 t.2⟩, rfl, String.append_empty⟩

theorem yields_sign (op : Comparator) : YieldsFor kind (sign op) id Comparator.sign :=
  (yields_word op.sign_size (by cases op <;> decide)).bind fun _ =>
    .pure fun _ => ⟨op, rfl, String.append_empty⟩

theorem yields_comparator : YieldsFor kind comparator id Comparator.sign :=
  (yields_sign .equal).either ((yields_sign .notEqual).either
    ((yields_sign .greater).either (yields_sign .less)))

def wordPair (x : Connective × Bool) : Connective × String := (x.1, connectiveWord x.1 x.2)

theorem yields_keyword (op : Connective) (upper : Bool) :
    YieldsFor kind (keyword op (connectiveWord op upper)) wordPair fun x => connectiveWord x.1 x.2 :=
  (yields_word (connectiveWord_size op upper) (by cases op <;> cases upper <;> decide)).bind fun _ =>
    .pure fun _ => ⟨(op, upper), rfl, String.append_empty⟩

theorem yields_connective :
    YieldsFor kind connective wordPair fun x => connectiveWord x.1 x.2 :=
  .either (.either (yields_keyword .and false) (yields_keyword .and true))
    (.either (yields_keyword .or false) (yields_keyword .or true))

theorem yields_nextMember :
    Yields nextMember (fun m : MemberForm => (m.text, m.item.tree)) MemberForm.text := by
  refine yields_blanks.bind fun before => ?_
  refine (yields_mark (t := ",") rfl (by decide)).bind fun _ => ?_
  refine yields_blanks.bind fun after => ?_
  refine yields_literal.bind fun item => ?_
  refine .pure fun _ => ⟨⟨before, after, item⟩, ?_, ?_⟩
  · simp [MemberForm.text]
  · simp [MemberForm.text, String.append_assoc]

theorem yields_members : Yields members MembersForm.tree MembersForm.text := by
  refine (yields_mark (t := "\x7b") rfl (by decide)).bind fun _ => ?_
  refine yields_blanks.bind fun lead => ?_
  refine yields_literal.bind fun first => ?_
  refine yields_nextMember.many.bind fun others => ?_
  refine yields_blanks.bind fun trail => ?_
  refine (yields_mark (t := "\x7d") rfl (by decide)).bind fun _ => ?_
  refine .pure fun _ => ⟨⟨lead, first, others, trail⟩, ?_, ?_⟩
  · simp [MembersForm.tree, MembersForm.items, MembersForm.text, Function.comp_def]
  · simp [MembersForm.text, String.append_assoc]

def openingText (gaps : Gap × Gap) : String := (CallForm.mk gaps.1 gaps.2 .none).opening

theorem yields_containsOpening : Yields containsOpening openingText openingText := by
  refine (yields_word (by simp; decide) (by decide)).bind fun _ => ?_
  refine yields_blanks.bind fun beforeParen => ?_
  refine (yields_mark (t := "(") rfl (by decide)).bind fun _ => ?_
  refine yields_blanks.bind fun lead => ?_
  refine .pure fun _ => ⟨(beforeParen, lead), rfl, ?_⟩
  simp [openingText, CallForm.opening, String.append_assoc]

theorem yields_containsClosing :
    Yields containsClosing (fun trail : Gap => trail.text ++ ")") fun trail => trail.text ++ ")" :=
  yields_blanks.bind fun trail => (yields_mark (t := ")") rfl (by decide)).bind fun _ =>
    .pure fun _ => ⟨trail, rfl, by rw [String.append_empty]⟩

theorem yields_argument : Yields argument ArgumentForm.tree ArgumentForm.text := by
  refine .either ((yields_members.map Argument.members).of_forms fun m => ?_)
    ((yields_literal.map Argument.literal).of_forms fun l => ?_)
  · exact ⟨.members m, rfl, rfl⟩
  · exact ⟨.literal l, rfl, rfl⟩

theorem yields_fieldContains : Yields fieldContains PredicateForm.tree PredicateForm.text := by
  refine yields_fieldName.bind fun target => ?_
  refine yields_containsOpening.bind fun gaps => ?_
  refine yields_argument.bind fun argument => ?_
  refine yields_containsClosing.bind fun trail => ?_
  refine .pure fun _ => ⟨.fieldContains target ⟨gaps.1, gaps.2, trail⟩ argument, ?_, ?_⟩
  all_goals simp [PredicateForm.tree, PredicateForm.text, FieldForm.tree, openingText,
    CallForm.opening, CallForm.closing, String.append_assoc]

theorem yields_membersContain : Yields membersContain PredicateForm.tree PredicateForm.text := by
  refine yields_members.bind fun argument => ?_
  refine yields_containsOpening.bind fun gaps => ?_
  refine yields_fieldName.bind fun target => ?_
  refine yields_containsClosing.bind fun trail => ?_
  refine .pure fun _ => ⟨.membersContain argument ⟨gaps.1, gaps.2, trail⟩ target, ?_, ?_⟩
  all_goals simp [PredicateForm.tree, PredicateForm.text, FieldForm.tree, MembersForm.tree,
    openingText, CallForm.opening, CallForm.closing, String.append_assoc]

theorem yields_comparison : Yields comparison PredicateForm.tree PredicateForm.text := by
  refine yields_fieldName.bind fun left => ?_
  refine yields_blanks.bind fun before => ?_
  refine yields_comparator.bind fun op => ?_
  refine yields_blanks.bind fun after => ?_
  refine yields_literal.bind fun right => ?_
  refine .pure fun _ => ⟨.comparison left before op after right, ?_, ?_⟩
  all_goals simp [PredicateForm.tree, PredicateForm.text, FieldForm.tree, String.append_assoc]

theorem yields_predicate : Yields predicate PredicateForm.tree PredicateForm.text :=
  yields_fieldContains.either (yields_membersContain.either yields_comparison)

theorem yields_link : Yields link LinkForm.link LinkForm.text := by
  refine yields_someBlanks.bind fun before => ?_
  refine yields_connective.bind fun word => ?_
  refine yields_someBlanks.bind fun after => ?_
  refine yields_predicate.bind fun right => ?_
  refine .pure fun _ => ⟨⟨before, word.1, word.2, after, right⟩, rfl, ?_⟩
  simp [LinkForm.text, LinkForm.joint, String.append_assoc]

theorem yields_condition : Yields condition ConditionForm.tree ConditionForm.text := by
  refine yields_predicate.bind fun first => ?_
  refine yields_link.many.bind fun links => ?_
  refine .pure fun _ => ⟨.ofLinks first links, ?_, ?_⟩
  · exact (ConditionForm.tree_foldl (.single first) links).symm
  · rw [ConditionForm.text_ofLinks, String.append_empty]

theorem sound_ending_pure {α : Type} {kind : List Char → Prop} (v : α) :
    SoundFor kind (ending >>= fun _ => pure v) fun w t rest => w = v ∧ t = "" ∧ rest = [] := by
  intro n s w c hs h
  obtain ⟨_, c', he, hv⟩ := of_bind_ok h
  cases hv
  obtain ⟨t, rest, rfl, hc, hrest, rfl, rfl⟩ := sound_ending n s _ _ hs he
  exact ⟨"", [], rfl, hc, hrest, rfl, rfl, rfl⟩

theorem sound_conditional :
    Sound conditional fun v t rest => ∃ r : RuleForm, v = r.tree ∧ t = r.text ∧ rest = [] := by
  refine yields_condition.bind fun condition => ?_
  refine yields_blanks.bind fun beforeQuestion => ?_
  refine (yields_mark (t := "?") rfl (by decide)).bind fun _ => ?_
  refine yields_blanks.bind fun afterQuestion => ?_
  refine yields_literal.bind fun thenBranch => ?_
  refine yields_blanks.bind fun beforeColon => ?_
  refine (yields_mark (t := ":") rfl (by decide)).bind fun _ => ?_
  refine yields_blanks.bind fun afterColon => ?_
  refine yields_literal.bind fun elseBranch => ?_
  refine (sound_ending_pure _).mono fun v t rest h => ?_
  obtain ⟨rfl, rfl, rfl⟩ := h
  refine ⟨⟨condition, beforeQuestion, afterQuestion, thenBranch, beforeColon, afterColon,
    elseBranch⟩, ?_, ?_, rfl⟩
  all_goals simp [RuleForm.tree, RuleForm.text, String.append_assoc]

omit [Legible kind] in
theorem SoundFor.of_parse {P : Conditional → String → List Char → Prop}
    (hp : SoundFor kind conditional P) {text : String} {c : Conditional}
    (hs : kind (trim text.toList)) (h : parse text = .ok c) :
    ∃ t rest, trim text.toList = t.toList ++ rest ∧ P c t rest := by
  simp only [parse] at h
  split at h
  case h_1 => cases h
  case h_2 =>
    split at h
    case h_1 c' k hread =>
      cases h
      obtain ⟨t, rest, hsplit, -, -, hP⟩ := hp 0 _ _ _ hs hread
      exact ⟨t, rest, hsplit, hP⟩
    case h_2 => cases h

theorem exists_form {text : String} {c : Conditional} (hm : orderMark ∉ text.toList)
    (h : parse text = .ok c) : ∃ r : RuleForm, trimmed text = r.text ∧ c = r.tree := by
  have hs : orderMark ∉ trim text.toList := fun hmem => hm (mem_of_mem_trim hmem)
  obtain ⟨t, rest, hsplit, r, rfl, rfl, rfl⟩ := SoundFor.of_parse sound_conditional hs h
  refine ⟨r, ?_, rfl⟩
  rw [trimmed, hsplit]
  simp

end Rulebook.Expr
