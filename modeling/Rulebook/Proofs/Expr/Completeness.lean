import Rulebook.Expr.Grammar
import Rulebook.Proofs.Expr.Readers

/-! Every form is read as its tree, whatever its gaps, quotes and words are. A reader is
deterministic and its tokens are longest runs, so each production needs to know only that the text
behind it does not make its last token longer. -/

namespace Rulebook.Expr
open Text Reader

variable {rest : List Char}

theorem FieldForm.matches (f : FieldForm) : Pattern.name.Matches f.text.toList :=
  isName_iff.1 f.name

theorem FieldForm.stops (f : FieldForm) : Stops isBlank (f.text.toList ++ rest) :=
  f.matches.stops.append f.matches.nonempty

namespace LiteralForm

def pattern : LiteralForm → Pattern
  | quoted .. => .quotedLiteral
  | bare .. => .bareLiteral

theorem matches_text (l : LiteralForm) : l.pattern.Matches l.text.toList := by
  cases l with
  | quoted content closed => exact ⟨content.toList, closed, by simp [text]⟩
  | bare token nonempty bare => exact ⟨by simpa [text] using nonempty, bare⟩

theorem stops (l : LiteralForm) : Stops isBlank (l.text.toList ++ rest) :=
  l.matches_text.stops.append l.matches_text.nonempty

theorem stops_reverse (l : LiteralForm) : Stops isBlank l.text.toList.reverse := by
  cases l with
  | quoted content closed => simp [text]; decide
  | bare token nonempty bare =>
    intro c hc
    exact isBlank_of_isBare (bare c (List.mem_reverse.1 (List.mem_of_mem_head? hc)))

/-- The text behind the literal does not make it longer. -/
def Ends (l : LiteralForm) (rest : List Char) : Prop := l.pattern.Ends rest

theorem Ends.of_stops {l : LiteralForm} (h : Stops isBare rest) : l.Ends rest := by
  cases l with
  | quoted => trivial
  | bare => exact h

end LiteralForm

theorem Gap.stops_bare (g : Gap) (h : Stops isBare rest) : Stops isBare (g.text.toList ++ rest) :=
  h.prepend fun c hc => isBare_of_isBlank (g.blank c hc)

theorem Space.stops_bare (g : Space) : Stops isBare (g.text.toList ++ rest) := by
  have hne : g.text.toList ≠ [] := by simpa using g.nonempty
  obtain ⟨c, u, hcu⟩ := List.exists_cons_of_ne_nil hne
  have hc : isBlank c = true := g.blank c (by simp [hcu])
  simpa [hcu] using isBare_of_isBlank hc

theorem Gap.stops_char (g : Gap) {a : Char} (ha : isBlank a = false)
    (h : Stops (fun c => c == a || c == orderMark) rest) :
    Stops (fun c => c == a || c == orderMark) (g.text.toList ++ rest) := by
  refine h.prepend fun c hc => ?_
  have hmark : c ≠ orderMark := fun he => g.unmarked (he ▸ hc)
  have hca : c ≠ a := by
    rintro rfl
    simp [g.blank c hc] at ha
  simp [hca, hmark]

theorem unquote_quoted (s : String) : unquote ("'" ++ s ++ "'") = s := by
  simp [unquote]

theorem fails_quotedLiteral {s : List Char} (hs : Stops isBlank s) (h : Stops (· == '\'') s) :
    Fails quotedLiteral s := by
  refine (fails_pattern hs ?_).bind
  cases s with
  | nil => rfl
  | cons c s =>
    have hc : c ≠ '\'' := by simpa using h
    simp [Pattern.match?, hc]

theorem reads_literal (l : LiteralForm) (he : l.Ends rest) :
    Reads literal (l.text.toList ++ rest) rest l.tree := by
  have hread := reads_pattern l.matches_text he
  cases l with
  | quoted content closed =>
    have h := hread.bind_pure fun source => (⟨unquote source, true, source⟩ : Literal)
    rw [LiteralForm.text, unquote_quoted] at h
    exact h.either_left
  | bare token nonempty bare =>
    refine .either_right (fails_quotedLiteral (LiteralForm.stops _) ?_) ?_
    · obtain ⟨c, u, hcu⟩ := List.exists_cons_of_ne_nil (l := token.toList) (by simpa using nonempty)
      have hc : isBare c = true := bare c (by simp [hcu])
      simp only [LiteralForm.text, hcu, List.cons_append, stops_cons]
      rw [beq_eq_false_iff_ne]
      rintro rfl
      exact absurd hc (by decide)
    · exact hread.bind_pure fun source => (⟨source, false, source⟩ : Literal)

theorem reads_fieldName (f : FieldForm) (he : Stops isNameRest rest) :
    Reads fieldName (f.text.toList ++ rest) rest f.tree :=
  (reads_pattern f.matches he).bind_pure fun source => (⟨source, source⟩ : Field)

namespace Comparator

theorem sign_size (op : Comparator) : ∀ c ∈ op.sign.toList, c.utf8Size = 1 := by
  cases op <;> simp [sign] <;> decide

theorem stops_sign (op : Comparator) {q : Char → Bool}
    (h : q '=' = false ∧ q '!' = false ∧ q '>' = false ∧ q '<' = false) (s : List Char) :
    Stops q (op.sign.toList ++ s) := by
  cases op <;> simp [sign, h]

end Comparator

theorem reads_sign (op : Comparator) (rest : List Char) :
    Reads (sign op) (op.sign.toList ++ rest) rest op :=
  (reads_word op.sign_size (op.stops_sign (by decide)) rest).bind_pure fun _ => op

theorem reads_comparator (op : Comparator) (rest : List Char) :
    Reads comparator (op.sign.toList ++ rest) rest op := by
  have hread := reads_sign op rest
  cases op with
  | equal => exact hread.either_left
  | notEqual =>
    refine .either_right (.bind ?_) hread.either_left
    exact fails_word rfl (by decide) (stops_word rfl (by decide))
  | greater =>
    refine .either_right (.bind ?_) (.either_right (.bind ?_) hread.either_left)
    all_goals exact fails_word rfl (by decide) (stops_word rfl (by decide))
  | less =>
    refine .either_right (.bind ?_) (.either_right (.bind ?_) (.either_right (.bind ?_) hread))
    all_goals exact fails_word rfl (by decide) (stops_word rfl (by decide))

theorem connectiveWord_size (op : Connective) (upper : Bool) :
    ∀ c ∈ (connectiveWord op upper).toList, c.utf8Size = 1 := by
  cases op <;> cases upper <;> simp [connectiveWord] <;> decide

theorem stops_connectiveWord (op : Connective) (upper : Bool) {q : Char → Bool}
    (h : q 'a' = false ∧ q 'A' = false ∧ q 'o' = false ∧ q 'O' = false) (s : List Char) :
    Stops q ((connectiveWord op upper).toList ++ s) := by
  cases op <;> cases upper <;> simp [connectiveWord, h]

theorem reads_keyword (op : Connective) (upper : Bool) (rest : List Char) :
    Reads (keyword op (connectiveWord op upper)) ((connectiveWord op upper).toList ++ rest) rest
      (op, connectiveWord op upper) :=
  (reads_word (connectiveWord_size op upper)
    (stops_connectiveWord op upper (by decide)) rest).bind_pure fun text => (op, text)

theorem reads_connective (op : Connective) (upper : Bool) (rest : List Char) :
    Reads connective ((connectiveWord op upper).toList ++ rest) rest
      (op, connectiveWord op upper) := by
  have hread := reads_keyword op upper rest
  cases op <;> cases upper
  case and.false => exact hread.either_left.either_left
  case and.true =>
    refine .either_left (.either_right (.bind ?_) hread)
    exact fails_word rfl (by decide) (stops_word rfl (by decide))
  case or.false =>
    refine .either_right (.either (.bind ?_) (.bind ?_)) hread.either_left
    all_goals exact fails_word rfl (by decide) (stops_word rfl (by decide))
  case or.true =>
    refine .either_right (.either (.bind ?_) (.bind ?_)) (.either_right (.bind ?_) hread)
    all_goals exact fails_word rfl (by decide) (stops_word rfl (by decide))

namespace MemberForm

theorem stops_bare (m : MemberForm) : Stops isBare (m.text.toList ++ rest) := by
  simp only [text, String.toList_append, List.append_assoc]
  exact m.before.stops_bare (stops_word rfl (by decide))

theorem stops_bare_join (ms : List MemberForm) (h : Stops isBare rest) :
    Stops isBare ((String.join (ms.map (·.text))).toList ++ rest) := by
  cases ms with
  | nil => simpa using h
  | cons m ms => simpa using m.stops_bare

end MemberForm

theorem reads_nextMember (m : MemberForm) (he : m.item.Ends rest) :
    Reads nextMember (m.text.toList ++ rest) rest (m.text, m.item.tree) := by
  simp only [MemberForm.text, String.toList_append, List.append_assoc]
  refine (reads_blanks m.before (stops_word rfl (by decide))).bind ?_
  refine (reads_mark rfl (by decide) _).bind ?_
  refine (reads_blanks m.after m.item.stops).bind ?_
  refine (reads_literal m.item he).bind ?_
  exact .pure (by rw [LiteralForm.tree_source]) rest

theorem reads_members (m : MembersForm) (rest : List Char) :
    Reads members (m.text.toList ++ rest) rest m.tree := by
  have hclose : Stops isBlank ("\x7d".toList ++ rest) := stops_word rfl (by decide)
  have hbare : Stops isBare (m.trail.text.toList ++ ("\x7d".toList ++ rest)) :=
    m.trail.stops_bare (stops_word rfl (by decide))
  have hfail : Fails nextMember (m.trail.text.toList ++ ("\x7d".toList ++ rest)) :=
    (reads_blanks m.trail hclose).bind_fails (.bind (fails_mark (by simp)))
  have hothers : Reads (many nextMember)
      ((String.join (m.others.map MemberForm.text)).toList ++
        (m.trail.text.toList ++ ("\x7d".toList ++ rest)))
      (m.trail.text.toList ++ ("\x7d".toList ++ rest))
      (m.others.map fun m => (m.text, m.item.tree)) :=
    .many (fun m s => reads_nextMember m) (fun _ g _ => .of_stops g.stops_bare)
      (fun m => by simp [MemberForm.text]) (fun f _ => .of_stops hbare) hfail
  simp only [MembersForm.text, String.toList_append, List.append_assoc]
  refine (reads_mark rfl (by decide) _).bind ?_
  refine (reads_blanks m.lead m.first.stops).bind ?_
  refine (reads_literal m.first (.of_stops (MemberForm.stops_bare_join m.others hbare))).bind ?_
  refine hothers.bind ?_
  refine (reads_blanks m.trail hclose).bind ?_
  refine (reads_mark rfl (by decide) _).bind ?_
  refine .pure ?_ rest
  simp [MembersForm.tree, MembersForm.items, MembersForm.text, Function.comp_def]

theorem reads_containsOpening (c : CallForm) (hr : Stops isBlank rest) :
    Reads containsOpening (c.opening.toList ++ rest) rest c.opening := by
  simp only [CallForm.opening, String.toList_append, List.append_assoc]
  refine (reads_word (by simp; decide) (fun _ => stops_word rfl (by decide)) _).bind ?_
  refine (reads_blanks c.beforeParen (stops_word rfl (by decide))).bind ?_
  refine (reads_mark rfl (by decide) _).bind ?_
  exact (reads_blanks c.lead hr).bind (.pure rfl rest)

theorem reads_containsClosing (c : CallForm) (rest : List Char) :
    Reads containsClosing (c.closing.toList ++ rest) rest c.closing := by
  simp only [CallForm.closing, String.toList_append, List.append_assoc]
  refine (reads_blanks c.trail (stops_word rfl (by decide))).bind ?_
  exact (reads_mark rfl (by decide) _).bind (.pure rfl rest)

theorem CallForm.stops_closing (c : CallForm) : Stops isBare (c.closing.toList ++ rest) := by
  simp only [closing, String.toList_append, List.append_assoc]
  exact c.trail.stops_bare (stops_word rfl (by decide))

theorem LiteralForm.stops_char (l : LiteralForm) {a : Char} (hq : a ≠ '\'')
    (hb : isBare a = false) : Stops (· == a) (l.text.toList ++ rest) := by
  cases l with
  | quoted content closed => simpa [text] using hq.symm
  | bare token nonempty bare =>
    obtain ⟨c, u, hcu⟩ := List.exists_cons_of_ne_nil (l := token.toList) (by simpa using nonempty)
    have hc : isBare c = true := bare c (by simp [hcu])
    simp only [text, hcu, List.cons_append, stops_cons, beq_eq_false_iff_ne]
    rintro rfl
    simp [hb] at hc

theorem FieldForm.stops_char (f : FieldForm) {a : Char} (ha : isNameStart a = false) :
    Stops (· == a) (f.text.toList ++ rest) := by
  obtain ⟨c, u, hcu, hc, -⟩ := f.matches
  simp only [hcu, List.cons_append, stops_cons, beq_eq_false_iff_ne]
  rintro rfl
  simp [ha] at hc

theorem ArgumentForm.stops (a : ArgumentForm) : Stops isBlank (a.text.toList ++ rest) := by
  cases a with
  | literal l => exact l.stops
  | members m => simp [text, MembersForm.text]; decide

theorem reads_argument (a : ArgumentForm) (hr : Stops isBare rest) :
    Reads argument (a.text.toList ++ rest) rest a.tree := by
  cases a with
  | literal l =>
    have hfail : Fails members (l.text.toList ++ rest) :=
      .bind (fails_mark (l.stops_char (by decide) (by decide)))
    exact .either_right (hfail.map _) ((reads_literal l (.of_stops hr)).map _)
  | members m => exact .either_left ((reads_members m rest).map _)

namespace PredicateForm

def Ends : PredicateForm → List Char → Prop
  | comparison _ _ _ _ right, rest => right.Ends rest
  | _, _ => True

theorem Ends.of_stops {p : PredicateForm} (h : Stops isBare rest) : p.Ends rest := by
  cases p with
  | comparison left before op after right => exact LiteralForm.Ends.of_stops h
  | _ => trivial

theorem stops (p : PredicateForm) : Stops isBlank (p.text.toList ++ rest) := by
  cases p with
  | fieldContains target call argument => simpa [text] using target.stops
  | membersContain argument call target => simp [text, MembersForm.text]; decide
  | comparison left before op after right => simpa [text] using left.stops

end PredicateForm

theorem reads_fieldContains (target : FieldForm) (call : CallForm) (argument : ArgumentForm)
    (rest : List Char) :
    Reads fieldContains
      ((PredicateForm.fieldContains target call argument).text.toList ++ rest) rest
      (PredicateForm.fieldContains target call argument).tree := by
  simp only [PredicateForm.text, String.toList_append, List.append_assoc]
  refine (reads_fieldName target (by simp [CallForm.opening]; decide)).bind ?_
  refine (reads_containsOpening call argument.stops).bind ?_
  refine (reads_argument argument call.stops_closing).bind ?_
  refine (reads_containsClosing call rest).bind (.pure ?_ rest)
  simp [PredicateForm.tree, PredicateForm.text, FieldForm.tree]

theorem reads_membersContain (argument : MembersForm) (call : CallForm) (target : FieldForm)
    (rest : List Char) :
    Reads membersContain
      ((PredicateForm.membersContain argument call target).text.toList ++ rest) rest
      (PredicateForm.membersContain argument call target).tree := by
  have hname : Stops isNameRest (call.closing.toList ++ rest) :=
    stops_isNameRest call.stops_closing
  simp only [PredicateForm.text, String.toList_append, List.append_assoc]
  refine (reads_members argument _).bind ?_
  refine (reads_containsOpening call target.stops).bind ?_
  refine (reads_fieldName target hname).bind ?_
  refine (reads_containsClosing call rest).bind (.pure ?_ rest)
  simp [PredicateForm.tree, PredicateForm.text, FieldForm.tree, MembersForm.tree]

theorem reads_comparison (left : FieldForm) (before : Gap) (op : Comparator) (after : Gap)
    (right : LiteralForm) (he : right.Ends rest) :
    Reads comparison
      ((PredicateForm.comparison left before op after right).text.toList ++ rest) rest
      (PredicateForm.comparison left before op after right).tree := by
  have hname : ∀ s, Stops isNameRest (before.text.toList ++ (op.sign.toList ++ s)) := fun s =>
    stops_isNameRest (before.stops_bare (op.stops_sign (by decide) s))
  simp only [PredicateForm.text, String.toList_append, List.append_assoc]
  refine (reads_fieldName left (hname _)).bind ?_
  refine (reads_blanks before (op.stops_sign (by decide) _)).bind ?_
  refine (reads_comparator op _).bind ?_
  refine (reads_blanks after right.stops).bind ?_
  refine (reads_literal right he).bind (.pure ?_ rest)
  simp [PredicateForm.tree, PredicateForm.text, FieldForm.tree]

/-- The form decides which of the three productions is the first not to fail. -/
theorem reads_predicate (p : PredicateForm) (he : p.Ends rest) :
    Reads predicate (p.text.toList ++ rest) rest p.tree := by
  cases p with
  | fieldContains target call argument =>
    exact (reads_fieldContains target call argument rest).either_left
  | membersContain argument call target =>
    have hfail : Fails fieldContains
        ((PredicateForm.membersContain argument call target).text.toList ++ rest) := by
      refine .bind (.bind (fails_pattern (PredicateForm.stops _) ?_))
      simp [PredicateForm.text, MembersForm.text, Pattern.match?]
      decide
    exact .either_right hfail (reads_membersContain argument call target rest).either_left
  | comparison left before op after right =>
    have hread := reads_comparison left before op after right he
    -- The field is read here too, and only the word behind it is missing.
    have hfail : Fails fieldContains
        ((PredicateForm.comparison left before op after right).text.toList ++ rest) := by
      have hname : ∀ s, Stops isNameRest (before.text.toList ++ (op.sign.toList ++ s)) := fun s =>
        stops_isNameRest (before.stops_bare (op.stops_sign (by decide) s))
      simp only [PredicateForm.text, String.toList_append, List.append_assoc]
      refine (reads_fieldName left (hname _)).bind_fails (.bind (.bind ?_))
      exact fails_word rfl (by decide)
        (before.stops_char (by decide) (op.stops_sign (by decide) _))
    have hfail' : Fails membersContain
        ((PredicateForm.comparison left before op after right).text.toList ++ rest) := by
      simp only [PredicateForm.text, String.toList_append, List.append_assoc]
      exact .bind (.bind (fails_mark (left.stops_char (by decide))))
    exact .either_right hfail (.either_right hfail' hread)

namespace LinkForm

theorem stops_bare (l : LinkForm) : Stops isBare (l.text.toList ++ rest) := by
  simp only [text, joint, String.toList_append, List.append_assoc]
  exact l.before.stops_bare

def link (l : LinkForm) : Link := ⟨l.op, l.joint, l.right.tree⟩

end LinkForm

theorem reads_link (l : LinkForm) (he : l.right.Ends rest) :
    Reads link (l.text.toList ++ rest) rest l.link := by
  simp only [LinkForm.text, LinkForm.joint, String.toList_append, List.append_assoc]
  refine (reads_someBlanks l.before (stops_connectiveWord _ _ (by decide) _)).bind ?_
  refine (reads_connective l.op l.upper _).bind ?_
  refine (reads_someBlanks l.after l.right.stops).bind ?_
  exact (reads_predicate l.right he).bind (.pure rfl rest)

theorem fails_connective {s : List Char}
    (h : Stops (fun c => c == 'a' || c == 'A' || c == 'o' || c == 'O' || c == orderMark) s) :
    Fails connective s := by
  have hword : ∀ {w : String} {a : Char} {u : List Char} {op : Connective}, w.toList = a :: u →
      a ≠ replacement → (a = 'a' ∨ a = 'A' ∨ a = 'o' ∨ a = 'O') → Fails (keyword op w) s := by
    intro w a u op hw hne ha
    refine .bind (fails_word hw hne (h.mono fun c hc => ?_))
    simp only [Bool.or_eq_false_iff] at hc
    rcases ha with rfl | rfl | rfl | rfl <;> simp [hc]
  have hand : Fails (keyword .and "and") s := hword rfl (by decide) (.inl rfl)
  have hAnd : Fails (keyword .and "AND") s := hword rfl (by decide) (.inr (.inl rfl))
  have hor : Fails (keyword .or "or") s := hword rfl (by decide) (.inr (.inr (.inl rfl)))
  have hOr : Fails (keyword .or "OR") s := hword rfl (by decide) (.inr (.inr (.inr rfl)))
  exact .either (.either hand hAnd) (.either hor hOr)

theorem fails_link (g : Gap) (hb : Stops isBlank rest) (hr : Fails connective rest) :
    Fails link (g.text.toList ++ rest) := by
  by_cases hg : g.text = ""
  · rw [hg]
    exact .bind (fails_someBlanks hb)
  · exact (reads_someBlanks ⟨g, hg⟩ hb).bind_fails (.bind hr)

namespace ConditionForm

def Ends : ConditionForm → List Char → Prop
  | single p => p.Ends
  | joined _ link => link.right.Ends

theorem Ends.of_stops {c : ConditionForm} (h : Stops isBare rest) : c.Ends rest := by
  cases c with
  | single p => exact PredicateForm.Ends.of_stops h
  | joined left link => exact PredicateForm.Ends.of_stops h

theorem ofLinks_concat (first : PredicateForm) (links : List LinkForm) (l : LinkForm) :
    ofLinks first (links ++ [l]) = joined (ofLinks first links) l := by
  simp [ofLinks]

theorem ends_ofLinks {first : PredicateForm} {links : List LinkForm}
    (h : (ofLinks first links).Ends rest) :
    (links = [] → first.Ends rest) ∧ ∀ l ∈ links.getLast?, l.right.Ends rest := by
  rcases List.eq_nil_or_concat links with rfl | ⟨links, l, rfl⟩
  · exact ⟨fun _ => h, by simp⟩
  · rw [List.concat_eq_append, ofLinks_concat] at h
    exact ⟨by simp, by simpa [Ends] using h⟩

theorem tree_foldl (c : ConditionForm) (links : List LinkForm) :
    (links.foldl joined c).tree = (links.map (·.link)).foldl Link.join c.tree := by
  induction links generalizing c with
  | nil => rfl
  | cons l links ih =>
    rw [List.foldl_cons, ih, List.map_cons, List.foldl_cons]
    simp [tree, Link.join, LinkForm.link, LinkForm.text, String.append_assoc]

end ConditionForm

theorem reads_condition (c : ConditionForm) (he : c.Ends rest) (hfail : Fails link rest) :
    Reads condition (c.text.toList ++ rest) rest c.tree := by
  obtain ⟨first, links, rfl⟩ := c.exists_links
  obtain ⟨hfirst, hlast⟩ := ConditionForm.ends_ofLinks he
  -- A link begins with a blank, so no link makes the last token of the one before it longer.
  have hlinks : Reads (many link) ((String.join (links.map LinkForm.text)).toList ++ rest) rest
      (links.map LinkForm.link) :=
    .many (fun l s => reads_link l) (fun _ l _ => .of_stops l.stops_bare)
      (fun l => by simp [LinkForm.text, LinkForm.joint, l.before.nonempty]) hlast hfail
  have hends : first.Ends ((String.join (links.map (·.text))).toList ++ rest) := by
    cases links with
    | nil => simpa using hfirst rfl
    | cons l links => simpa using PredicateForm.Ends.of_stops (p := first) l.stops_bare
  rw [ConditionForm.text_ofLinks, String.toList_append, List.append_assoc]
  refine (reads_predicate first hends).bind (hlinks.bind (.pure ?_ rest))
  exact (ConditionForm.tree_foldl (.single first) links).symm

theorem conditional_leadsTo (r : RuleForm) (he : r.elseBranch.Ends rest) :
    LeadsTo conditional (r.text.toList ++ rest) (ending >>= fun _ => pure r.tree) rest := by
  have hquestion : ∀ s, Stops isBlank ("?".toList ++ s) := fun s => stops_word rfl (by decide)
  have hcolon : ∀ s, Stops isBlank (":".toList ++ s) := fun s => stops_word rfl (by decide)
  have hlink : ∀ s, Fails link (r.beforeQuestion.text.toList ++ ("?".toList ++ s)) := fun s =>
    fails_link r.beforeQuestion (hquestion s) (fails_connective (stops_word rfl (by decide)))
  have hends : ∀ s, r.condition.Ends (r.beforeQuestion.text.toList ++ ("?".toList ++ s)) :=
    fun s => .of_stops (r.beforeQuestion.stops_bare (stops_word rfl (by decide)))
  have hthen : ∀ s, r.thenBranch.Ends (r.beforeColon.text.toList ++ (":".toList ++ s)) :=
    fun s => .of_stops (r.beforeColon.stops_bare (stops_word rfl (by decide)))
  simp only [RuleForm.text, String.toList_append, List.append_assoc]
  refine (reads_condition r.condition (hends _) (hlink _)).leadsTo.trans ?_
  refine (reads_blanks r.beforeQuestion (hquestion _)).leadsTo.trans ?_
  refine (reads_mark rfl (by decide) _).leadsTo.trans ?_
  refine (reads_blanks r.afterQuestion r.thenBranch.stops).leadsTo.trans ?_
  refine (reads_literal r.thenBranch (hthen _)).leadsTo.trans ?_
  refine (reads_blanks r.beforeColon (hcolon _)).leadsTo.trans ?_
  refine (reads_mark rfl (by decide) _).leadsTo.trans ?_
  refine (reads_blanks r.afterColon r.elseBranch.stops).leadsTo.trans ?_
  refine (reads_literal r.elseBranch he).leadsTo.trans ?_
  intro n
  refine ⟨n, rfl, ?_⟩
  simp only [RuleForm.tree, RuleForm.text, ConditionForm.tree_source, LiteralForm.tree_source]

theorem reads_conditional (r : RuleForm) : Reads conditional r.text.toList [] r.tree := by
  have he : r.elseBranch.Ends [] := .of_stops (by simp)
  have h := conditional_leadsTo r he
  rw [List.append_nil] at h
  exact h.reads (reads_ending.bind (.pure rfl []))

namespace RuleForm

theorem text_ne_empty (r : RuleForm) : r.text.toList ≠ [] := by simp [text]

theorem stops (r : RuleForm) : Stops isBlank r.text.toList := by
  have h : ∀ c : ConditionForm, ∀ s, Stops isBlank (c.text.toList ++ s) := by
    intro c
    induction c with
    | single p => exact fun s => p.stops
    | joined left link ih =>
      intro s
      simpa [ConditionForm.text] using ih (link.text.toList ++ s)
  simpa [text, List.append_assoc] using h r.condition _

theorem stops_reverse (r : RuleForm) : Stops isBlank r.text.toList.reverse := by
  have hne : r.elseBranch.text.toList.reverse ≠ [] := by
    simpa using r.elseBranch.matches_text.nonempty
  rw [text, String.toList_append, List.reverse_append]
  exact r.elseBranch.stops_reverse.append hne

theorem trimmed_append (r : RuleForm) (lead trail : Blanks) :
    trimmed (lead.text ++ r.text ++ trail.text) = r.text := by
  rw [trimmed, String.toList_append, String.toList_append,
    trim_append lead.blank trail.blank r.text_ne_empty r.stops r.stops_reverse,
    String.ofList_toList]

end RuleForm

theorem parse_of_trimmed (r : RuleForm) {text : String} (h : trimmed text = r.text) :
    parse text = .ok r.tree := by
  have htrim : trim text.toList = r.text.toList := by rw [← h, trimmed, String.toList_ofList]
  obtain ⟨k, -, hread⟩ := reads_conditional r 0
  simp only [parse, htrim]
  split
  case h_1 hnil => exact absurd hnil r.text_ne_empty
  case h_2 => rw [Cursor.start, hread]

theorem parse_form (r : RuleForm) : parse r.text = .ok r.tree := by
  refine parse_of_trimmed r ?_
  have h := r.trimmed_append Gap.none.toBlanks Gap.none.toBlanks
  simpa [Gap.none] using h

/-- The written text of a derivation is read as its tree, with any blanks around it. -/
theorem parse_complete (r : RuleForm) (lead trail : Blanks) :
    parse (lead.text ++ r.text ++ trail.text) = .ok r.tree :=
  parse_of_trimmed r (r.trimmed_append lead trail)

end Rulebook.Expr
