import Rulebook.Proofs.Expr.Soundness
import Rulebook.Proofs.Expr.Verbatim
import Rulebook.Proofs.Text.Commas

/-! What is no rule. Every text that is read has the shape of a form, so its quotes are closed and
it has one question mark and one colon outside them. Where a rule or a condition is complete,
nothing but what the grammar asks for may follow. -/

namespace Rulebook.Expr
open Text Reader

variable {rest s : List Char}

theorem isRule_iff {text : String} : isRule text = true ↔ ∃ c, parse text = .ok c := by
  rw [isRule]
  cases parse text <;> simp [Except.isOk, Except.toBool]

theorem isRule_of_fails {text : String} (h : Fails conditional (trim text.toList)) :
    isRule text = false := by
  obtain ⟨e, he⟩ := h 0
  simp only [isRule, parse]
  split
  case h_1 => rfl
  case h_2 =>
    rw [Cursor.start, he]
    rfl

def outside? : Bool → List Char → Option (List Char)
  | inside, [] => if inside then none else some []
  | inside, c :: s =>
    if c = '\'' then outside? (!inside) s
    else if inside then outside? true s
    else (outside? false s).map (c :: ·)

/-- All quotes of the text are closed, and no mark of a rule stands outside them. -/
def Plain (t : List Char) : Prop :=
  ∃ o, '?' ∉ o ∧ ':' ∉ o ∧ ∀ s, outside? false (t ++ s) = (outside? false s).map (o ++ ·)

namespace Plain

variable {t u : List Char}

theorem of_forall (h : ∀ c ∈ t, c ≠ '\'' ∧ c ≠ '?' ∧ c ≠ ':') : Plain t := by
  refine ⟨t, fun hm => (h _ hm).2.1 rfl, fun hm => (h _ hm).2.2 rfl, fun s => ?_⟩
  induction t with
  | nil => simp
  | cons c t ih =>
    have hc : c ≠ '\'' := (h c (by simp)).1
    have ih := ih fun d hd => h d (by simp [hd])
    simp [outside?, hc, ih, Function.comp_def]

theorem append (ht : Plain t) (hu : Plain u) : Plain (t ++ u) := by
  obtain ⟨o, hq, hc, ho⟩ := ht
  obtain ⟨o', hq', hc', ho'⟩ := hu
  refine ⟨o ++ o', by simp [hq, hq'], by simp [hc, hc'], fun s => ?_⟩
  rw [List.append_assoc, ho, ho', Option.map_map]
  simp [Function.comp_def]

theorem join {F : Type} {text : F → String} (h : ∀ f, Plain (text f).toList) (fs : List F) :
    Plain (String.join (fs.map text)).toList := by
  induction fs with
  | nil => exact of_forall (by simp)
  | cons f fs ih => simpa using (h f).append ih

theorem of_blank (h : ∀ c ∈ t, isBlank c = true) : Plain t := by
  refine of_forall fun c hc => ⟨?_, ?_, ?_⟩
  all_goals
    rintro rfl
    exact absurd (h _ hc) (by decide)

theorem of_bare (h : ∀ c ∈ t, isBare c = true) : Plain t := by
  refine of_forall fun c hc => ⟨?_, ?_, ?_⟩
  all_goals
    rintro rfl
    exact absurd (h _ hc) (by decide)

theorem quoted (h : '\'' ∉ t) : Plain ('\'' :: (t ++ ['\''])) := by
  refine ⟨[], by simp, by simp, fun s => ?_⟩
  have hinside : outside? true (t ++ '\'' :: s) = outside? false s := by
    induction t with
    | nil => simp [outside?]
    | cons c t ih =>
      have hc : c ≠ '\'' := fun he => h (by simp [he])
      have ih := ih fun hm => h (by simp [hm])
      simp [outside?, hc, ih]
  simp [outside?, hinside]

end Plain

theorem Blanks.plain (b : Blanks) : Plain b.text.toList := .of_blank b.blank

theorem FieldForm.isNameRest (f : FieldForm) : ∀ c ∈ f.text.toList, isNameRest c = true := by
  obtain ⟨c, u, hcu, hc, hu⟩ := f.matches
  intro d hd
  rcases List.mem_cons.1 (hcu ▸ hd) with rfl | hd
  · exact isNameRest_of_isNameStart hc
  · exact hu d hd

theorem FieldForm.plain (f : FieldForm) : Plain f.text.toList :=
  .of_bare fun c hc => isBare_of_isNameRest (f.isNameRest c hc)

theorem LiteralForm.plain (l : LiteralForm) : Plain l.text.toList := by
  cases l with
  | quoted content closed => simpa [text] using Plain.quoted closed
  | bare token nonempty bare => exact .of_bare bare

theorem MemberForm.plain (m : MemberForm) : Plain m.text.toList := by
  have hcomma : Plain ",".toList := .of_forall (by simp)
  simp only [text, String.toList_append]
  exact ((m.before.plain.append hcomma).append m.after.plain).append m.item.plain

theorem MembersForm.plain (m : MembersForm) : Plain m.text.toList := by
  have hopen : Plain "\x7b".toList := .of_forall (by simp)
  have hclose : Plain "\x7d".toList := .of_forall (by simp)
  simp only [text, String.toList_append]
  exact ((((hopen.append m.lead.plain).append m.first.plain).append
    (.join MemberForm.plain m.others)).append m.trail.plain).append hclose

theorem ArgumentForm.plain (a : ArgumentForm) : Plain a.text.toList := by
  cases a with
  | literal l => exact l.plain
  | members m => exact m.plain

theorem CallForm.plain_opening (c : CallForm) : Plain c.opening.toList := by
  have hcall : Plain ".contains".toList := .of_forall (by simp)
  have hparen : Plain "(".toList := .of_forall (by simp)
  simp only [opening, String.toList_append]
  exact ((hcall.append c.beforeParen.plain).append hparen).append c.lead.plain

theorem CallForm.plain_closing (c : CallForm) : Plain c.closing.toList := by
  have hparen : Plain ")".toList := .of_forall (by simp)
  rw [closing, String.toList_append]
  exact c.trail.plain.append hparen

theorem PredicateForm.plain (p : PredicateForm) : Plain p.text.toList := by
  cases p with
  | fieldContains target call argument =>
    simp only [text, String.toList_append]
    exact ((target.plain.append call.plain_opening).append argument.plain).append
      call.plain_closing
  | membersContain argument call target =>
    simp only [text, String.toList_append]
    exact ((argument.plain.append call.plain_opening).append target.plain).append
      call.plain_closing
  | comparison left before op after right =>
    have hsign : Plain op.sign.toList := .of_forall (by cases op <;> simp [Comparator.sign])
    simp only [text, String.toList_append]
    exact (((left.plain.append before.plain).append hsign).append after.plain).append right.plain

theorem connectiveWord_isNameRest (op : Connective) (upper : Bool) :
    ∀ c ∈ (connectiveWord op upper).toList, isNameRest c = true := by
  cases op <;> cases upper <;> simp [connectiveWord] <;> decide

theorem LinkForm.plain (l : LinkForm) : Plain l.text.toList := by
  have hword : Plain (connectiveWord l.op l.upper).toList :=
    .of_bare fun c hc => isBare_of_isNameRest (connectiveWord_isNameRest l.op l.upper c hc)
  simp only [text, joint, String.toList_append]
  exact ((l.before.plain.append hword).append l.after.plain).append l.right.plain

theorem ConditionForm.plain (c : ConditionForm) : Plain c.text.toList := by
  induction c with
  | single p => exact p.plain
  | joined left link ih =>
    rw [text, String.toList_append]
    exact ih.append link.plain

theorem RuleForm.marks (r : RuleForm) (lead trail : List Char)
    (hl : ∀ c ∈ lead, isBlank c = true) (ht : ∀ c ∈ trail, isBlank c = true) :
    ∃ o, outside? false (lead ++ r.text.toList ++ trail) = some o ∧
      o.count '?' = 1 ∧ o.count ':' = 1 := by
  obtain ⟨a, haq, hac, ha⟩ := (Plain.of_blank hl).append
    (r.condition.plain.append r.beforeQuestion.plain)
  obtain ⟨b, hbq, hbc, hb⟩ :=
    (r.afterQuestion.plain.append r.thenBranch.plain).append r.beforeColon.plain
  obtain ⟨c, hcq, hcc, hc⟩ :=
    (r.afterColon.plain.append r.elseBranch.plain).append (Plain.of_blank ht)
  have hend := hc []
  refine ⟨a ++ '?' :: (b ++ ':' :: c), ?_, ?_, ?_⟩
  · simp only [List.append_assoc, List.append_nil] at ha hb hend
    simp only [text, String.toList_append, List.append_assoc]
    rw [ha]
    simp [outside?, hb, hend]
  · simp [List.count_eq_zero_of_not_mem, haq, hbq, hcq]
  · simp [List.count_eq_zero_of_not_mem, hac, hbc, hcc]

theorem marks_of_parse {text : String} {c : Conditional} (hm : orderMark ∉ text.toList)
    (h : parse text = .ok c) :
    ∃ o, outside? false text.toList = some o ∧ o.count '?' = 1 ∧ o.count ':' = 1 := by
  obtain ⟨r, hr, -⟩ := exists_form hm h
  obtain ⟨lead, trail, hs, hl, ht⟩ := exists_blanks text.toList
  have htrim : trim text.toList = r.text.toList := by rw [← hr, trimmed, String.toList_ofList]
  rw [hs, htrim]
  exact r.marks lead trail hl ht

theorem isRule_of_trailing {text : String} (r : RuleForm) (rest : String) (hne : rest ≠ "")
    (he : r.elseBranch.Ends rest.toList) (ht : trimmed text = r.text ++ rest) :
    isRule text = false := by
  refine isRule_of_fails ?_
  rw [← String.toList_ofList (l := trim text.toList)]
  change Fails conditional (trimmed text).toList
  rw [ht, String.toList_append]
  exact (conditional_leadsTo r he).fails (.bind (fails_ending (by simpa using hne)))

theorem fails_conditional (c : ConditionForm) (g : Gap) (he : c.Ends (g.text.toList ++ rest))
    (hlink : Fails link (g.text.toList ++ rest)) (hb : Stops isBlank rest)
    (hq : Stops (· == '?') rest) :
    Fails conditional (c.text.toList ++ (g.text.toList ++ rest)) :=
  (reads_condition c he hlink).bind_fails
    ((reads_blanks g hb).bind_fails (.bind (fails_mark hq)))

/-- The last literal of a condition takes as much of the text behind it as it can. -/
theorem LiteralForm.exists_longest (l : LiteralForm) (s : List Char) :
    ∃ (l' : LiteralForm) (rest : List Char), l.text.toList ++ s = l'.text.toList ++ rest ∧
      l'.Ends rest ∧ (rest = s ∨ rest = s.dropWhile isBare) := by
  cases l with
  | quoted content closed => exact ⟨.quoted content closed, s, rfl, trivial, .inl rfl⟩
  | bare token nonempty bare =>
    refine ⟨.bare (token ++ String.ofList (s.takeWhile isBare)) (by simp [nonempty]) ?_,
      s.dropWhile isBare, ?_, stops_dropWhile s, .inr rfl⟩
    · intro c hc
      rw [String.toList_append, String.toList_ofList] at hc
      rcases List.mem_append.1 hc with hc | hc
      · exact bare c hc
      · exact List.mem_takeWhile_imp hc
    · simp [text]

theorem PredicateForm.exists_longest (p : PredicateForm) (s : List Char) :
    ∃ (p' : PredicateForm) (rest : List Char), p.text.toList ++ s = p'.text.toList ++ rest ∧
      p'.Ends rest ∧ (rest = s ∨ rest = s.dropWhile isBare) := by
  cases p with
  | comparison left before op after right =>
    obtain ⟨right', rest, h, he, hrest⟩ := right.exists_longest s
    refine ⟨.comparison left before op after right', rest, ?_, he, hrest⟩
    simp [text, h]
  | _ => exact ⟨_, s, rfl, trivial, .inl rfl⟩

theorem ConditionForm.exists_longest (c : ConditionForm) (s : List Char) :
    ∃ (c' : ConditionForm) (rest : List Char), c.text.toList ++ s = c'.text.toList ++ rest ∧
      c'.Ends rest ∧ (rest = s ∨ rest = s.dropWhile isBare) := by
  cases c with
  | single p =>
    obtain ⟨p', rest, h, he, hrest⟩ := p.exists_longest s
    exact ⟨.single p', rest, h, he, hrest⟩
  | joined left link =>
    obtain ⟨right, rest, h, he, hrest⟩ := link.right.exists_longest s
    refine ⟨.joined left { link with right }, rest, ?_, he, hrest⟩
    simpa [text, LinkForm.text, LinkForm.joint] using h

theorem connectiveWord_ne_nil (op : Connective) (upper : Bool) :
    (connectiveWord op upper).toList ≠ [] := by
  cases op <;> cases upper <;> decide

theorem PredicateForm.stops_char (p : PredicateForm) {a : Char} (ha : isNameStart a = false)
    (hb : a ≠ '\x7b') : Stops (· == a) (p.text.toList ++ rest) := by
  cases p with
  | fieldContains target call argument => simpa [text] using target.stops_char ha
  | membersContain argument call target => simpa [text, MembersForm.text] using hb.symm
  | comparison left before op after right => simpa [text] using left.stops_char ha

theorem Comparator.sign_ne (op : Comparator) (p : PredicateForm) (t u : List Char) :
    op.sign.toList ++ t ≠ p.text.toList ++ u := by
  intro h
  have hstop : ∀ a, isNameStart a = false → a ≠ '\x7b' → Stops (· == a) (op.sign.toList ++ t) :=
    fun a ha hb => h ▸ p.stops_char ha hb
  cases op with
  | equal => simpa [sign] using hstop '=' (by decide) (by decide)
  | notEqual => simpa [sign] using hstop '!' (by decide) (by decide)
  | greater => simpa [sign] using hstop '>' (by decide) (by decide)
  | less => simpa [sign] using hstop '<' (by decide) (by decide)

/-- No link begins with a predicate, though a field may be called like a connective. -/
theorem fails_link_predicate (g : Gap) (p : PredicateForm)
    (hm : orderMark ∉ p.text.toList ++ rest) :
    Fails link (g.text.toList ++ (p.text.toList ++ rest)) := by
  refine yields_link.fails (fun h => (List.mem_append.1 h).elim g.unmarked hm) ?_
  intro l rest' h
  simp only [LinkForm.text, LinkForm.joint, String.toList_append, List.append_assoc] at h
  have hword := connectiveWord_isNameRest l.op l.upper
  have hbare : Stops isBare (l.after.text.toList ++ (l.right.text.toList ++ rest')) :=
    l.after.stops_bare
  have hafter := stops_isNameRest hbare
  obtain ⟨-, h⟩ := runs_inj g.blank p.stops l.before.blank
    (stops_connectiveWord _ _ (by decide) _) h
  -- The word would have to be the field in front, and then blanks would stand where the predicate
  -- goes on.
  cases p with
  | fieldContains target call argument =>
    simp only [PredicateForm.text, String.toList_append, List.append_assoc] at h
    obtain ⟨-, h⟩ := runs_inj target.isNameRest (by simp [CallForm.opening]; decide) hword hafter h
    rw [← h] at hbare
    simp [CallForm.opening] at hbare
    exact absurd hbare (by decide)
  | membersContain argument call target =>
    have hstop : Stops isNameRest
        ((PredicateForm.membersContain argument call target).text.toList ++ rest) := by
      simp [PredicateForm.text, MembersForm.text]
      decide
    obtain ⟨hnil, -⟩ := runs_inj (by simp) hstop hword hafter ((List.nil_append _).trans h)
    exact connectiveWord_ne_nil l.op l.upper hnil.symm
  | comparison left before op after right =>
    simp only [PredicateForm.text, String.toList_append, List.append_assoc] at h
    have hsign : ∀ s, Stops isBlank (op.sign.toList ++ s) := op.stops_sign (by decide)
    have hname : ∀ s, Stops isNameRest (before.text.toList ++ (op.sign.toList ++ s)) := fun s =>
      stops_isNameRest (before.stops_bare (op.stops_sign (by decide) s))
    obtain ⟨-, h⟩ := runs_inj left.isNameRest (hname _) hword hafter h
    obtain ⟨-, h⟩ := runs_inj before.blank (hsign _) l.after.blank l.right.stops h
    exact op.sign_ne l.right _ _ h

/-- A bare literal that runs into a predicate ends inside of it, in front of a parenthesis, a brace
or a sign. -/
theorem PredicateForm.exists_dropWhile (p : PredicateForm) (rest : List Char) :
    ∃ (g : Gap) (u : List Char), (p.text.toList ++ rest).dropWhile isBare = g.text.toList ++ u ∧
      u ≠ [] ∧ ∀ q : Char → Bool, q '(' = false ∧ q '\x7b' = false ∧ q '=' = false ∧
        q '!' = false ∧ q '>' = false ∧ q '<' = false → Stops q u := by
  have hbare : ∀ f : FieldForm, ∀ c ∈ f.text.toList, isBare c = true := fun f c hc =>
    isBare_of_isNameRest (f.isNameRest c hc)
  cases p with
  | fieldContains target call argument =>
    have hword : ∀ c ∈ ".contains".toList, isBare c = true := by simp [isBare]
    have hcall : ∀ c ∈ target.text.toList ++ ".contains".toList, isBare c = true := by
      intro c hc
      rcases List.mem_append.1 hc with hc | hc
      · exact hbare target c hc
      · exact hword c hc
    refine ⟨call.beforeParen, "(".toList ++ (call.lead.text.toList ++ (argument.text.toList ++
      (call.closing.toList ++ rest))), ?_, by simp, fun q hq => stops_word rfl hq.1⟩
    simp only [text, CallForm.opening, String.toList_append, List.append_assoc]
    rw [← List.append_assoc]
    exact dropWhile_append hcall (call.beforeParen.stops_bare (stops_word rfl (by decide)))
  | membersContain argument call target =>
    have hopen : ∀ q : Char → Bool, q '\x7b' = false →
        Stops q ((membersContain argument call target).text.toList ++ rest) := by
      intro q hq
      simp only [text, MembersForm.text, String.toList_append, List.append_assoc]
      exact stops_word rfl hq
    refine ⟨.none, (membersContain argument call target).text.toList ++ rest, ?_, ?_,
      fun q hq => hopen q hq.2.1⟩
    · rw [dropWhile_of_stops (hopen _ (by decide)), Gap.none, String.toList_empty, List.nil_append]
    · simp [text, MembersForm.text]
  | comparison left before op after right =>
    refine ⟨before, op.sign.toList ++ (after.text.toList ++ (right.text.toList ++ rest)), ?_, ?_,
      fun q hq => op.stops_sign hq.2.2 _⟩
    · simp only [text, String.toList_append, List.append_assoc]
      exact dropWhile_append (hbare left) (before.stops_bare (op.stops_sign (by decide) _))
    · cases op <;> simp [Comparator.sign]

theorem fails_joint (c : ConditionForm) (before : Gap) (op : Connective) (upper : Bool)
    (after : Gap) (p : PredicateForm) (h : before.text = "" ∨ after.text = "")
    (hm : orderMark ∉ p.text.toList ++ rest) :
    Fails conditional (c.text.toList ++ (before.text.toList ++
      ((connectiveWord op upper).toList ++ (after.text.toList ++ (p.text.toList ++ rest))))) := by
  have hblank : ∀ s, Stops isBlank ((connectiveWord op upper).toList ++ s) :=
    stops_connectiveWord op upper (by decide)
  have hquestion : ∀ s, Stops (· == '?') ((connectiveWord op upper).toList ++ s) :=
    stops_connectiveWord op upper (by decide)
  by_cases hb : before.text = ""
  -- The word stands right behind the condition, whose last literal may take it and more.
  · obtain ⟨c', rest', hsplit, he, hrest⟩ := c.exists_longest
      ((connectiveWord op upper).toList ++ (after.text.toList ++ (p.text.toList ++ rest)))
    rw [hb, String.toList_empty, List.nil_append, hsplit]
    rcases hrest with rfl | rfl
    · exact fails_conditional c' .none he (.bind (fails_someBlanks (hblank _))) (hblank _)
        (hquestion _)
    · have hword : ∀ c ∈ (connectiveWord op upper).toList, isBare c = true := fun c hc =>
        isBare_of_isNameRest (connectiveWord_isNameRest op upper c hc)
      rw [List.dropWhile_append_of_pos hword] at he ⊢
      by_cases ha : after.text = ""
      · obtain ⟨g, u, hdrop, -, hstops⟩ := p.exists_dropWhile rest
        have hlink : Fails link (g.text.toList ++ u) :=
          fails_link g (hstops _ (by decide)) (fails_connective (hstops _ (by decide)))
        rw [ha, String.toList_empty, List.nil_append, hdrop] at he ⊢
        exact fails_conditional c' g he hlink (hstops _ (by decide)) (hstops _ (by decide))
      · have hbare : Stops isBare (after.text.toList ++ (p.text.toList ++ rest)) :=
          Space.stops_bare ⟨after, ha⟩
        rw [dropWhile_of_stops hbare] at he ⊢
        exact fails_conditional c' after he (fails_link_predicate after p hm) p.stops
          (p.stops_char (by decide) (by decide))
  -- The word is read, but what follows it is no blank, so the whole link is given back.
  · have ha : after.text = "" := h.resolve_left hb
    have hbare : ∀ s, Stops isBare (before.text.toList ++ s) := fun _ =>
      Space.stops_bare ⟨before, hb⟩
    refine fails_conditional c before (.of_stops (hbare _)) ?_ (hblank _) (hquestion _)
    refine (reads_someBlanks ⟨before, hb⟩ (hblank _)).bind_fails ?_
    refine (reads_connective op upper _).bind_fails (.bind ?_)
    rw [ha]
    exact fails_someBlanks p.stops

theorem isRule_of_joint {text : String} (hm : orderMark ∉ text.toList) (c : ConditionForm)
    (before : Gap) (op : Connective) (upper : Bool) (after : Gap) (p : PredicateForm)
    (h : before.text = "" ∨ after.text = "") (rest : String)
    (ht : trimmed text = c.text ++ before.text ++ connectiveWord op upper ++ after.text ++ p.text ++
      rest) : isRule text = false := by
  have htrim : trim text.toList = c.text.toList ++ (before.text.toList ++
      ((connectiveWord op upper).toList ++ (after.text.toList ++
        (p.text.toList ++ rest.toList)))) := by
    rw [← String.toList_ofList (l := trim text.toList)]
    change (trimmed text).toList = _
    rw [ht]
    simp only [String.toList_append, List.append_assoc]
  refine isRule_of_fails ?_
  rw [htrim]
  refine fails_joint c before op upper after p h fun hmem => hm (mem_of_mem_trim ?_)
  rw [htrim]
  simp only [List.mem_append] at hmem ⊢
  exact .inr (.inr (.inr (.inr hmem)))

theorem orderMark_not_mem_shown {t : LooseText} (h : .char orderMark ∉ t.glyphs) :
    orderMark ∉ t.shown.toList := by
  rw [LooseText.shown, String.toList_ofList, List.mem_map]
  rintro ⟨g, hg, hshown⟩
  cases g with
  | char c =>
    obtain rfl : c = orderMark := hshown
    exact h hg
  | half u => exact absurd hshown (by decide : replacement ≠ orderMark)

/-- The rules are the texts of derivations, each with one tree, where a half of a character is read
as U+FFFD. Trees keep their texts piece by piece, and a text with an open quote, a second
conditional, something behind the rule or a connective without blanks is no rule, whatever stands
around it. -/
theorem parse_sound {t : LooseText} (hm : .char orderMark ∉ t.glyphs) :
    (∀ c, parse t.shown = .ok c ↔ ∃ r : RuleForm, t.trimmed.shown = r.text ∧ c = r.tree) ∧
    (∀ c, parse t.shown = .ok c → c.source = t.trimmed.shown ∧
      (LooseText.ofString c.source = t.trimmed ↔ ∀ u, .half u ∉ t.trimmed.glyphs) ∧
      c.node.Verbatim) ∧
    (isRule t.shown = true →
      ∃ o, outside? false t.shown.toList = some o ∧ o.count '?' = 1 ∧ o.count ':' = 1) ∧
    (∀ (r : RuleForm) (rest : String), rest ≠ "" → r.elseBranch.Ends rest.toList →
      t.trimmed.shown = r.text ++ rest → isRule t.shown = false) ∧
    ∀ (c : ConditionForm) (before : Gap) (op : Connective) (upper : Bool) (after : Gap)
      (p : PredicateForm) (rest : String), before.text = "" ∨ after.text = "" →
      t.trimmed.shown = c.text ++ before.text ++ connectiveWord op upper ++ after.text ++ p.text ++
        rest → isRule t.shown = false := by
  have hm := orderMark_not_mem_shown hm
  rw [LooseText.shown_trimmed]
  refine ⟨fun c => ⟨exists_form hm, ?_⟩, fun c hc => ?_, fun hrule => ?_, ?_, ?_⟩
  · rintro ⟨r, hr, rfl⟩
    exact parse_of_trimmed r hr
  · obtain ⟨r, hr, rfl⟩ := exists_form hm hc
    have hsource : r.tree.source = trimmed t.shown := hr.symm
    refine ⟨hsource, ?_, r.verbatim⟩
    rw [hsource, ← LooseText.shown_trimmed]
    exact LooseText.ofString_shown_iff
  · obtain ⟨c, hc⟩ := isRule_iff.1 hrule
    exact marks_of_parse hm hc
  · exact fun r rest hne he ht => isRule_of_trailing r rest hne he ht
  · exact fun c before op upper after p rest h ht =>
      isRule_of_joint hm c before op upper after p h rest ht

theorem parse_sound_open_quote :
    let t : LooseText := "status == 'active" ++ ⟨[.half 0xD83D]⟩ ++ " ? 'p' : 'q'"
    .char orderMark ∉ t.glyphs ∧ isRule t.shown = false := by
  intro t
  have hm : .char orderMark ∉ t.glyphs := by decide
  obtain ⟨-, -, hmarks, -⟩ := parse_sound hm
  refine ⟨hm, Bool.eq_false_iff.2 fun h => ?_⟩
  obtain ⟨o, ho, -⟩ := hmarks h
  have hnone : outside? false t.shown.toList = none := by decide
  cases hnone.symm.trans ho

def replacedTest : RuleForm where
  condition := .single
    (.comparison ⟨"mark", by decide⟩ .one .equal .one (.quoted "\uFFFD" (by decide)))
  beforeQuestion := .one
  afterQuestion := .one
  thenBranch := .quoted "yes" (by decide)
  beforeColon := .one
  afterColon := .one
  elseBranch := .quoted "no" (by decide)

/-- The tree has U+FFFD where the text has a half. -/
theorem source_ne_trimmed :
    let t : LooseText := "mark == '" ++ ⟨[.half 0xD800]⟩ ++ "' ? 'yes' : 'no'"
    .char orderMark ∉ t.glyphs ∧
      ∃ c, parse t.shown = .ok c ∧ LooseText.ofString c.source ≠ t.trimmed := by
  intro t
  have hparse : parse t.shown = .ok replacedTest.tree := parse_of_trimmed replacedTest (by decide)
  exact ⟨by decide, _, hparse, by decide⟩

end Rulebook.Expr
