import Rulebook.Proofs.Expr.Form
import Rulebook.Proofs.Rule.Normal
import Rulebook.Proofs.Rule.Walk
import Rulebook.Rule.Written

/-! What is written is the text of a form. The tree of the form has the statements of the rule in
their normal form and asks what they ask. -/

namespace Rulebook.Rule
open Rulebook.Expr

theorem of_bind_ok {ε α β : Type} {x : Except ε α} {f : α → Except ε β} {b : β}
    (h : (x >>= f) = .ok b) : ∃ a, x = .ok a ∧ f a = .ok b := by
  cases x with
  | error e => cases h
  | ok a => exact ⟨a, rfl, h⟩

theorem of_checkLiteral {t : LooseText} {s : String} (h : checkLiteral t = .ok s) :
    t = .ofString s ∧ isSafeLiteral s = true := by
  rw [checkLiteral] at h
  split at h
  case h_1 u hu =>
    cases h
    obtain ⟨hs, hsafe⟩ := Option.filter_eq_some_iff.1 hu
    exact ⟨LooseText.string?_eq_some.1 hs, hsafe⟩
  case h_2 => cases h

theorem of_checkField {t : LooseText} {s : String} (h : checkField t = .ok s) :
    ∃ f : FieldForm, t = .ofString f.text ∧ s = f.text := by
  rw [checkField] at h
  split at h
  case h_1 u hu =>
    cases h
    obtain ⟨hs, hname⟩ := Option.filter_eq_some_iff.1 hu
    exact ⟨⟨s, hname⟩, LooseText.string?_eq_some.1 hs, rfl⟩
  case h_2 => cases h

theorem not_mem_of_isSafeLiteral {s : String} (h : isSafeLiteral s = true) :
    '\'' ∉ s.toList := by
  intro hm
  have hall := (Bool.and_eq_true_iff.1 h).2
  exact absurd (List.all_eq_true.1 hall _ hm) (by decide)

theorem of_quote {t : LooseText} {s : String} (h : quote t = .ok s) :
    ∃ l : LiteralForm, l.tree.quoted = true ∧ t = .ofString l.tree.raw ∧ s = l.text := by
  obtain ⟨v, hv, hs⟩ := of_bind_ok h
  obtain ⟨ht, hsafe⟩ := of_checkLiteral hv
  exact ⟨.quoted v (not_mem_of_isSafeLiteral hsafe), rfl, ht, (Except.ok.inj hs).symm⟩

theorem isBare_of_isDigit {c : Char} (h : c.isDigit = true) : isBare c = true := by
  simp [isBare, Char.isAlphanum, h]

theorem of_mem_readUnsigned {negative : Bool} {s : List Char}
    (h : (Number.readUnsigned negative s).isSome = true) :
    ∀ c ∈ s, c.isDigit = true ∨ c = '.' := by
  have hsplit := List.takeWhile_append_dropWhile (p := Char.isDigit) (l := s)
  have hwhole : ∀ c ∈ s.takeWhile Char.isDigit, c.isDigit = true := fun c hc =>
    List.mem_takeWhile_imp hc
  unfold Number.readUnsigned at h
  intro c hc
  rw [← hsplit] at hc
  split at h
  case h_1 => cases h
  case h_2 hdrop _ =>
    rw [hdrop, List.append_nil] at hc
    exact .inl (hwhole c hc)
  case h_3 fraction hdrop _ =>
    rw [hdrop] at hc
    split at h
    case isTrue hdigits =>
      have hfraction := List.all_eq_true.1 (Bool.and_eq_true_iff.1 hdigits).2
      rcases List.mem_append.1 hc with hc | hc
      · exact .inl (hwhole c hc)
      · rcases List.mem_cons.1 hc with rfl | hc
        · exact .inr rfl
        · exact .inl (hfraction c hc)
    case isFalse => cases h
  case h_4 => cases h

theorem of_mem_isPlain {s : String} (h : Number.isPlain s = true) :
    ∀ c ∈ s.toList, c.isDigit = true ∨ c = '.' ∨ c = '-' := by
  unfold Number.isPlain Number.readPlain at h
  intro c hc
  split at h
  case h_1 s hs =>
    rw [hs] at hc
    rcases List.mem_cons.1 hc with rfl | hc
    · exact .inr (.inr rfl)
    · exact (of_mem_readUnsigned h c hc).imp_right .inl
  case h_2 => exact (of_mem_readUnsigned h c hc).imp_right .inl

theorem isBare_of_isPlain {s : String} (h : Number.isPlain s = true) :
    ∀ c ∈ s.toList, isBare c = true := by
  intro c hc
  obtain hdigit | rfl | rfl := of_mem_isPlain h c hc
  · exact isBare_of_isDigit hdigit
  · decide
  · decide

theorem of_orderedLiteral {t : LooseText} {s : String} (h : orderedLiteral t = .ok s) :
    ∃ l : LiteralForm, t = .ofString l.tree.raw ∧ s = l.text := by
  rw [orderedLiteral] at h
  split at h
  case isTrue hplain =>
    obtain ⟨ht, hsafe⟩ := of_checkLiteral h
    rw [ht, LooseText.string?_ofString] at hplain
    have hne : s ≠ "" := of_decide_eq_true (Bool.and_eq_true_iff.1 hsafe).1
    exact ⟨.bare s hne (isBare_of_isPlain hplain), ht, rfl⟩
  case isFalse =>
    obtain ⟨l, -, ht, hs⟩ := of_quote h
    exact ⟨l, ht, hs⟩

theorem of_mapM_quote {ts : List LooseText} {ss : List String} (h : ts.mapM quote = .ok ss) :
    ∃ ls : List LiteralForm,
      ts = ls.map (fun l => .ofString l.tree.raw) ∧ ss = ls.map (·.text) := by
  induction ts generalizing ss with
  | nil =>
    cases h
    exact ⟨[], rfl, rfl⟩
  | cons t ts ih =>
    rw [List.mapM_cons] at h
    obtain ⟨s, hs, h⟩ := of_bind_ok h
    obtain ⟨ss, hss, h⟩ := of_bind_ok h
    cases h
    obtain ⟨l, -, ht, hs⟩ := of_quote hs
    obtain ⟨ls, hts, hss⟩ := ih hss
    exact ⟨l :: ls, by rw [ht, hts]; rfl, by rw [hs, hss]; rfl⟩

def tight (first : LiteralForm) (others : List LiteralForm) : MembersForm :=
  ⟨.none, first, others.map (⟨.none, .none, ·⟩), .none⟩

theorem text_tight (first : LiteralForm) (others : List LiteralForm) :
    (tight first others).text =
      "\x7b" ++ Text.joinCommas ((first :: others).map (·.text)) ++ "\x7d" := by
  have hjoin : ∀ l : LiteralForm, l.text ++ String.join (others.map ("," ++ ·.text)) =
      Text.joinCommas ((l :: others).map (·.text)) := by
    intro l
    induction others generalizing l with
    | nil => simp [Text.joinCommas]
    | cons m others ih =>
      have h := ih m
      simp only [Text.joinCommas, List.map_cons] at h ⊢
      rw [String.intercalate_cons_cons, ← h, String.join_cons]
      simp only [String.append_assoc]
  rw [← hjoin first]
  simp [tight, MembersForm.text, MemberForm.text, Gap.none, Function.comp_def, String.append_assoc]

theorem items_tight (first : LiteralForm) (others : List LiteralForm) :
    (tight first others).items = first :: others := by
  simp [tight, MembersForm.items, Function.comp_def]

theorem memberTexts_tight {first : LiteralForm} {others : List LiteralForm} {t : LooseText}
    (h : t.commaMembers = (first :: others).map fun l => .ofString l.tree.raw) :
    memberTexts (tight first others).tree = t.commaMembers.map (·.shown) := by
  have htrim : ∀ l ∈ first :: others, Text.trimmed l.tree.raw = l.tree.raw := by
    intro l hl
    have hmem : LooseText.ofString l.tree.raw ∈ t.commaMembers := by
      rw [h]
      exact List.mem_map_of_mem hl
    obtain ⟨ht, -⟩ := LooseText.of_mem_commaMembers hmem
    rw [LooseText.trimmed_ofString] at ht
    exact LooseText.ofString_injective ht
  rw [h, memberTexts, MembersForm.tree, items_tight, List.map_map, List.map_map]
  refine List.map_congr_left fun l hl => ?_
  simp [htrim l hl]

theorem quote_empty : quote (.ofString "") = .error (.literal (.ofString "")) := rfl

theorem orderedLiteral_empty :
    orderedLiteral (.ofString "") = .error (.literal (.ofString "")) := rfl

theorem mapM_quote_empty :
    (LooseText.ofString "").commaMembers.mapM quote = .error (.literal (.ofString "")) := rfl

theorem exists_value {s : Statement} {text : String} (h : writeStatement s = .ok text) :
    ∃ v, s.value = some v := by
  cases hv : s.value with
  | some v => exact ⟨v, rfl⟩
  | none =>
    simp only [writeStatement, hv, Option.getD_none] at h
    split at h
    case h_1 => rw [quote_empty] at h; cases h
    case h_2 op _ =>
      obtain ⟨field, -, h⟩ := of_bind_ok h
      cases op
      all_goals
        simp only [quote_empty, orderedLiteral_empty, mapM_quote_empty] at h
        cases h

theorem exists_field {s : Statement} {name : String}
    (h : checkField (s.field.getD (.ofString "")) = .ok name) :
    ∃ f : FieldForm, s.field = some (.ofString f.text) ∧ name = f.text := by
  obtain ⟨f, hf, hname⟩ := of_checkField h
  cases hfield : s.field with
  | some t =>
    rw [hfield] at hf
    exact ⟨f, congrArg some hf, hname⟩
  | none =>
    rw [hfield] at hf
    have hempty : f.text = "" := (LooseText.ofString_injective hf).symm
    have hisName := f.name
    rw [hempty] at hisName
    exact absurd hisName (by decide)

def spaced (f : FieldForm) (op : Comparator) (l : LiteralForm) : PredicateForm :=
  .comparison f .one op .one l

theorem text_spaced (f : FieldForm) (op : Comparator) (l : LiteralForm) :
    (spaced f op l).text = f.text ++ (" " ++ op.sign ++ " ") ++ l.text := by
  simp [spaced, PredicateForm.text, Gap.one, String.append_assoc]

/-- The predicate has the statement as its normal form and asks what it asks. -/
def Writes (p : PredicateForm) (s : Statement) : Prop :=
  (∀ c, p.tree.statements c = [s.normalize c]) ∧ p.tree.condition = s.condition

theorem exists_spaced (c : Option Connective) (f : FieldForm) (op : Comparator) {t : LooseText}
    {text : String} {written : Except UnsafeText String}
    (hl : ∀ s, written = .ok s → ∃ l : LiteralForm, t = .ofString l.tree.raw ∧ s = l.text)
    (h : (written >>= fun s => pure (f.text ++ (" " ++ op.sign ++ " ") ++ s)) = .ok text) :
    ∃ p : PredicateForm, text = p.text ∧
      Writes p ⟨c, some (.ofString f.text), some (.ofComparator op), some t⟩ := by
  obtain ⟨s, hs, htext⟩ := of_bind_ok h
  obtain ⟨l, rfl, rfl⟩ := hl s hs
  refine ⟨spaced f op l, ?_, fun c => ?_, ?_⟩
  · rw [← Except.ok.inj htext, text_spaced]
  · cases op <;> rfl
  · cases op <;> simp [Statement.condition, Operator.ofComparator, spaced, PredicateForm.tree,
      Node.condition, Test.ofComparator, FieldForm.tree]

theorem writes_fieldContains (c : Option Connective) (f : FieldForm) (call : CallForm)
    (l : LiteralForm) :
    Writes (.fieldContains f call (.literal l))
      ⟨c, some (.ofString f.text), some .containsSubstring, some (.ofString l.tree.raw)⟩ := by
  refine ⟨fun c => rfl, ?_⟩
  simp [Statement.condition, PredicateForm.tree, Node.condition, ArgumentForm.tree, FieldForm.tree]

theorem writes_membersContain (c : Option Connective) (f : FieldForm) (call : CallForm)
    {first : LiteralForm} {others : List LiteralForm} {t : LooseText}
    (h : t.commaMembers = (first :: others).map fun l => .ofString l.tree.raw) :
    Writes (.membersContain (tight first others) call f)
      ⟨c, some (.ofString f.text), some .containsSet, some t⟩ := by
  have htexts := memberTexts_tight h
  have hvalue : LooseText.ofString (Text.joinCommas (memberTexts (tight first others).tree)) =
      .joined (.ofString ",") t.commaMembers := by
    rw [htexts, ← LooseText.joined_ofString, List.map_map, h]
    simp [Function.comp_def]
  constructor
  · intro c
    simp [PredicateForm.tree, Node.statements, Node.leaf, Statement.normalize, FieldForm.tree,
      hvalue]
  · simp [PredicateForm.tree, Node.condition, Statement.condition, FieldForm.tree, htexts]

theorem exists_predicate {s : Statement} {text : String} (hop : s.operator.isSome = true)
    (h : writeStatement s = .ok text) : ∃ p : PredicateForm, text = p.text ∧ Writes p s := by
  obtain ⟨op, hop⟩ := Option.isSome_iff_exists.1 hop
  obtain ⟨t, ht⟩ := exists_value h
  obtain ⟨connective, field, operator, value⟩ := s
  obtain rfl : operator = _ := hop
  obtain rfl : value = _ := ht
  obtain ⟨name, hname, hrest⟩ := of_bind_ok h
  obtain ⟨f, hf, rfl⟩ := exists_field hname
  obtain rfl : field = _ := hf
  have hquote : ∀ s, quote t = .ok s →
      ∃ l : LiteralForm, t = .ofString l.tree.raw ∧ s = l.text := by
    intro s hs
    obtain ⟨l, -, hl⟩ := of_quote hs
    exact ⟨l, hl⟩
  cases op
  case containsSet =>
    obtain ⟨members, hmembers, htext⟩ := of_bind_ok hrest
    obtain ⟨ls, hts, rfl⟩ := of_mapM_quote hmembers
    obtain ⟨first, others, rfl⟩ : ∃ first others, ls = first :: others := by
      refine List.exists_cons_of_ne_nil fun hnil => ?_
      rw [hnil] at hts
      exact LooseText.commaMembers_ne_nil t hts
    refine ⟨_, ?_, writes_membersContain connective f ⟨.none, .none, .none⟩ hts⟩
    rw [← Except.ok.inj htext]
    simp [PredicateForm.text, text_tight, CallForm.opening, CallForm.closing, Gap.none,
      String.append_assoc]
  case containsSubstring =>
    obtain ⟨quoted, hquoted, htext⟩ := of_bind_ok hrest
    obtain ⟨l, -, hl, rfl⟩ := of_quote hquoted
    obtain rfl : t = _ := hl
    refine ⟨_, ?_, writes_fieldContains connective f ⟨.none, .none, .none⟩ l⟩
    rw [← Except.ok.inj htext]
    simp [PredicateForm.text, CallForm.opening, CallForm.closing, ArgumentForm.text, Gap.none,
      String.append_assoc]
  case equals => exact exists_spaced connective f .equal hquote hrest
  case notEquals => exact exists_spaced connective f .notEqual hquote hrest
  case greaterThan =>
    exact exists_spaced connective f .greater (fun s hs => of_orderedLiteral hs) hrest
  case lessThan => exact exists_spaced connective f .less (fun s hs => of_orderedLiteral hs) hrest

def linkTo (op : Connective) (p : PredicateForm) : LinkForm := ⟨.one, op, false, .one, p⟩

theorem text_linkTo (op : Connective) (p : PredicateForm) :
    (linkTo op p).text = op.joint ++ p.text := by
  cases op <;> rfl

theorem of_writeRest {g : Group} {text : String} (hop : ∀ s ∈ g, s.operator.isSome = true)
    (h : writeRest g = .ok text) :
    ∃ links : List LinkForm, text = String.join (links.map (·.text)) ∧ ∀ c : ConditionForm,
      (links.foldl .joined c).tree.statements none =
        c.tree.statements none ++ g.map (fun s => s.normalize (some (s.connective.getD .and))) ∧
      (links.foldl .joined c).tree.condition =
        g.foldl (fun d s => .join (s.connective.getD .and) d s.condition) c.tree.condition := by
  -- Links are put behind any chain, since each one that is written makes the chain longer.
  induction g generalizing text with
  | nil =>
    rw [← Except.ok.inj h]
    exact ⟨[], rfl, fun c => ⟨by simp, rfl⟩⟩
  | cons s g ih =>
    obtain ⟨first, hfirst, hrest⟩ := of_bind_ok h
    obtain ⟨tail, htail, htext⟩ := of_bind_ok hrest
    obtain ⟨p, rfl, hstatements, hcondition⟩ := exists_predicate (hop s (by simp)) hfirst
    obtain ⟨links, rfl, hlinks⟩ := ih (fun t ht => hop t (by simp [ht])) htail
    refine ⟨linkTo (s.connective.getD .and) p :: links, ?_, fun c => ?_⟩
    · rw [← Except.ok.inj htext, List.map_cons, String.join_cons, text_linkTo]
      rfl
    · obtain ⟨hall, hjoin⟩ := hlinks (c.joined (linkTo (s.connective.getD .and) p))
      rw [List.foldl_cons, hall, hjoin]
      simp [linkTo, ConditionForm.tree, Node.statements, Node.condition, hstatements, hcondition]

theorem exists_condition {g : Group} {text : String} (hg : g.IsCondition)
    (h : writeGroup g = .ok text) :
    ∃ c : ConditionForm, text = c.text ∧ c.tree.statements none = g.normalize ∧
      c.tree.condition = g.condition := by
  obtain ⟨first, rest, hfilter, hop⟩ := hg.exists_filter
  rw [writeGroup, hfilter] at h
  obtain ⟨start, hstart, hrest⟩ := of_bind_ok h
  obtain ⟨tail, htail, htext⟩ := of_bind_ok hrest
  obtain ⟨p, rfl, hstatements, hcondition⟩ := exists_predicate (hop first (by simp)) hstart
  obtain ⟨links, rfl, hlinks⟩ := of_writeRest (fun s hs => hop s (by simp [hs])) htail
  obtain ⟨hall, hjoin⟩ := hlinks (.single p)
  refine ⟨.ofLinks p links, ?_, ?_, ?_⟩
  · rw [← Except.ok.inj htext, ConditionForm.text_ofLinks]
  · rw [ConditionForm.ofLinks, hall, Group.normalize, hfilter]
    simp [ConditionForm.tree, hstatements]
  · rw [ConditionForm.ofLinks, hjoin, Group.condition, hfilter]
    simp [ConditionForm.tree, hcondition]

theorem exists_branch {g : Group} {text : String} (hg : g.IsBranch)
    (h : writeGroup g = .ok text) :
    ∃ l : LiteralForm, text = l.text ∧ (Node.literal l.tree).statements none = g.branch ∧
      l.tree.value? = g.value?.map (·.shown) := by
  obtain ⟨s, v, hfilter, hop, hv, hvalue⟩ := hg.exists_value
  rw [writeGroup, hfilter] at h
  obtain ⟨start, hstart, hrest⟩ := of_bind_ok h
  obtain ⟨tail, htail, htext⟩ := of_bind_ok hrest
  simp only [writeStatement, hop, hv, Option.getD_some] at hstart
  obtain ⟨l, hquoted, rfl, rfl⟩ := of_quote hstart
  have hnull : l.tree.isNull = false := by simp [Literal.isNull, hquoted]
  refine ⟨l, ?_, ?_, ?_⟩
  · rw [← Except.ok.inj htext, ← Except.ok.inj htail, String.append_empty]
  · simp [Node.statements, Node.leaf, hnull, Group.branch, hvalue]
  · simp [Literal.value?, hnull, hvalue]

def nullForm : LiteralForm := .bare "null" (by decide) (by simp [isBare])

def writeElse (g : Group) : Except UnsafeText String :=
  if g.isComplete .branch then writeGroup g else .ok "null"

theorem write_of_isComplete {r : Rule} (hc : r.isComplete .condition = true)
    (ht : r.isComplete .thenBranch = true) :
    r.write = do
      let condition ← writeGroup r.condition
      let thenText ← writeGroup r.thenBranch
      let elseText ← writeElse r.elseBranch
      return condition ++ " ? " ++ thenText ++ " : " ++ elseText := by
  simp only [write, hc, ht, Bool.and_self, if_true, writeElse]
  have helse : r.isComplete .elseBranch = r.elseBranch.isComplete .branch := rfl
  rw [helse]
  cases r.elseBranch.isComplete .branch <;> rfl

theorem of_write {r : Rule} {text : String} (hc : r.isComplete .condition = true)
    (ht : r.isComplete .thenBranch = true) (h : r.write = .ok text) :
    ∃ condition thenText elseText, writeGroup r.condition = .ok condition ∧
      writeGroup r.thenBranch = .ok thenText ∧ writeElse r.elseBranch = .ok elseText ∧
      text = condition ++ " ? " ++ thenText ++ " : " ++ elseText := by
  rw [write_of_isComplete hc ht] at h
  obtain ⟨condition, hcondition, hbranches⟩ := of_bind_ok h
  obtain ⟨thenText, hthen, hrest⟩ := of_bind_ok hbranches
  obtain ⟨elseText, helse, htext⟩ := of_bind_ok hrest
  exact ⟨condition, thenText, elseText, hcondition, hthen, helse, (Except.ok.inj htext).symm⟩

theorem exists_elseBranch {g : Group} {text : String}
    (hg : g.isComplete .branch = false ∨ g.IsBranch)
    (h : writeElse g = .ok text) :
    ∃ l : LiteralForm, text = l.text ∧ (Node.literal l.tree).statements none = g.branch ∧
      l.tree.value? = g.value?.map (·.shown) := by
  cases hc : g.isComplete .branch with
  | true =>
    rw [writeElse, if_pos hc] at h
    exact exists_branch (hg.resolve_left (by simp [hc])) h
  | false =>
    have hvalue : g.value? = none := by simp [Group.value?, hc]
    rw [writeElse, hc] at h
    refine ⟨nullForm, (Except.ok.inj h).symm, ?_, ?_⟩
    · rw [Group.branch, hvalue]
      rfl
    · rw [hvalue]
      rfl

/-- A rule that chooses between values is written as a form whose tree has its normal form, asks
what it asks and gives what it gives. -/
theorem exists_rule {r : Rule} {text : String} (hr : r.IsChoice) (h : r.write = .ok text) :
    ∃ f : RuleForm, text = f.text ∧ ofConditional f.tree = r.normalize ∧
      f.tree.condition.condition = r.condition.condition ∧
      f.tree.thenBranch.value? = r.thenBranch.value?.map (·.shown) ∧
      f.tree.elseBranch.value? = r.elseBranch.value?.map (·.shown) := by
  obtain ⟨_, _, _, hcondition, hthen, helse, rfl⟩ :=
    of_write hr.condition.isComplete hr.thenBranch.isComplete h
  obtain ⟨c, rfl, hstatements, hasks⟩ := exists_condition hr.condition hcondition
  obtain ⟨t, rfl, hthenGroup, hthenValue⟩ := exists_branch hr.thenBranch hthen
  obtain ⟨e, rfl, helseGroup, helseValue⟩ :=
    exists_elseBranch (g := r.elseBranch) hr.elseBranch helse
  refine ⟨⟨c, .one, .one, t, .one, .one, e⟩, ?_, ?_, hasks, hthenValue, helseValue⟩
  · simp [RuleForm.text, Gap.one, String.append_assoc]
  · rw [ofConditional_eq, normalize, ← hstatements, ← hthenGroup, ← helseGroup]
    rfl

end Rulebook.Rule
