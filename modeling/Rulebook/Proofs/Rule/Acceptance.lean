import Rulebook.Proofs.Expr.Unread
import Rulebook.Proofs.Rule.Formatting
import Rulebook.Rule.OfValue

/-! Which written texts are rules. A rule is written as soon as its condition and its `thenBranch`
begin as they should, so what stands further on in a group may still keep the text from being
read. -/

namespace Rulebook.Rule
open Text Rulebook.Expr Reader

theorem exists_piece {s : Statement} {text : String} (h : writeStatement s = .ok text) :
    (s.operator = none ∧ ∃ l : LiteralForm, l.tree.quoted = true ∧ text = l.text) ∨
      s.operator.isSome = true ∧ ∃ p : PredicateForm, text = p.text := by
  cases hop : s.operator with
  | some op =>
    obtain ⟨p, hp, -⟩ := exists_predicate (by simp [hop]) h
    exact .inr ⟨rfl, p, hp⟩
  | none =>
    simp only [writeStatement, hop] at h
    obtain ⟨l, hquoted, -, hl⟩ := of_quote h
    exact .inl ⟨rfl, l, hquoted, hl⟩

theorem isSealed_writeStatement {s : Statement} {text : String}
    (h : writeStatement s = .ok text) : Sealed text.toList := by
  obtain ⟨-, l, -, rfl⟩ | ⟨-, p, rfl⟩ := exists_piece h
  · exact l.isSealed
  · exact p.isSealed

theorem isSealed_writeRest {g : Group} {text : String} (h : writeRest g = .ok text)
    {before : List Char} (hb : Sealed before) : Sealed (before ++ text.toList) := by
  induction g generalizing text before with
  | nil =>
    cases h
    simpa using hb
  | cons s g ih =>
    obtain ⟨first, hfirst, hrest⟩ := of_bind_ok h
    obtain ⟨tail, htail, htext⟩ := of_bind_ok hrest
    rw [← Except.ok.inj htext]
    simpa using ih htail (hb.around (joint s).toList (isSealed_writeStatement hfirst))

theorem of_writeGroup {kind : GroupKind} {g : Group} {text : String}
    (hg : g.isComplete kind = true) (h : writeGroup g = .ok text) :
    ∃ first rest start tail, g = first :: rest ∧ writeStatement first = .ok start ∧
      writeRest (rest.filter (!·.isEmpty)) = .ok tail ∧ text = start ++ tail := by
  cases g with
  | nil => cases hg
  | cons first rest =>
    have hne : first.isEmpty = false := by
      cases hop : first.operator <;> cases hv : first.value <;>
        simp_all [Group.isComplete, Statement.isEmpty]
    rw [writeGroup, List.filter_cons_of_pos (by simp [hne])] at h
    obtain ⟨start, hstart, hrest⟩ := of_bind_ok h
    obtain ⟨tail, htail, htext⟩ := of_bind_ok hrest
    exact ⟨first, rest, start, tail, rfl, hstart, htail, (Except.ok.inj htext).symm⟩

theorem isSealed_writeGroup {kind : GroupKind} {g : Group} {text : String}
    (hg : g.isComplete kind = true) (h : writeGroup g = .ok text) : Sealed text.toList := by
  obtain ⟨first, rest, start, tail, -, hstart, htail, rfl⟩ := of_writeGroup hg h
  rw [String.toList_append]
  exact isSealed_writeRest htail (isSealed_writeStatement hstart)

theorem isSealed_writeElse {g : Group} {text : String} (h : writeElse g = .ok text) :
    Sealed text.toList := by
  rw [writeElse] at h
  split at h
  case isTrue hg => exact isSealed_writeGroup hg h
  case isFalse =>
    cases h
    exact nullForm.isSealed

theorem isSealed_write {r : Rule} {text : String} (hc : r.isComplete .condition = true)
    (ht : r.isComplete .thenBranch = true) (h : r.write = .ok text) : Sealed text.toList := by
  obtain ⟨condition, thenText, elseText, hcondition, -, helse, rfl⟩ := of_write hc ht h
  have hsealed := (isSealed_writeGroup hc hcondition).around
    (" ? ".toList ++ thenText.toList ++ " : ".toList) (isSealed_writeElse helse)
  simpa using hsealed

theorem fails_writeRest {g : Group} {text : String} (h : writeRest g = .ok text)
    (hg : ∃ s ∈ g, s.operator = none) (c : ConditionForm) (after : List Char) :
    Fails conditional (c.text.toList ++ (text.toList ++ after)) := by
  -- The chain in front takes up one statement after the other, up to the one that is only a value.
  induction g generalizing text c with
  | nil => simp at hg
  | cons s g ih =>
    obtain ⟨first, hfirst, hrest⟩ := of_bind_ok h
    obtain ⟨tail, htail, htext⟩ := of_bind_ok hrest
    rw [← Except.ok.inj htext]
    obtain ⟨-, l, hquoted, rfl⟩ | ⟨hop, p, rfl⟩ := exists_piece hfirst
    · cases l with
      | bare => cases hquoted
      | quoted content closed =>
        have hfail := fails_quoted c (s.connective.getD .and)
          (content.toList ++ '\'' :: (tail.toList ++ after))
        simpa [LiteralForm.text, joint] using hfail
    · have hg : ∃ s ∈ g, s.operator = none := by
        obtain ⟨t, ht, hnone⟩ := hg
        rcases List.mem_cons.1 ht with rfl | ht
        · simp [hnone] at hop
        · exact ⟨t, ht, hnone⟩
      have hfail := ih htail hg (c.joined (linkTo (s.connective.getD .and) p))
      simpa [ConditionForm.text, text_linkTo, joint] using hfail

theorem fails_condition {g : Group} {text : String} (hg : g.isComplete .condition = true)
    (hn : ¬g.IsCondition) (h : writeGroup g = .ok text) (after : List Char) :
    Fails conditional (text.toList ++ after) := by
  obtain ⟨first, rest, start, tail, rfl, hstart, htail, rfl⟩ := of_writeGroup hg h
  have hop : first.operator.isSome = true := by simpa [Group.isComplete] using hg
  obtain ⟨p, rfl, -⟩ := exists_predicate hop hstart
  have hrest : ∃ s ∈ rest.filter (!·.isEmpty), s.operator = none := by
    by_contra hall
    refine hn ⟨⟨first, rfl, hop⟩, fun s hs hne => ?_⟩
    rcases List.mem_cons.1 hs with rfl | hs
    · exact hop
    · by_contra hs'
      exact hall ⟨s, List.mem_filter.2 ⟨hs, by simp [hne]⟩, by simpa using hs'⟩
  simpa [ConditionForm.text] using fails_writeRest htail hrest (.single p) after

theorem noBranch_writeGroup {g : Group} {text : String} (hg : g.isComplete .branch = true)
    (hn : ¬g.IsBranch) (h : writeGroup g = .ok text) (after : List Char) :
    NoBranch (text.toList ++ after) := by
  obtain ⟨first, rest, start, tail, rfl, hstart, htail, rfl⟩ := of_writeGroup hg h
  rw [String.toList_append, List.append_assoc]
  obtain ⟨hop, l, -, rfl⟩ | ⟨-, p, rfl⟩ := exists_piece hstart
  · cases hrest : rest.filter (!·.isEmpty) with
    | nil =>
      refine absurd ⟨⟨first, rfl, hop, ?_⟩, fun s hs => ?_⟩ hn
      · simpa [Group.isComplete, hop] using hg
      · simpa using List.filter_eq_nil_iff.1 hrest s hs
    | cons s g =>
      rw [hrest] at htail
      obtain ⟨second, -, hsecond⟩ := of_bind_ok htail
      obtain ⟨others, -, htext⟩ := of_bind_ok hsecond
      rw [← Except.ok.inj htext, String.toList_append, String.toList_append, List.append_assoc,
        List.append_assoc]
      exact noBranch_joint l _ _
  · exact p.noBranch _

theorem not_isRule_empty : isRule "" = false := by decide

theorem isChoice_of_isRule {r : Rule} {text : String} (h : r.write = .ok text)
    (hrule : isRule text = true) : r.IsChoice := by
  have hne : text ≠ "" := by
    rintro rfl
    simp [not_isRule_empty] at hrule
  obtain ⟨hc, ht⟩ := isComplete_of_write h hne
  have hread : ¬Fails conditional text.toList := fun hfails => by
    rw [← (isSealed_write hc ht h).trim_eq] at hfails
    simp [isRule_of_fails hfails] at hrule
  obtain ⟨condition, thenText, elseText, hcondition, hthen, helse, rfl⟩ := of_write hc ht h
  simp only [String.toList_append, List.append_assoc] at hread
  have hcond : r.condition.IsCondition := by
    by_contra hn
    exact hread (fails_condition hc hn hcondition _)
  obtain ⟨c, rfl, -⟩ := exists_condition hcond hcondition
  have hbranch : r.thenBranch.IsBranch := by
    by_contra hn
    exact hread (fails_thenBranch c (noBranch_writeGroup ht hn hthen _))
  obtain ⟨l, rfl, -⟩ := exists_branch hbranch hthen
  refine ⟨hcond, hbranch, Classical.or_iff_not_imp_left.2 fun he => ?_⟩
  have hcomplete : r.elseBranch.isComplete .branch = true := Bool.of_not_eq_false he
  by_contra hn
  rw [writeElse, if_pos hcomplete] at helse
  have hno := noBranch_writeGroup hcomplete hn helse []
  rw [List.append_nil] at hno
  exact hread (fails_elseBranch c l hno)

theorem isRule_of_isChoice {r : Rule} {text : String} (hr : r.IsChoice)
    (h : r.write = .ok text) : isRule text = true := by
  obtain ⟨f, rfl, -⟩ := exists_rule hr h
  exact isRule_iff.2 ⟨f.tree, parse_form f⟩

/-- A rule is refused for a value or for a field, or has no text because it is incomplete, or has a
text that is read just when the rule chooses between values on a condition. -/
theorem isRule_write_iff (r : Rule) :
    (∃ value, r.write = .error (.literal value)) ∨ (∃ name, r.write = .error (.field name)) ∨
    (r.write = .ok "" ∧ ¬(r.isComplete .condition = true ∧ r.isComplete .thenBranch = true)) ∨
    ∃ text, r.write = .ok text ∧ text ≠ "" ∧ (isRule text = true ↔ r.IsChoice) := by
  by_cases hr : r.isComplete .condition = true ∧ r.isComplete .thenBranch = true
  · cases h : r.write with
    | error e =>
      cases e with
      | literal value => exact .inl ⟨value, rfl⟩
      | field name => exact .inr (.inl ⟨name, rfl⟩)
    | ok text =>
      have hiff : isRule text = true ↔ r.IsChoice :=
        ⟨isChoice_of_isRule h, fun hchoice => isRule_of_isChoice hchoice h⟩
      have hne : text ≠ "" := by simpa using (isSealed_write hr.1 hr.2 h).nonempty
      exact .inr (.inr (.inr ⟨text, rfl, hne, hiff⟩))
  · have hempty : r.write = .ok "" := by
      rw [write, if_neg (by simpa using hr)]
    exact .inr (.inr (.inl ⟨hempty, hr⟩))

def twoValues : Rule where
  condition := [{ field := some "a", operator := some .equals, value := some "b" }]
  thenBranch := [{ value := some "x" }, { value := some "y" }]
  elseBranch := [{ value := some "z" }]

/-- The text `a == 'b' ? 'x' and 'y' : 'z'` is written for a complete rule and is no rule. -/
theorem isRule_write_twoValues :
    ¬ ∀ (document : Value) (r : Rule), ofValue document = .ok r →
      (∃ value, r.write = .error (.literal value)) ∨ (∃ name, r.write = .error (.field name)) ∨
      r.write = .ok "" ∨ ∃ text, r.write = .ok text ∧ isRule text = true := by
  intro h
  have hdocument : ofValue twoValues.toValue = .ok twoValues := by decide
  have hwrite : twoValues.write = .ok "a == 'b' ? 'x' and 'y' : 'z'" := by decide
  have hcase := h _ _ hdocument
  rw [hwrite] at hcase
  obtain ⟨_, hv⟩ | ⟨_, hn⟩ | hempty | ⟨text, htext, hrule⟩ := hcase
  · cases hv
  · cases hn
  · exact absurd hempty (by decide)
  · rw [← hwrite] at htext
    have hchoice := isChoice_of_isRule htext hrule
    exact absurd hchoice.thenBranch.rest (by decide)

end Rulebook.Rule
