import Rulebook.Proofs.Rule.Acceptance
import Rulebook.Rule.Session

/-! Written texts are canonical. The normal form of a rule has the text of the rule, so a text that
was written, read and written again is the same text. -/

namespace Rulebook.Rule
open Rulebook.Expr

theorem writeStatement_normalize (s : Statement) (c : Option Connective) :
    writeStatement (s.normalize c) = writeStatement s := by
  obtain ⟨connective, field, operator, value⟩ := s
  cases operator with
  | none => rfl
  | some op =>
    cases op with
    | containsSet =>
      cases value with
      | none => rfl
      | some v =>
        simp [writeStatement, Statement.normalize, LooseText.commaMembers_commaMembers]
    | _ => rfl

theorem writeRest_normalize (g : Group) :
    writeRest (g.map fun s => s.normalize (some (s.connective.getD .and))) = writeRest g := by
  induction g with
  | nil => rfl
  | cons s g ih =>
    have hjoint : joint (s.normalize (some (s.connective.getD .and))) = joint s := rfl
    rw [List.map_cons, writeRest, writeStatement_normalize, ih, hjoint, writeRest]

theorem operator_normalize (s : Statement) (c : Option Connective) :
    (s.normalize c).operator = s.operator := rfl

theorem writeGroup_normalize {g : Group} (hg : g.IsCondition) :
    writeGroup g.normalize = writeGroup g := by
  obtain ⟨first, rest, hfilter, hop⟩ := hg.exists_filter
  have hnormal : g.normalize = first.normalize none ::
      rest.map fun s => s.normalize (some (s.connective.getD .and)) := by
    rw [Group.normalize, hfilter]
  have hops : ∀ s ∈ g.normalize, s.operator.isSome = true := by
    rw [hnormal]
    simpa [operator_normalize] using hop
  rw [writeGroup, filter_isEmpty hops, hnormal, writeGroup, hfilter]
  simp only [writeStatement_normalize, writeRest_normalize]

theorem writeGroup_branch {g : Group} (hg : g.IsBranch) : writeGroup g.branch = writeGroup g := by
  obtain ⟨s, v, hfilter, hop, hv, hvalue⟩ := hg.exists_value
  have hbranch : g.branch.filter (!·.isEmpty) = [{ value := some v }] := by
    simp [Group.branch, hvalue, Statement.isEmpty]
  rw [writeGroup, hbranch, writeGroup, hfilter]
  simp [writeStatement, hop, hv]

theorem isComplete_branch (g : Group) : g.branch.isComplete .branch = g.value?.isSome := rfl

theorem writeElse_branch {g : Group} (hg : g.isComplete .branch = false ∨ g.IsBranch) :
    writeElse g.branch = writeElse g := by
  rcases hg with hg | hg
  · have hvalue : g.value? = none := by simp [Group.value?, hg]
    simp [writeElse, isComplete_branch, hvalue, hg]
  · obtain ⟨s, v, -, -, -, hvalue⟩ := hg.exists_value
    simp [writeElse, isComplete_branch, hvalue, hg.isComplete, writeGroup_branch hg]

theorem isComplete_normalize {g : Group} (hg : g.IsCondition) :
    g.normalize.isComplete .condition = true := by
  obtain ⟨first, rest, hfilter, hop⟩ := hg.exists_filter
  rw [Group.normalize, hfilter]
  simp [Group.isComplete, operator_normalize, hop first]

theorem write_normalize {r : Rule} (hr : r.IsChoice) : r.normalize.write = r.write := by
  have hcondition : r.normalize.isComplete .condition = true := isComplete_normalize hr.condition
  have hthen : r.normalize.isComplete .thenBranch = true := by
    obtain ⟨s, v, -, -, -, hvalue⟩ := hr.thenBranch.exists_value
    exact (isComplete_branch r.thenBranch).trans (by rw [hvalue, Option.isSome_some])
  have helse : writeElse r.elseBranch.branch = writeElse r.elseBranch :=
    writeElse_branch hr.elseBranch
  rw [write_of_isComplete hcondition hthen,
    write_of_isComplete hr.condition.isComplete hr.thenBranch.isComplete]
  simp only [normalize, writeGroup_normalize hr.condition, writeGroup_branch hr.thenBranch, helse]

theorem read_empty : read "" = .ok empty := by decide

theorem isRule_of_read {text : String} {r : Rule} (h : read text = .ok r)
    (hne : Text.trim text.toList ≠ []) : isRule text = true := by
  obtain ⟨hblank, -⟩ | ⟨c, hparse, -⟩ := read_eq_ok h
  · exact absurd hblank hne
  · exact isRule_iff.2 ⟨c, hparse⟩

theorem isChoice_of_read {r r₁ : Rule} {text : String} (h : r.write = .ok text)
    (hread : read text = .ok r₁) (hne : text ≠ "") : r.IsChoice := by
  obtain ⟨hc, ht⟩ := isComplete_of_write h hne
  have hsealed := isSealed_write hc ht h
  refine isChoice_of_isRule h (isRule_of_read hread ?_)
  rw [hsealed.trim_eq]
  exact hsealed.nonempty

theorem write_of_read {r r₁ : Rule} {text : String} (h : r.write = .ok text)
    (hread : read text = .ok r₁) : r₁.write = .ok text := by
  by_cases hne : text = ""
  · subst hne
    obtain rfl : empty = r₁ := Except.ok.inj (read_empty.symm.trans hread)
    rfl
  · have hr := isChoice_of_read h hread hne
    obtain ⟨f, rfl, hnormal, -⟩ := exists_rule hr h
    rw [read_of_parse (parse_form f), hnormal] at hread
    rw [← Except.ok.inj hread, write_normalize hr, h]

theorem exists_read_of_isRule {t text : String} {r : Rule} (ht : isRule t = true)
    (hr : read t = .ok r) (h : r.write = .ok text) : ∃ r₁, read text = .ok r₁ := by
  by_cases hne : text = ""
  · exact ⟨empty, hne ▸ read_empty⟩
  · obtain ⟨c, hc⟩ := isRule_iff.1 ht
    rw [read_of_parse hc] at hr
    obtain rfl : ofConditional c = r := Except.ok.inj hr
    have hchoice := isChoice_ofConditional (isChain_of_parse hc) (isComplete_of_write h hne).2
    obtain ⟨d, hd⟩ := isRule_iff.1 (isRule_of_isChoice hchoice h)
    exact ⟨ofConditional d, read_of_parse hd⟩

/-- A written text that is read is written again as it was, whatever rule it was written for, so
reading again changes nothing. Whatever was read as a rule has a text that is read, unless it has
none that is safe. -/
theorem write_canonical :
    (∀ (r r₁ : Rule) (text : String), r.write = .ok text → read text = .ok r₁ →
      r₁.write = .ok text ∧ r₁.step .reread = .ok r₁ ∧ (text = "" → r₁ = empty)) ∧
    ∀ (t text : String) (r : Rule), isRule t = true → read t = .ok r → r.write = .ok text →
      ∃ r₁, read text = .ok r₁ := by
  refine ⟨fun r r₁ text h hread => ?_, fun t text r => exists_read_of_isRule⟩
  have hwrite := write_of_read h hread
  refine ⟨hwrite, ?_, fun hempty => ?_⟩
  · have hwritten : r₁.write? = .ok text := congrArg (Except.mapError Problem.unsafeText) hwrite
    rw [step, hwritten]
    exact congrArg (Except.mapError Problem.refused) hread
  · subst hempty
    exact Except.ok.inj (hread.symm.trans read_empty)

def looseOneOf : RuleForm := oneOf ⟨.one, .bare "a" (by decide) (by simp [isBare]), [], .one⟩

theorem write_canonical_visitors :
    visitors.write = .ok "age > 18 and \x7b'FR','GB'\x7d.contains(and) ? 'null' : null" ∧
    visitors.normalize.step .reread = .ok visitors.normalize ∧
    isRule looseOneOf.text = true ∧
    (ofConditional looseOneOf.tree).write = .ok "\x7b'a'\x7d.contains(r) ? 'x' : 'y'" ∧
    ∃ r, read "\x7b'a'\x7d.contains(r) ? 'x' : 'y'" = .ok r := by
  have hwrite :
      visitors.write = .ok "age > 18 and \x7b'FR','GB'\x7d.contains(and) ? 'null' : null" := by
    decide
  obtain ⟨f, hf, hnormal, -⟩ := exists_rule visitors_isChoice hwrite
  have hread : read "age > 18 and \x7b'FR','GB'\x7d.contains(and) ? 'null' : null" =
      .ok visitors.normalize := by
    rw [hf, read_of_parse (parse_form f), hnormal]
  have hparse := parse_form looseOneOf
  have hrule : isRule looseOneOf.text = true := isRule_iff.2 ⟨looseOneOf.tree, hparse⟩
  have hloose : (ofConditional looseOneOf.tree).write =
      .ok "\x7b'a'\x7d.contains(r) ? 'x' : 'y'" := by decide
  exact ⟨hwrite, (write_canonical.1 _ _ _ hwrite hread).2.1, hrule, hloose,
    write_canonical.2 _ _ _ hrule (read_of_parse hparse) hloose⟩

end Rulebook.Rule
