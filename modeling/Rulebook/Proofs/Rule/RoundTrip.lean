import Rulebook.Proofs.Expr.Completeness
import Rulebook.Proofs.Rule.Written

/-! Reading a written rule gives the normal form of the rule. -/

namespace Rulebook.Rule
open Rulebook.Expr

theorem read_of_parse {text : String} {c : Conditional} (h : parse text = .ok c) :
    read text = .ok (ofConditional c) := by
  have hne : Text.trim text.toList ≠ [] := by
    intro hnil
    rw [parse, hnil] at h
    cases h
  rw [read, if_neg hne, h]
  rfl

theorem read_eq_ok {text : String} {r : Rule} (h : read text = .ok r) :
    Text.trim text.toList = [] ∧ r = empty ∨ ∃ c, parse text = .ok c ∧ r = ofConditional c := by
  by_cases hblank : Text.trim text.toList = []
  · rw [read, if_pos hblank] at h
    exact .inl ⟨hblank, (Except.ok.inj h).symm⟩
  · rw [read, if_neg hblank] at h
    cases hparse : parse text with
    | error e => rw [hparse] at h; cases h
    | ok c => rw [hparse] at h; exact .inr ⟨c, rfl, (Except.ok.inj h).symm⟩

/-- A rule that chooses between values is its normal form after it was written and read. -/
theorem read_write {r : Rule} {text : String} (hr : r.IsChoice) (h : r.write = .ok text) :
    read text = .ok r.normalize := by
  obtain ⟨f, rfl, hnormal, -⟩ := exists_rule hr h
  rw [read_of_parse (parse_form f), hnormal]

def visitors : Rule where
  condition :=
    [{ connective := some .or, field := some "age", operator := some .greaterThan,
       value := some "18" },
     .empty,
     { field := some "and", operator := some .containsSet, value := some " FR,GB " }]
  thenBranch := [{ value := some "null" }, .empty]
  elseBranch := [.empty]

theorem visitors_isChoice : visitors.IsChoice where
  condition := ⟨⟨_, rfl, rfl⟩, by decide⟩
  thenBranch := ⟨⟨_, rfl, rfl, rfl⟩, by decide⟩
  elseBranch := .inl rfl

theorem read_write_visitors :
    visitors.write = .ok "age > 18 and \x7b'FR','GB'\x7d.contains(and) ? 'null' : null" ∧
    read "age > 18 and \x7b'FR','GB'\x7d.contains(and) ? 'null' : null" =
      .ok visitors.normalize := by
  have hwrite :
      visitors.write = .ok "age > 18 and \x7b'FR','GB'\x7d.contains(and) ? 'null' : null" := by
    decide
  exact ⟨hwrite, read_write visitors_isChoice hwrite⟩

end Rulebook.Rule
