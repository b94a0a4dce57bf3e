import Mathlib
import Rulebook.Proofs.Text.Commas
import Rulebook.Rule.Basic

/-! The values that a rule mentions. They are listed split at their commas, so those that are one
value with a comma in it are not in the list. -/

namespace Rulebook

namespace Statement

variable {s : Statement} {t v : LooseText}

/-- A set mentions its members, any other statement the whole of its value. -/
def mentions (s : Statement) : List LooseText :=
  s.value.toList.flatMap fun v => if s.operator = some .containsSet then v.commaMembers else [v]

def parts (s : Statement) : List LooseText := s.value.toList.flatMap LooseText.commaParts

def IsUnpadded (s : Statement) : Prop :=
  s.operator = some .containsSet → ∀ p ∈ s.parts, p.trimmed = p

/-- The value is one value: that of a set aside, it has no comma. -/
def IsUndivided (s : Statement) : Prop :=
  s.operator ≠ some .containsSet → ∀ v ∈ s.value, .char ',' ∉ v.glyphs

theorem mentions_of_value (hvalue : s.value = some v) (hop : s.operator ≠ some .containsSet) :
    s.mentions = [v] := by
  simp [mentions, hvalue, hop]

theorem not_mem_of_mem_parts (h : t ∈ s.parts) : .char ',' ∉ t.glyphs := by
  obtain ⟨v, -, ht⟩ := List.mem_flatMap.1 h
  obtain ⟨g, hg, rfl⟩ := List.mem_map.1 ht
  exact LooseText.not_mem_of_mem_splitOn hg

theorem parts_eq_mentions (hpadded : s.IsUnpadded) (hdivided : s.IsUndivided) :
    s.parts = s.mentions := by
  cases hvalue : s.value with
  | none => simp [parts, mentions, hvalue]
  | some v =>
    have hparts : s.parts = v.commaParts := by simp [parts, hvalue]
    by_cases hop : s.operator = some .containsSet
    · have hmembers : s.mentions = v.commaMembers := by simp [mentions, hvalue, hop]
      have htrimmed := hpadded hop
      rw [hparts] at htrimmed
      rw [hparts, hmembers, LooseText.commaMembers, List.map_congr_left htrimmed, List.map_id']
    · rw [hparts, mentions_of_value hvalue hop,
        LooseText.commaParts_of_not_mem (hdivided hop v hvalue)]

end Statement

namespace Rule

def statements (r : Rule) : List Statement := GroupName.all.flatMap r.group

variable {r : Rule} {s : Statement} {t v : LooseText}

theorem mem_values : t ∈ r.values ↔ ∃ s ∈ r.statements, t ∈ s.parts := by
  have hparts : (r.statements.filterMap (·.value)).flatMap LooseText.commaParts =
      r.statements.flatMap Statement.parts := by
    rw [List.filterMap_eq_flatMap_toList, List.flatMap_assoc]
    rfl
  rw [values, List.mem_eraseDups, ← List.mem_flatMap, ← hparts]
  rfl

theorem nodup_eraseDups {α : Type} [BEq α] [LawfulBEq α] : ∀ l : List α, l.eraseDups.Nodup
  | [] => List.nodup_nil
  | a :: l => by
    rw [List.eraseDups_cons, List.nodup_cons, List.mem_eraseDups]
    exact ⟨by simp, nodup_eraseDups _⟩
termination_by l => l.length
decreasing_by exact Nat.lt_succ_of_le (List.length_filter_le _ _)

theorem not_mem_of_mem_values (h : t ∈ r.values) : .char ',' ∉ t.glyphs := by
  obtain ⟨s, -, ht⟩ := mem_values.1 h
  exact Statement.not_mem_of_mem_parts ht

/-- The parts of all values are listed, each one once. Where no member of a set is padded, these
are the values that the statements mention just when none but sets have commas. -/
theorem values_eq_mentions (r : Rule) :
    r.values.Nodup ∧ (∀ t, t ∈ r.values ↔ ∃ s ∈ r.statements, t ∈ s.parts) ∧
    ((∀ s ∈ r.statements, s.IsUnpadded) →
      ((∀ t, t ∈ r.values ↔ ∃ s ∈ r.statements, t ∈ s.mentions) ↔
        ∀ s ∈ r.statements, s.IsUndivided)) := by
  refine ⟨nodup_eraseDups _, fun t => mem_values, fun hpadded => ⟨?_, ?_⟩⟩
  · intro h s hs hop v hvalue
    have hmention : v ∈ s.mentions := by
      rw [Statement.mentions_of_value hvalue hop]
      exact List.mem_singleton_self v
    exact not_mem_of_mem_values ((h v).2 ⟨s, hs, hmention⟩)
  · intro hdivided t
    rw [mem_values]
    refine exists_congr fun s => and_congr_right fun hs => ?_
    rw [Statement.parts_eq_mentions (hpadded s hs) (hdivided s hs)]

def ofTest (field : String) (op : Operator) (value : String) : Rule :=
  ⟨[{ field := some field, operator := some op, value := some value }], [{ value := some "p" }],
    [.empty]⟩

theorem values_eq_mentions_set :
    (∀ s ∈ (ofTest "a" .containsSet "x,y").statements, s.IsUnpadded) ∧
    (∀ s ∈ (ofTest "a" .containsSet "x,y").statements, s.IsUndivided) ∧
    ∀ t, t ∈ (ofTest "a" .containsSet "x,y").values ↔
      ∃ s ∈ (ofTest "a" .containsSet "x,y").statements, t ∈ s.mentions := by
  have hpadded : ∀ s ∈ (ofTest "a" .containsSet "x,y").statements, s.IsUnpadded := by
    unfold Statement.IsUnpadded
    decide
  have hdivided : ∀ s ∈ (ofTest "a" .containsSet "x,y").statements, s.IsUndivided := by
    unfold Statement.IsUndivided
    decide
  exact ⟨hpadded, hdivided, ((values_eq_mentions _).2.2 hpadded).2 hdivided⟩

/-- A value with a comma is mentioned, but only its parts are listed. -/
theorem values_divided :
    ¬ ∀ (r : Rule) (t : LooseText), t ∈ r.values ↔ ∃ s ∈ r.statements, t ∈ s.mentions := by
  intro h
  have hmention : ∃ s ∈ (ofTest "a" .equals "x,y").statements,
      ("x,y" : LooseText) ∈ s.mentions := by decide
  exact absurd ((h _ _).2 hmention) (by decide)

end Rule

end Rulebook
