import Rulebook.Predicate.Condition
import Rulebook.Proofs.Text.Commas
import Rulebook.Rule.Basic

/-! The form in which a structured rule is read back from its text, and the condition that its
statements state. -/

namespace Rulebook

namespace Statement

/-- The statement as it is read back behind a connective. The members of a set lose the blanks
around them. -/
def normalize (c : Option Connective) (s : Statement) : Statement where
  connective := c
  field := s.field
  operator := s.operator
  value :=
    if s.operator = some .containsSet then
      s.value.map fun v => .joined (.ofString ",") v.commaMembers
    else s.value

def condition (s : Statement) : Condition :=
  let field := (s.field.getD "").shown
  let value := s.value.getD ""
  match s.operator with
  | none => .never
  | some .equals => .test .equal field value.shown
  | some .notEquals => .test .notEqual field value.shown
  | some .greaterThan => .test .greaterThan field value.shown
  | some .lessThan => .test .lessThan field value.shown
  | some .containsSubstring => .test .like field ("%" ++ value.shown ++ "%")
  | some .containsSet => .isIn field (value.commaMembers.map (·.shown))

end Statement

namespace Group

def normalize (g : Group) : Group :=
  match g.filter (!·.isEmpty) with
  | [] => []
  | first :: rest =>
    first.normalize none :: rest.map fun s => s.normalize (some (s.connective.getD .and))

def condition (g : Group) : Condition :=
  match g.filter (!·.isEmpty) with
  | [] => .never
  | first :: rest =>
    rest.foldl (fun c s => .join (s.connective.getD .and) c s.condition) first.condition

def value? (g : Group) : Option LooseText :=
  if g.isComplete .branch then g.head?.bind (·.value) else none

def branch (g : Group) : Group := [{ value := g.value? }]

/-- The group states a condition: it begins with an operator and mentions no value without one. -/
structure IsCondition (g : Group) : Prop where
  first : ∃ s ∈ g.head?, s.operator.isSome = true
  operators : ∀ s ∈ g, s.isEmpty = false → s.operator.isSome = true

structure IsBranch (g : Group) : Prop where
  first : ∃ s ∈ g.head?, s.operator = none ∧ s.value.isSome = true
  rest : ∀ s ∈ g.tail, s.isEmpty = true

theorem IsCondition.exists_filter {g : Group} (h : g.IsCondition) :
    ∃ first rest, g.filter (!·.isEmpty) = first :: rest ∧
      ∀ s ∈ first :: rest, s.operator.isSome = true := by
  obtain ⟨s, hs, hop⟩ := h.first
  cases g with
  | nil => cases hs
  | cons t g =>
    cases hs
    have hne : s.isEmpty = false := by
      cases ho : s.operator with
      | none => simp [ho] at hop
      | some op => simp [Statement.isEmpty, ho]
    refine ⟨s, g.filter (!·.isEmpty), by simp [hne], fun u hu => ?_⟩
    rcases List.mem_cons.1 hu with rfl | hu
    · exact hop
    · obtain ⟨hmem, hu⟩ := List.mem_filter.1 hu
      exact h.operators u (List.mem_cons_of_mem _ hmem) (by simpa using hu)

theorem IsCondition.isComplete {g : Group} (h : g.IsCondition) :
    g.isComplete .condition = true := by
  obtain ⟨s, hs, hop⟩ := h.first
  cases g with
  | nil => cases hs
  | cons t g =>
    cases hs
    simp [Group.isComplete, hop]

theorem IsBranch.isComplete {g : Group} (h : g.IsBranch) : g.isComplete .branch = true := by
  obtain ⟨s, hs, -, hv⟩ := h.first
  cases g with
  | nil => cases hs
  | cons t g =>
    cases hs
    simp [Group.isComplete, hv]

theorem IsBranch.exists_value {g : Group} (h : g.IsBranch) :
    ∃ s v, g.filter (!·.isEmpty) = [s] ∧ s.operator = none ∧ s.value = some v ∧
      g.value? = some v := by
  have hcomplete := h.isComplete
  obtain ⟨s, hs, hop, hv⟩ := h.first
  cases g with
  | nil => cases hs
  | cons t g =>
    cases hs
    obtain ⟨v, hv⟩ := Option.isSome_iff_exists.1 hv
    have hrest : g.filter (!·.isEmpty) = [] := by
      rw [List.filter_eq_nil_iff]
      intro u hu
      simpa using h.rest u hu
    refine ⟨s, v, ?_, hop, hv, ?_⟩
    · rw [List.filter_cons_of_pos (by simp [Statement.isEmpty, hv]), hrest]
    · simp [value?, hcomplete, hv]

end Group

namespace Rule

def normalize (r : Rule) : Rule :=
  ⟨r.condition.normalize, r.thenBranch.branch, r.elseBranch.branch⟩

/-- The rule chooses between values on a condition. The value for entities that do not meet it may
be missing. -/
structure IsChoice (r : Rule) : Prop where
  condition : r.condition.IsCondition
  thenBranch : r.thenBranch.IsBranch
  elseBranch : r.isComplete .elseBranch = false ∨ r.elseBranch.IsBranch

end Rule

end Rulebook
