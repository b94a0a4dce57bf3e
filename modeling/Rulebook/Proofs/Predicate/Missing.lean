import Rulebook.Proofs.Predicate.ShortCircuit
import Rulebook.Proofs.Rule.Formatting
import Rulebook.Proofs.Value.Fields

/-! Entities that lack what a condition asks about. A missing attribute meets no test, but the
members that all records share are read where an entity has nothing of its own. -/

namespace Rulebook

namespace Attribute

/-- The entity has no attribute of this name of its own, or `null` there. -/
def Lacks (entity : Entity) (name : String) : Prop :=
  ∀ v, Value.field? entity (name : LooseText) = some v → v = .null

/-- The name is that of a member which all records share, and the entity has nothing of its own in
front of it. -/
def Inherits (entity : Entity) (name : String) : Prop :=
  name ∈ sharedMembers.map Prod.fst ∧ Value.field? entity (name : LooseText) = none

variable {entity : Entity} {name : String} {a : Attribute}

theorem exists_display_of_lacks (h : Lacks entity name) :
    ∃ t, (Attribute.of entity name).display = .ok t := by
  rw [Attribute.of]
  cases hown : Value.field? entity (name : LooseText) with
  | some v =>
    rw [h v hown]
    exact ⟨_, rfl⟩
  | none => cases Value.field? sharedMembers name <;> exact ⟨_, rfl⟩

theorem isMissing_of_lacks (h : Lacks entity name) (hown : ¬ Inherits entity name) :
    (Attribute.of entity name).isMissing = true := by
  rw [Attribute.of]
  cases hfield : Value.field? entity (name : LooseText) with
  | some v =>
    rw [h v hfield]
    rfl
  | none =>
    have hshared : Value.field? sharedMembers name = none :=
      Value.field?_eq_none fun hmem => hown ⟨hmem, hfield⟩
    rw [hshared]
    rfl

theorem isMissing_iff : a.isMissing = true ↔ a = .absent ∨ a = .own .null := by
  unfold isMissing
  split <;> simp_all

theorem matchesLiteral_of_isMissing (h : a.isMissing = true) (literal : String) :
    a.matchesLiteral literal = .ok false := by
  obtain rfl | rfl := isMissing_iff.1 h <;> rfl

theorem matchesAny_of_isMissing (h : a.isMissing = true) (literals : List String) :
    a.matchesAny literals = .ok false := by
  induction literals with
  | nil => rfl
  | cons literal rest ih =>
    rw [matchesAny, matchesLiteral_of_isMissing h]
    exact ih

theorem compare?_of_isMissing (h : a.isMissing = true) (literal : String) :
    a.compare? literal = none := by
  obtain rfl | rfl := isMissing_iff.1 h <;> rfl

theorem likeText?_of_isMissing (h : a.isMissing = true) : a.likeText? = none := by
  obtain rfl | rfl := isMissing_iff.1 h <;> rfl

theorem exists_matchesLiteral {t : LooseText} (h : a.display = .ok t) (literal : String) :
    ∃ b, a.matchesLiteral literal = .ok b := by
  unfold matchesLiteral
  split
  case h_5 => exact ⟨_, by rw [h]; rfl⟩
  all_goals exact ⟨_, rfl⟩

theorem exists_matchesAny {t : LooseText} (h : a.display = .ok t) (literals : List String) :
    ∃ b, a.matchesAny literals = .ok b := by
  induction literals with
  | nil => exact ⟨false, rfl⟩
  | cons literal rest ih =>
    obtain ⟨b, hb⟩ := exists_matchesLiteral h literal
    rw [matchesAny, hb]
    cases b with
    | true => exact ⟨true, rfl⟩
    | false => exact ih

end Attribute

namespace Condition

def names : Condition → List String
  | .test _ field _ => [field]
  | .isIn field _ => [field]
  | .join _ left right => left.names ++ right.names
  | .never => []

variable {entity : Entity}

theorem build_test_of_isMissing {field : String}
    (h : (Attribute.of entity field).isMissing = true) (t : Test) (literal : String) :
    (test t field literal).build entityPredicates entity = .ok false := by
  cases t with
  | equal => exact Attribute.matchesLiteral_of_isMissing h literal
  | notEqual => simp [build, entityPredicates, h]
  | greaterThan => simp [build, entityPredicates, Attribute.compare?_of_isMissing h]
  | lessThan => simp [build, entityPredicates, Attribute.compare?_of_isMissing h]
  | like => simp [build, entityPredicates, Attribute.likeText?_of_isMissing h]

theorem build_of_isMissing {c : Condition}
    (h : ∀ name ∈ c.names, (Attribute.of entity name).isMissing = true) :
    c.build entityPredicates entity = .ok false := by
  induction c with
  | test t field literal => exact build_test_of_isMissing (h field (by simp [names])) t literal
  | isIn field literals =>
    exact Attribute.matchesAny_of_isMissing (h field (by simp [names])) literals
  | join op left right ihl ihr =>
    rw [build_join, ihl fun name hname => h name (by simp [names, hname]),
      ihr fun name hname => h name (by simp [names, hname])]
    cases op <;> rfl
  | never => rfl

theorem exists_build_test {field : String} {t : LooseText}
    (h : (Attribute.of entity field).display = .ok t) (test : Test) (literal : String) :
    ∃ b, (Condition.test test field literal).build entityPredicates entity = .ok b := by
  obtain ⟨b, hb⟩ := Attribute.exists_matchesLiteral h literal
  cases test with
  | equal => exact ⟨b, hb⟩
  | notEqual =>
    simp only [build, entityPredicates, hb]
    split
    · exact ⟨false, rfl⟩
    · exact ⟨!b, rfl⟩
  | greaterThan => exact ⟨_, rfl⟩
  | lessThan => exact ⟨_, rfl⟩
  | like => exact ⟨_, rfl⟩

theorem exists_build {c : Condition}
    (h : ∀ name ∈ c.names, ∃ t, (Attribute.of entity name).display = .ok t) :
    ∃ b, c.build entityPredicates entity = .ok b := by
  induction c with
  | test t field literal =>
    obtain ⟨text, htext⟩ := h field (by simp [names])
    exact exists_build_test htext t literal
  | isIn field literals =>
    obtain ⟨text, htext⟩ := h field (by simp [names])
    exact Attribute.exists_matchesAny htext literals
  | join op left right ihl ihr =>
    obtain ⟨p, hp⟩ := ihl fun name hname => h name (by simp [names, hname])
    obtain ⟨q, hq⟩ := ihr fun name hname => h name (by simp [names, hname])
    rw [build_join, hp, hq]
    obtain ⟨e, he⟩ | hsettled | hopen := op.cases_judgement (.ok p)
    · cases he
    · rw [hsettled]
      exact ⟨_, op.shortCircuit_settling _⟩
    · rw [hopen]
      exact ⟨q, op.shortCircuit_open _⟩
  | never => exact ⟨false, rfl⟩

end Condition

namespace Expr

def Node.names : Node → List String
  | .comparison _ left _ _ => [left.name]
  | .contains target _ _ => [target.name]
  | .logical _ left right _ => left.names ++ right.names
  | _ => []

theorem Node.names_condition (n : Node) : n.condition.names = n.names := by
  induction n with
  | logical op left right source ihl ihr => rw [condition, Condition.names, ihl, ihr, names]
  | contains target argument source => cases argument <;> rfl
  | _ => rfl

end Expr

open Rulebook.Expr Rule

/-- A rule whose condition asks only about what the entity lacks raises nothing, and gives the value
of its `elseBranch` if it asks about no member that all records share. -/
theorem evaluate_lacking {text : String} {c : Conditional} {entity : Entity}
    (h : parse text = .ok c) (hlacks : ∀ name ∈ c.condition.names, Attribute.Lacks entity name) :
    ∃ v, evaluate text entity = .ok v ∧
      ((∀ name ∈ c.condition.names, ¬ Attribute.Inherits entity name) →
        v = c.elseBranch.value?) := by
  rw [← Node.names_condition] at *
  obtain ⟨b, hb⟩ := Condition.exists_build fun name hname =>
    Attribute.exists_display_of_lacks (hlacks name hname)
  rw [evaluate_of_parse h, conditional_evaluate, hb]
  refine ⟨_, rfl, fun hown => ?_⟩
  have hmissing := Condition.build_of_isMissing fun name hname =>
    Attribute.isMissing_of_lacks (hlacks name hname) (hown name hname)
  cases hb.symm.trans hmissing
  rfl

def notArchived : PredicateForm :=
  .comparison ⟨"status", by decide⟩ .one .notEqual .one (.quoted "archived" (by decide))

def ownedByMe : PredicateForm :=
  .fieldContains ⟨"owner", by decide⟩ ⟨.none, .none, .none⟩
    (.literal (.bare "me" (by decide) (by simp [isBare])))

def twoTests : RuleForm where
  __ := choice notArchived
  condition := .joined (.single notArchived) ⟨.one, .or, false, .one, ownedByMe⟩

theorem evaluate_lacking_twoTests :
    twoTests.text = "status != 'archived' or owner.contains(me) ? 'x' : 'y'" ∧
    evaluate twoTests.text [("status", .null), ("name", .text "me")] = .ok (some "y") := by
  refine ⟨by decide, ?_⟩
  have hnames (name : String) : name ∈ twoTests.tree.condition.names →
      name = "status" ∨ name = "owner" := List.mem_pair.1
  have hlacks : ∀ name ∈ twoTests.tree.condition.names,
      Attribute.Lacks [("status", .null), ("name", .text "me")] name := by
    intro name hname v hv
    obtain rfl | rfl := hnames name hname
    · cases hv
      rfl
    · cases hv
  obtain ⟨v, hv, helse⟩ := evaluate_lacking (parse_form twoTests) hlacks
  rw [hv, helse]
  · rfl
  · intro name hname hinherits
    obtain rfl | rfl := hnames name hname
    all_goals exact absurd hinherits.1 (by decide)

def asksInherited : RuleForm :=
  choice (.comparison ⟨"constructor", by decide⟩ .one .notEqual .one (.quoted "z" (by decide)))

/-- Every record has a `constructor`, so an entity without attributes meets a test of it. -/
theorem evaluate_inherited :
    asksInherited.text = "constructor != 'z' ? 'x' : 'y'" ∧
    (∀ name ∈ asksInherited.tree.condition.names, Attribute.Lacks [] name) ∧
    asksInherited.tree.elseBranch.value? = some "y" ∧
    evaluate asksInherited.text [] = .ok (some "x") := by
  refine ⟨by decide, ?_, rfl, ?_⟩
  · intro name _ v hv
    cases hv
  · rw [evaluate_of_parse (parse_form asksInherited)]
    decide

end Rulebook
