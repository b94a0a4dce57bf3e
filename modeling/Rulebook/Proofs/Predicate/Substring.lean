import Rulebook.Proofs.Predicate.Like
import Rulebook.Proofs.Rule.Formatting

/-! What `contains` asks of a text. It asks for a part that splits along the literal, so a literal is
found wherever it occurs, and a literal with neither wildcard only there. -/

namespace Rulebook

namespace Like
open Text

variable {p q s : List UInt16}

theorem Splits.append {t : List UInt16} (hp : Splits p s) (hq : Splits q t) :
    Splits (p ++ q) (s ++ t) := by
  induction hp with
  | nil => exact hq
  | run taken _ ih =>
    rw [List.append_assoc]
    exact .run taken ih
  | one u _ ih => exact .one u ih
  | self hrun hone _ ih => exact .self hrun hone ih

theorem Splits.exists_append (h : Splits (p ++ q) s) :
    ∃ front back, s = front ++ back ∧ Splits p front ∧ Splits q back := by
  induction p generalizing s with
  | nil => exact ⟨[], s, rfl, .nil, h⟩
  | cons u p ih =>
    cases h with
    | run taken h =>
      obtain ⟨front, back, rfl, hp, hq⟩ := ih h
      exact ⟨taken ++ front, back, (List.append_assoc ..).symm, .run taken hp, hq⟩
    | one v h =>
      obtain ⟨front, back, rfl, hp, hq⟩ := ih h
      exact ⟨v :: front, back, rfl, .one v hp, hq⟩
    | self hrun hone h =>
      obtain ⟨front, back, rfl, hp, hq⟩ := ih h
      exact ⟨u :: front, back, rfl, .self hrun hone hp, hq⟩

theorem splits_refl (p : List UInt16) : Splits p p := by
  induction p with
  | nil => exact .nil
  | cons u p ih =>
    by_cases hrun : u = percent
    · subst hrun
      exact .run [percent] ih
    · by_cases hone : u = underscore
      · subst hone
        exact .one underscore ih
      · exact .self hrun hone ih

theorem Splits.eq (h : Splits p s) (hrun : percent ∉ p) (hone : underscore ∉ p) : s = p := by
  induction h with
  | nil => rfl
  | run => simp at hrun
  | one => simp at hone
  | self _ _ _ ih => rw [ih (by simp_all) (by simp_all)]

theorem splits_around_iff :
    Splits (percent :: (p ++ [percent])) s ↔ ∃ part, part <:+: s ∧ Splits p part := by
  constructor
  · intro h
    cases h with
    | run before h =>
      obtain ⟨part, after, rfl, hpart, -⟩ := h.exists_append
      exact ⟨part, ⟨before, after, List.append_assoc ..⟩, hpart⟩
    | self hne => exact absurd rfl hne
  · rintro ⟨part, ⟨before, after, rfl⟩, hpart⟩
    have hafter : Splits [percent] after := by simpa using Splits.run after .nil
    rw [List.append_assoc]
    exact .run before (hpart.append hafter)

theorem units_around (literal : String) :
    units ("%" ++ literal ++ "%").toList = percent :: (units literal.toList ++ [percent]) := by
  simp only [String.toList_append, units_append]
  rfl

end Like

open Rulebook.Expr Rule Like Text

/-- A rule whose condition asks an attribute to contain a literal gives the value of its
`thenBranch` when a part of the attribute's text splits along the literal. That is so where the
literal occurs, and if it has no wildcard, nowhere else. -/
theorem evaluate_contains {text : String} {c : Conditional} {target : Field} {l : Literal}
    {source : String} {entity : Entity} {t : LooseText} (h : parse text = .ok c)
    (hcondition : c.condition = .contains target (.literal l) source)
    (hown : Value.field? entity (target.name : LooseText) = some (.text t)) :
    ∃ holds, evaluate text entity =
        .ok (if holds = true then c.thenBranch.value? else c.elseBranch.value?) ∧
      (holds = true ↔ ∃ part, part <:+: t.units ∧ Splits (units l.raw.toList) part) ∧
      (units l.raw.toList <:+: t.units → holds = true) ∧
      ('%' ∉ l.raw.toList → '_' ∉ l.raw.toList →
        (holds = true ↔ units l.raw.toList <:+: t.units)) := by
  have hattribute : Attribute.of entity target.name = .own (.text t) := by
    rw [Attribute.of, hown]
  have hiff : Like.holds ("%" ++ l.raw ++ "%") t = true ↔
      ∃ part, part <:+: t.units ∧ Splits (units l.raw.toList) part := by
    rw [holds_iff, units_around, splits_around_iff]
  refine ⟨Like.holds ("%" ++ l.raw ++ "%") t, ?_, hiff, ?_, ?_⟩
  · rw [evaluate_of_parse h, conditional_evaluate, hcondition]
    simp [Node.condition, Condition.build, entityPredicates, hattribute, Attribute.likeText?,
      Except.map, Except.mapError]
  · exact fun hpart => hiff.2 ⟨_, hpart, splits_refl _⟩
  · intro hrun hone
    have hpercent : percent ∉ units l.raw.toList := fun hm =>
      hrun ((mem_units (c := '%') (by decide)).1 hm)
    have hunderscore : underscore ∉ units l.raw.toList := fun hm =>
      hone ((mem_units (c := '_') (by decide)).1 hm)
    rw [hiff]
    constructor
    · rintro ⟨part, hpart, hsplits⟩
      rwa [← hsplits.eq hpercent hunderscore]
    · exact fun hpart => ⟨_, hpart, splits_refl _⟩

def containing (f : FieldForm) (l : LiteralForm) : RuleForm :=
  choice (.fieldContains f ⟨.none, .none, .none⟩ (.literal l))

theorem evaluate_contains_dotted :
    (containing ⟨"r", by decide⟩ (.quoted "a.c" (by decide))).text =
      "r.contains('a.c') ? 'x' : 'y'" ∧
    evaluate "r.contains('a.c') ? 'x' : 'y'" [("r", .text "ba.cd")] = .ok (some "x") ∧
    evaluate "r.contains('a.c') ? 'x' : 'y'" [("r", .text "babcd")] = .ok (some "y") := by
  have htext : (containing ⟨"r", by decide⟩ (.quoted "a.c" (by decide))).text =
      "r.contains('a.c') ? 'x' : 'y'" := by decide
  have hparse := parse_form (containing ⟨"r", by decide⟩ (.quoted "a.c" (by decide)))
  rw [htext] at hparse
  have hown : ∀ t : LooseText,
      Value.field? ([("r", .text t)] : Entity) ("r" : LooseText) = some (.text t) := fun t => rfl
  obtain ⟨found, hfound, -, hoccurs, -⟩ := evaluate_contains hparse rfl (hown "ba.cd")
  obtain ⟨missed, hmissed, -, -, honly⟩ := evaluate_contains hparse rfl (hown "babcd")
  have hin : found = true := hoccurs (by decide)
  have hout : missed = false := by
    rw [Bool.eq_false_iff, Ne, honly (by decide) (by decide)]
    decide
  refine ⟨htext, ?_, ?_⟩
  · rw [hfound, hin]
    rfl
  · rw [hmissed, hout]
    rfl

/-- The underscore of a literal takes any unit, so `a_c` is found in `abc`, where it does not
occur. -/
theorem evaluate_contains_underscore :
    (containing ⟨"r", by decide⟩ (.quoted "a_c" (by decide))).text =
      "r.contains('a_c') ? 'x' : 'y'" ∧
    evaluate "r.contains('a_c') ? 'x' : 'y'" [("r", .text "abc")] = .ok (some "x") ∧
    ¬ units "a_c".toList <:+: units "abc".toList := by
  have htext : (containing ⟨"r", by decide⟩ (.quoted "a_c" (by decide))).text =
      "r.contains('a_c') ? 'x' : 'y'" := by decide
  have hparse := parse_form (containing ⟨"r", by decide⟩ (.quoted "a_c" (by decide)))
  rw [htext] at hparse
  refine ⟨htext, ?_, by decide⟩
  rw [evaluate_of_parse hparse]
  decide

end Rulebook
