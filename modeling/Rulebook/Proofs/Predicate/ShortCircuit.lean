import Rulebook.Predicate.Condition
import Rulebook.Predicate.OnEntity

/-! Outcomes joined from left to right. The right one of two is asked for only where the left one
leaves the matter open, so what it would have failed with is not seen elsewhere. -/

namespace Rulebook

abbrev Judgement := Except Value.Unprintable Bool

namespace Connective

/-- The truth value of one side that settles the whole. -/
def settling : Connective → Bool
  | .and => false
  | .or => true

def shortCircuit (c : Connective) (left right : Judgement) : Judgement := do
  if (← left) = c.settling then return c.settling else right

variable (c : Connective) (p q r : Judgement)

@[simp] theorem shortCircuit_error (e : Value.Unprintable) :
    c.shortCircuit (.error e) q = .error e := rfl

@[simp] theorem shortCircuit_settling : c.shortCircuit (.ok c.settling) q = .ok c.settling := by
  cases c <;> rfl

@[simp] theorem shortCircuit_open : c.shortCircuit (.ok !c.settling) q = q := by
  cases c <;> rfl

theorem cases_judgement (p : Judgement) :
    (∃ e, p = .error e) ∨ p = .ok c.settling ∨ p = .ok !c.settling := by
  cases p with
  | error e => exact .inl ⟨e, rfl⟩
  | ok b => cases b <;> cases c <;> simp [settling]

theorem shortCircuit_assoc :
    c.shortCircuit (c.shortCircuit p q) r = c.shortCircuit p (c.shortCircuit q r) := by
  obtain ⟨e, rfl⟩ | rfl | rfl := c.cases_judgement p <;> simp

@[simp] theorem shortCircuit_right_open : c.shortCircuit p (.ok !c.settling) = p := by
  obtain ⟨e, rfl⟩ | rfl | rfl := c.cases_judgement p <;> simp

theorem shortCircuit_eq_bind :
    c.shortCircuit p q = p >>= fun outcome => c.shortCircuit (.ok outcome) q := by
  cases p <;> rfl

end Connective

section Join

variable (p q : EntityPredicate) (entity : Entity)

theorem both_eq_shortCircuit :
    entityPredicates.both p q entity = Connective.and.shortCircuit (p entity) (q entity) := by
  change (p entity >>= fun b => if b then q entity else pure false) = _
  cases p entity with
  | error e => rfl
  | ok b => cases b <;> rfl

theorem either_eq_shortCircuit :
    entityPredicates.either p q entity = Connective.or.shortCircuit (p entity) (q entity) := by
  change (p entity >>= fun b => if b then pure true else q entity) = _
  cases p entity with
  | error e => rfl
  | ok b => cases b <;> rfl

end Join

theorem Condition.build_join (c : Connective) (left right : Condition) (entity : Entity) :
    (join c left right).build entityPredicates entity =
      c.shortCircuit (left.build entityPredicates entity)
        (right.build entityPredicates entity) := by
  cases c with
  | and => exact both_eq_shortCircuit _ _ entity
  | or => exact either_eq_shortCircuit _ _ entity

end Rulebook
