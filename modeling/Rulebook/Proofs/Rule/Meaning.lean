import Rulebook.Proofs.Predicate.ShortCircuit
import Rulebook.Proofs.Rule.Formatting

/-! What a structured rule says of an entity, read off its statements alone. The text of the rule
says the same: writing, reading and the left nesting of the tree change no outcome, errors
included. -/

namespace Rulebook

namespace Statement

/-- The operator judges the attribute by the value that is kept for it. -/
def holds (s : Statement) : EntityPredicate :=
  let read := entityPredicates.handle (s.field.getD "").shown
  let value := s.value.getD ""
  match s.operator with
  | none => entityPredicates.never
  | some .equals => entityPredicates.equal read value.shown
  | some .notEquals => entityPredicates.notEqual read value.shown
  | some .greaterThan => entityPredicates.greaterThan read value.shown
  | some .lessThan => entityPredicates.lessThan read value.shown
  | some .containsSubstring => entityPredicates.like read ("%" ++ value.shown ++ "%")
  | some .containsSet => entityPredicates.isIn read (value.commaMembers.map (·.shown))

/-- The outcome with one more statement. The statement is judged only where its connective leaves
the outcome so far open. -/
def follow (entity : Entity) (outcome : Bool) (s : Statement) : Judgement :=
  (s.connective.getD .and).shortCircuit (.ok outcome) (s.holds entity)

theorem build_condition (s : Statement) (entity : Entity) :
    s.condition.build entityPredicates entity = s.holds entity := by
  unfold condition holds
  cases s.operator with
  | none => rfl
  | some op => cases op <;> rfl

theorem build_join_condition (c : Condition) (s : Statement) (entity : Entity) :
    (Condition.join (s.connective.getD .and) c s.condition).build entityPredicates entity =
      c.build entityPredicates entity >>= fun outcome => s.follow entity outcome := by
  rw [Condition.build_join, build_condition, Connective.shortCircuit_eq_bind]
  rfl

end Statement

namespace Group

def holds (g : Group) (entity : Entity) : Judgement :=
  match g.filter (!·.isEmpty) with
  | [] => .ok false
  | first :: rest => do rest.foldlM (Statement.follow entity) (← first.holds entity)

theorem build_foldl (c : Condition) (g : Group) (entity : Entity) :
    (g.foldl (fun c s => .join (s.connective.getD .and) c s.condition) c).build
        entityPredicates entity =
      c.build entityPredicates entity >>= fun outcome =>
        g.foldlM (Statement.follow entity) outcome := by
  induction g generalizing c with
  | nil => simp
  | cons s g ih =>
    rw [List.foldl_cons, ih, Statement.build_join_condition, bind_assoc]
    simp only [List.foldlM_cons]

theorem build_condition (g : Group) (entity : Entity) :
    g.condition.build entityPredicates entity = g.holds entity := by
  rw [condition, holds]
  cases g.filter (!·.isEmpty) with
  | nil => rfl
  | cons first rest =>
    have hfold := build_foldl first.condition rest entity
    rwa [first.build_condition] at hfold

end Group

namespace Rule
open Rulebook.Expr

def valueFor (r : Rule) (entity : Entity) : Except Value.Unprintable (Option LooseText) := do
  if ← r.condition.holds entity then return r.thenBranch.value? else return r.elseBranch.value?

theorem value?_of_statements {l : Literal} {g : Group}
    (h : (Node.literal l).statements none = g.branch) :
    l.value?.map LooseText.ofString = g.value? := by
  rw [literal_statements, Group.branch] at h
  exact congrArg Statement.value (List.cons.inj h).1

/-- The text of a rule gives every entity the value that the rule itself gives it, or fails where
the rule fails. -/
theorem evaluate_eq_valueFor {r : Rule} {text : String} (hr : r.IsChoice)
    (h : r.write = .ok text) (entity : Entity) :
    (evaluate text entity).map (Option.map LooseText.ofString) =
      (r.valueFor entity).mapError fun _ => .unprintable := by
  obtain ⟨f, rfl, hnormal, hcondition, -, -⟩ := exists_rule hr h
  rw [ofConditional_eq] at hnormal
  have hthen : f.tree.thenBranch.value?.map LooseText.ofString = r.thenBranch.value? :=
    value?_of_statements (congrArg Rule.thenBranch hnormal)
  have helse : f.tree.elseBranch.value?.map LooseText.ofString = r.elseBranch.value? :=
    value?_of_statements (congrArg Rule.elseBranch hnormal)
  rw [evaluate_of_parse (parse_form f), conditional_evaluate, hcondition, Group.build_condition,
    valueFor, ← hthen, ← helse]
  cases r.condition.holds entity with
  | error e => rfl
  | ok holds => cases holds <;> rfl

def members : Rule where
  condition :=
    [{ field := some "role", operator := some .equals, value := some "admin" },
     .empty,
     { connective := some .or, field := some "team", operator := some .containsSet,
       value := some " red,blue " },
     { field := some "state", operator := some .containsSubstring, value := some "on" }]
  thenBranch := [{ value := some "in" }]
  elseBranch := [.empty]

theorem members_isChoice : members.IsChoice where
  condition := ⟨⟨_, rfl, rfl⟩, by decide⟩
  thenBranch := ⟨⟨_, rfl, rfl, rfl⟩, by decide⟩
  elseBranch := .inl rfl

def membersText : String :=
  "role == 'admin' or \x7b'red','blue'\x7d.contains(team) and state.contains('on') ? 'in' : null"

def unprintableTeam (role : String) : Entity :=
  [("role", .text role), ("team", .record [("toString", .null)]), ("state", .text "online")]

theorem evaluate_eq_valueFor_members :
    members.write = .ok membersText ∧
    (evaluate membersText (unprintableTeam "admin")).map (Option.map LooseText.ofString) =
      .ok (some "in") ∧
    (evaluate membersText (unprintableTeam "guest")).map (Option.map LooseText.ofString) =
      .error .unprintable := by
  have hwrite : members.write = .ok membersText := by decide
  refine ⟨hwrite, ?_, ?_⟩
  · rw [evaluate_eq_valueFor members_isChoice hwrite]
    decide
  · rw [evaluate_eq_valueFor members_isChoice hwrite]
    decide

end Rule

end Rulebook
