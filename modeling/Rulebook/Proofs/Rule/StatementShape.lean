import Rulebook.Proofs.Rule.Reports
import Rulebook.Rule.OfValue

/-! Which records are statements, what is read from them, and what is reported of the others: of a
statement, the first of its members that is not what it may be. -/

namespace Rulebook

theorem Connective.ofName?_eq_some {s : String} {c : Connective} :
    ofName? s = some c ↔ s = c.name := by
  refine ⟨fun h => ?_, fun h => h ▸ ofName?_name c⟩
  unfold ofName? at h
  split at h
  all_goals cases h
  all_goals rfl

theorem Operator.ofName?_eq_some {s : String} {op : Operator} :
    ofName? s = some op ↔ s = op.name := by
  refine ⟨fun h => ?_, fun h => h ▸ ofName?_name op⟩
  have hname := List.find?_some h
  exact (eq_of_beq hname).symm

theorem Connective.nameText_injective :
    Function.Injective fun c : Connective => LooseText.ofString c.name := by
  intro c d hcd
  have hname := congrArg ofName? (LooseText.ofString_injective hcd)
  simpa using hname

theorem Operator.nameText_injective :
    Function.Injective fun op : Operator => LooseText.ofString op.name := by
  intro op op' hop
  have hname := congrArg ofName? (LooseText.ofString_injective hop)
  simpa using hname

theorem Value.string?_bind_eq_some {α : Type} {ofName? : String → Option α} {name : α → String}
    (hname : ∀ {s a}, ofName? s = some a ↔ s = name a) {v : Value} {a : α} :
    v.string?.bind ofName? = some a ↔ v = .text (.ofString (name a)) := by
  constructor
  · intro h
    obtain ⟨s, hs, ha⟩ := Option.bind_eq_some_iff.1 h
    obtain ⟨t, ht, hts⟩ := Option.bind_eq_some_iff.1 hs
    obtain rfl := hname.1 ha
    cases v with
    | text u =>
      obtain rfl : u = t := Option.some.inj ht
      rw [LooseText.string?_eq_some.1 hts]
    | _ => cases ht
  · rintro rfl
    simp [Value.string?, Value.text?, hname]

namespace Statement

inductive Member where
  | connective
  | field
  | operator
  | value
  deriving DecidableEq, Repr

namespace Member

def all : List Member := [.connective, .field, .operator, .value]

theorem mem_all (m : Member) : m ∈ all := by cases m <;> decide

def key : Member → String
  | .connective => "logicalOperator"
  | .field => "field"
  | .operator => "operator"
  | .value => "value"

def violation : Member → ShapeViolation
  | .connective => .notConnective
  | .field => .notText
  | .operator => .notOperator
  | .value => .notText

/-- What the member may be, besides absent or `null`. -/
def allows : Member → Value → Bool
  | .connective, .text t => t == "and" || t == "or"
  | .field, .text _ => true
  | .operator, .text t => Operator.all.any fun op => t == op.name
  | .value, .text _ => true
  | .value, .number _ => true
  | _, _ => false

theorem allows_connective {v : Value} :
    connective.allows v = true ↔ ∃ c : Connective, v = .text (.ofString c.name) := by
  constructor
  · intro h
    cases v with
    | text t =>
      obtain ht | ht := Bool.or_eq_true_iff.1 h
      · exact ⟨.and, congrArg Value.text (eq_of_beq ht)⟩
      · exact ⟨.or, congrArg Value.text (eq_of_beq ht)⟩
    | _ => cases h
  · rintro ⟨c, rfl⟩
    cases c <;> decide

theorem allows_operator {v : Value} :
    operator.allows v = true ↔ ∃ op : Operator, v = .text (.ofString op.name) := by
  constructor
  · intro h
    cases v with
    | text t =>
      obtain ⟨op, -, ht⟩ := List.any_eq_true.1 h
      exact ⟨op, congrArg Value.text (eq_of_beq ht)⟩
    | _ => cases h
  · rintro ⟨op, rfl⟩
    cases op <;> decide

end Member

variable {path : LooseText} {fields : List (LooseText × Value)} {v : Value} {s t : Statement}

def refused? (path : LooseText) (fields : List (LooseText × Value)) (m : Member) :
    Option ShapeError :=
  match member? fields m.key with
  | none => none
  | some v =>
    if m.allows v then none else some ⟨path ++ .ofString ("." ++ m.key), m.violation⟩

def violations (path : LooseText) : Value → List ShapeError
  | .record fields => Member.all.filterMap (refused? path fields)
  | _ => [⟨path, .notStatement⟩]

/-- The value is a record whose members are absent, `null` or what they may be. -/
def IsShaped (v : Value) : Prop :=
  ∃ fields, v = .record fields ∧
    ∀ m : Member, ∀ u, Value.field? fields m.key = some u → u = .null ∨ m.allows u = true

def text? (s : Statement) : Member → Option LooseText
  | .connective => s.connective.map fun c => .ofString c.name
  | .field => s.field
  | .operator => s.operator.map fun op => .ofString op.name
  | .value => s.value

/-- The text that a member is read as: a number stands for its text. -/
def spelled? : Value → Option LooseText
  | .text t => some t
  | .number n => some n.text
  | _ => none

/-- The statement has the members of the record, except those that are `null`. -/
def IsOf (s : Statement) (v : Value) : Prop :=
  ∃ fields, v = .record fields ∧
    ∀ m : Member, s.text? m = (Value.field? fields m.key).bind spelled?

theorem ext_text? (h : ∀ m, s.text? m = t.text? m) : s = t := by
  obtain ⟨c, field, op, value⟩ := s
  obtain ⟨c', field', op', value'⟩ := t
  obtain rfl : c = c' := Option.map_injective Connective.nameText_injective (h .connective)
  obtain rfl : field = field' := h .field
  obtain rfl : op = op' := Option.map_injective Operator.nameText_injective (h .operator)
  obtain rfl : value = value' := h .value
  rfl

theorem refused?_eq_none_iff {m : Member} : refused? path fields m = none ↔
    ∀ u, Value.field? fields m.key = some u → u = .null ∨ m.allows u = true := by
  rw [refused?, member?]
  cases hfield : Value.field? fields m.key with
  | none => simp
  | some u =>
    cases u with
    | null => simp
    | _ => simp

theorem violations_eq_nil_iff : violations path v = [] ↔ IsShaped v := by
  cases v with
  | record fields =>
    rw [violations, List.filterMap_eq_nil_iff]
    constructor
    · intro h
      exact ⟨fields, rfl, fun m => refused?_eq_none_iff.1 (h m m.mem_all)⟩
    · rintro ⟨fields', hfields, h⟩ m -
      cases hfields
      exact refused?_eq_none_iff.2 (h m)
  | _ => exact iff_of_false (by simp [violations]) fun ⟨_, hfields, _⟩ => nomatch hfields

theorem member?_bind_spelled? (key : String) :
    (member? fields key).bind spelled? = (Value.field? fields key).bind spelled? := by
  unfold member?
  split
  case h_1 h =>
    rw [h]
    rfl
  case h_2 => rfl

def ReadsMember {α : Type} (text : α → LooseText) (path : LooseText)
    (fields : List (LooseText × Value)) (m : Member) (x : Except ShapeError (Option α)) : Prop :=
  match refused? path fields m with
  | some e => x = .error e
  | none => ∃ a, x = .ok a ∧ a.map text = (Value.field? fields m.key).bind spelled?

theorem ReadsMember.reports {α : Type} {text : α → LooseText} {m : Member}
    {x : Except ShapeError (Option α)} (h : ReadsMember text path fields m x) :
    Reports x (refused? path fields m).toList := by
  unfold ReadsMember at h
  split at h
  case h_1 e he =>
    rw [h, he]
    exact reports_error e
  case h_2 he =>
    obtain ⟨a, rfl, -⟩ := h
    rw [he]
    exact reports_ok a

theorem ReadsMember.of_ok {α : Type} {text : α → LooseText} {m : Member} {a : Option α}
    (h : ReadsMember text path fields m (.ok a)) :
    a.map text = (Value.field? fields m.key).bind spelled? := by
  unfold ReadsMember at h
  split at h
  case h_1 => cases h
  case h_2 =>
    obtain ⟨b, hb, htext⟩ := h
    rw [Except.ok.inj hb, htext]

variable (path fields)

theorem readsMember_of {α : Type} {text : α → LooseText} {m : Member}
    {read : Option Value → Except ShapeError (Option α)} (hnone : read none = .ok none)
    (hsome : ∀ v, m.allows v = true →
      ∃ a, read (some v) = .ok (some a) ∧ spelled? v = some (text a))
    (herror : ∀ v, m.allows v = false →
      read (some v) = .error ⟨path ++ .ofString ("." ++ m.key), m.violation⟩) :
    ReadsMember text path fields m (read (member? fields m.key)) := by
  rw [ReadsMember, ← member?_bind_spelled?, refused?]
  cases member? fields m.key with
  | none => exact ⟨none, hnone, rfl⟩
  | some v =>
    cases hallows : m.allows v with
    | true =>
      obtain ⟨a, hread, htext⟩ := hsome v hallows
      simp only [hallows, if_true]
      exact ⟨some a, hread, htext.symm⟩
    | false =>
      simp only [hallows]
      exact herror v hallows

theorem bind_eq_none {α : Type} {ofName? : String → Option α} {name : α → String} {m : Member}
    (hname : ∀ {s a}, ofName? s = some a ↔ s = name a)
    (hallows : m.allows v = true ↔ ∃ a, v = .text (.ofString (name a)))
    (hv : m.allows v = false) : v.string?.bind ofName? = none := by
  by_contra hne
  obtain ⟨a, ha⟩ := Option.ne_none_iff_exists'.1 hne
  rw [hallows.2 ⟨a, (Value.string?_bind_eq_some hname).1 ha⟩] at hv
  cases hv

theorem readsMember_connective : ReadsMember (fun c : Connective => .ofString c.name) path fields
    .connective (readConnective path (member? fields "logicalOperator")) := by
  refine readsMember_of path fields (m := .connective) rfl (fun v hv => ?_) fun v hv => ?_
  · obtain ⟨c, rfl⟩ := Member.allows_connective.1 hv
    exact ⟨c, by simp [readConnective, Value.string?, Value.text?], rfl⟩
  · have hnone := bind_eq_none Connective.ofName?_eq_some Member.allows_connective hv
    simp only [readConnective, hnone]
    rfl

theorem readsMember_operator : ReadsMember (fun op : Operator => .ofString op.name) path fields
    .operator (readOperator path (member? fields "operator")) := by
  refine readsMember_of path fields (m := .operator) rfl (fun v hv => ?_) fun v hv => ?_
  · obtain ⟨op, rfl⟩ := Member.allows_operator.1 hv
    exact ⟨op, by simp [readOperator, Value.string?, Value.text?], rfl⟩
  · have hnone := bind_eq_none Operator.ofName?_eq_some Member.allows_operator hv
    simp only [readOperator, hnone]
    rfl

theorem readsMember_field :
    ReadsMember id path fields .field (readField path (member? fields "field")) := by
  refine readsMember_of path fields (m := .field) rfl (fun v hv => ?_) fun v hv => ?_
  · cases v with
    | text t => exact ⟨t, rfl, rfl⟩
    | _ => cases hv
  · cases v with
    | text t => cases hv
    | _ => rfl

theorem readsMember_value :
    ReadsMember id path fields .value (readValue path (member? fields "value")) := by
  refine readsMember_of path fields (m := .value) rfl (fun v hv => ?_) fun v hv => ?_
  · cases v with
    | text t => exact ⟨t, rfl, rfl⟩
    | number n => exact ⟨n.text, rfl, rfl⟩
    | _ => cases hv
  · cases v with
    | text t => cases hv
    | number n => cases hv
    | _ => rfl

variable {path fields}

theorem reports_ofValue : Reports (ofValue path v) (violations path v) := by
  cases v with
  | record fields =>
    have hall : violations path (.record fields) =
        (refused? path fields .connective).toList ++ ((refused? path fields .field).toList ++
          ((refused? path fields .operator).toList ++ (refused? path fields .value).toList)) := by
      simp only [violations, Member.all, List.filterMap_cons, List.filterMap_nil]
      cases refused? path fields .connective <;> cases refused? path fields .field <;>
        cases refused? path fields .operator <;> cases refused? path fields .value <;> rfl
    rw [hall]
    exact (readsMember_connective path fields).reports.bind fun c =>
      (readsMember_field path fields).reports.bind fun field =>
        (readsMember_operator path fields).reports.bind fun op =>
          (readsMember_value path fields).reports.bind_pure
  | _ => exact reports_error _

theorem isOf_of_ok (h : ofValue path v = .ok s) : s.IsOf v := by
  cases v with
  | record fields =>
    obtain ⟨c, hc, h⟩ := Rule.of_bind_ok h
    obtain ⟨field, hfield, h⟩ := Rule.of_bind_ok h
    obtain ⟨op, hop, h⟩ := Rule.of_bind_ok h
    obtain ⟨value, hvalue, h⟩ := Rule.of_bind_ok h
    cases h
    refine ⟨fields, rfl, fun m => ?_⟩
    cases m with
    | connective => exact (hc ▸ readsMember_connective path fields).of_ok
    | field =>
      have h := (hfield ▸ readsMember_field path fields).of_ok
      rwa [Option.map_id] at h
    | operator => exact (hop ▸ readsMember_operator path fields).of_ok
    | value =>
      have h := (hvalue ▸ readsMember_value path fields).of_ok
      rwa [Option.map_id] at h
  | _ => cases h

theorem ofValue_eq_ok : ofValue path v = .ok s ↔ IsShaped v ∧ s.IsOf v := by
  have hshaped : (∃ s, ofValue path v = .ok s) ↔ IsShaped v :=
    reports_ofValue.exists_ok_iff.trans violations_eq_nil_iff
  refine ⟨fun h => ⟨hshaped.1 ⟨s, h⟩, isOf_of_ok h⟩, ?_⟩
  rintro ⟨h, fields, rfl, hs⟩
  obtain ⟨t, ht⟩ := hshaped.2 h
  obtain ⟨fields', hfields, hmembers⟩ := isOf_of_ok ht
  cases hfields
  obtain rfl : s = t := ext_text? fun m => (hs m).trans (hmembers m).symm
  exact ht

end Statement

end Rulebook
