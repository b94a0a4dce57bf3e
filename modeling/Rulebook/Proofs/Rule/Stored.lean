import Rulebook.Command.Basic
import Rulebook.Proofs.Rule.Formatting
import Rulebook.Proofs.Value.JsonText

/-! The data document of a rule is read as the rule. The JSON text of a rule that was read from a text
is one of that document, so a file that holds it stands for the rule. -/

namespace Rulebook

namespace Statement

def members (s : Statement) : List (LooseText × Value) :=
  memberOf "logicalOperator" (s.connective.map fun c => .ofString c.name) ++
    memberOf "field" s.field ++
    memberOf "operator" (s.operator.map fun op => .ofString op.name) ++
    memberOf "value" s.value

theorem field?_memberOf (key name : String) (text : Option LooseText) :
    Value.field? (memberOf key text) (name : LooseText) =
      if key = name then text.map .text else none := by
  have hkey : (LooseText.ofString key == LooseText.ofString name) = decide (key = name) := by
    rw [Bool.eq_iff_iff, beq_iff_eq, decide_eq_true_iff]
    exact ⟨LooseText.ofString_injective, congrArg _⟩
  cases text with
  | none => simp [memberOf, Value.field?]
  | some t => by_cases h : key = name <;> simp [memberOf, Value.field?, hkey, h]

variable (path : LooseText)

theorem readConnective_name (c : Option Connective) :
    readConnective path (c.map fun c => .text (.ofString c.name)) = .ok c := by
  cases c <;> simp [readConnective, Value.string?, Value.text?]

theorem readOperator_name (op : Option Operator) :
    readOperator path (op.map fun op => .text (.ofString op.name)) = .ok op := by
  cases op <;> simp [readOperator, Value.string?, Value.text?]

theorem readField_text (t : Option LooseText) : readField path (t.map .text) = .ok t := by
  cases t <;> rfl

theorem readValue_text (t : Option LooseText) : readValue path (t.map .text) = .ok t := by
  cases t <;> rfl

theorem ofValue_toValue (s : Statement) : ofValue path s.toValue = .ok s := by
  have hconnective := readConnective_name path s.connective
  have hfield := readField_text path s.field
  have hoperator := readOperator_name path s.operator
  have hvalue := readValue_text path s.value
  change ofValue path (.record s.members) = .ok s
  simp [members, ofValue, member?, Value.field?_append, field?_memberOf, Function.comp_def,
    hconnective, hfield, hoperator, hvalue]
  rfl

end Statement

namespace Group

theorem readItems_toValue (path : LooseText) (index : Nat) (g : Group) :
    readItems path index (g.map Statement.toValue) = .ok g := by
  induction g generalizing index with
  | nil => rfl
  | cons s g ih =>
    rw [List.map_cons, readItems, Statement.ofValue_toValue, ih]
    rfl

theorem ofValue_toValue (path : LooseText) (mayMiss : Bool) (g : Group) :
    ofValue path mayMiss (some g.toValue) = .ok g :=
  readItems_toValue path 0 g

end Group

namespace Rule

def fields (r : Rule) : List (LooseText × Value) :=
  GroupName.all.map fun name => (name.text, (r.group name).toValue)

theorem field?_fields (r : Rule) (name : GroupName) :
    Value.field? r.fields name.text = some (r.group name).toValue := by
  cases name <;> rfl

theorem ofValue_toValue (r : Rule) : ofValue r.toValue = .ok r := by
  have hcondition : Value.field? r.fields "if" = _ := field?_fields r .condition
  have hthen : Value.field? r.fields "then" = _ := field?_fields r .thenBranch
  have helse : Value.field? r.fields "else" = _ := field?_fields r .elseBranch
  change ofValue (.record r.fields) = .ok r
  rw [ofValue, hcondition, hthen, helse]
  simp only [Group.ofValue_toValue]
  rfl

end Rule

/-- No character is halved. -/
def LooseText.IsWhole (t : LooseText) : Prop := ∃ s, t = ofString s

namespace Statement

structure IsWhole (s : Statement) : Prop where
  field : ∀ t ∈ s.field, t.IsWhole
  value : ∀ t ∈ s.value, t.IsWhole

variable {s : Statement}

theorem isWhole_map {α : Type} (name : α → String) (x : Option α) :
    ∀ t ∈ x.map fun x => LooseText.ofString (name x), t.IsWhole := by
  cases x with
  | none => simp
  | some x => simpa using ⟨_, rfl⟩

theorem IsWhole.of_strings (c : Option Connective) (field : Option String) (op : Option Operator)
    (value : Option String) : IsWhole ⟨c, field.map .ofString, op, value.map .ofString⟩ :=
  ⟨isWhole_map id field, isWhole_map id value⟩

def memberNames : List LooseText := ["logicalOperator", "field", "operator", "value"].map .ofString

theorem keys_members (s : Statement) : (s.members.map Prod.fst).Sublist memberNames := by
  have hmember (key : String) (text : Option LooseText) :
      ((memberOf key text).map Prod.fst).Sublist [LooseText.ofString key] := by
    cases text with
    | none => exact List.nil_sublist _
    | some t => exact List.Sublist.refl _
  simp only [members, List.map_append]
  exact (((hmember _ _).append (hmember _ _)).append (hmember _ _)).append (hmember _ _)

theorem isTextual_memberOf {key : String} {text : Option LooseText}
    (h : ∀ t ∈ text, t.IsWhole) : ∀ f ∈ memberOf key text, f.2.IsTextual := by
  intro f hf
  obtain ⟨t, ht, rfl⟩ := List.mem_map.1 hf
  obtain ⟨u, rfl⟩ := h t (Option.mem_toList.1 ht)
  exact .text u

theorem isTextual_toValue (h : s.IsWhole) : s.toValue.IsTextual := by
  have hkeys : ∀ f ∈ s.members, f.1 ∈ memberNames := fun f hf =>
    (keys_members s).subset (List.mem_map_of_mem hf)
  have hnames : ∀ key ∈ memberNames, Value.position? key = none := by decide
  change Value.IsTextual (.record s.members)
  refine .record (fun f hf => ?_) (fun f hf => ?_) ?_
  · obtain ⟨name, -, hname⟩ := List.mem_map.1 (hkeys f hf)
    exact ⟨name, hname.symm⟩
  · simp only [members, List.mem_append] at hf
    obtain ((hf | hf) | hf) | hf := hf
    · exact isTextual_memberOf (isWhole_map Connective.name s.connective) f hf
    · exact isTextual_memberOf h.field f hf
    · exact isTextual_memberOf (isWhole_map Operator.name s.operator) f hf
    · exact isTextual_memberOf h.value f hf
  · exact Value.fieldsOf_eq ((keys_members s).nodup (by decide))
      fun f hf => hnames f.1 (hkeys f hf)

end Statement

namespace Expr.Node

theorem isWhole_statements (n : Node) (c : Option Connective) :
    ∀ s ∈ n.statements c, s.IsWhole := by
  induction n generalizing c with
  | logical op left right source ihl ihr =>
    intro s hs
    exact (List.mem_append.1 hs).elim (ihl c s) (ihr (some op) s)
  | comparison op left right source =>
    exact List.forall_mem_singleton.2 (.of_strings c (some _) (some _) (some _))
  | contains target argument source =>
    cases argument <;> exact List.forall_mem_singleton.2 (.of_strings c (some _) (some _) (some _))
  | literal l =>
    refine List.forall_mem_singleton.2 ?_
    rw [leaf]
    split
    · exact .of_strings c none none none
    · exact .of_strings c none none (some _)
  | _ => exact List.forall_mem_singleton.2 (.of_strings c none none none)

end Expr.Node

namespace Rule
open Rulebook.Expr

def IsWhole (r : Rule) : Prop := ∀ name, ∀ s ∈ r.group name, s.IsWhole

theorem isTextual_toValue {r : Rule} (h : r.IsWhole) : r.toValue.IsTextual := by
  have hkeys : r.fields.map Prod.fst = GroupName.all.map fun name => (name.text : LooseText) :=
    List.map_map
  have hnames (name : GroupName) : Value.position? name.text = none := by cases name <;> decide
  change Value.IsTextual (.record r.fields)
  refine .record (fun f hf => ?_) (fun f hf => ?_) (Value.fieldsOf_eq ?_ fun f hf => ?_)
  · obtain ⟨name, -, rfl⟩ := List.mem_map.1 hf
    exact ⟨name.text, rfl⟩
  · obtain ⟨name, -, rfl⟩ := List.mem_map.1 hf
    refine .list fun v hv => ?_
    obtain ⟨s, hs, rfl⟩ := List.mem_map.1 hv
    exact Statement.isTextual_toValue (h name s hs)
  · rw [hkeys]
    decide
  · obtain ⟨name, -, rfl⟩ := List.mem_map.1 hf
    exact hnames name

theorem isWhole_of_read {text : String} {r : Rule} (h : read text = .ok r) : r.IsWhole := by
  obtain ⟨-, rfl⟩ | ⟨c, -, rfl⟩ := read_eq_ok h
  · intro name s hs
    obtain rfl : s = .empty := by cases name <;> exact List.mem_singleton.1 hs
    exact .of_strings none none none none
  · rw [ofConditional_eq]
    intro name
    cases name <;> exact Node.isWhole_statements _ none

theorem format_of_document {w : Workplace} {file : String} {r : Rule}
    (h : Command.readDocument w file = .ok r.toValue) :
    Command.format w file = match r.write with
      | .ok s => if s = "" then .error (.incompleteRule file) else .ok s
      | .error e => .error (.unsafeText e) := by
  have hrule : (ofValue r.toValue).mapError Problem.shape = .ok r := by
    rw [ofValue_toValue]
    rfl
  simp only [Command.format, h, bind, Except.bind, hrule]
  cases r.write <;> rfl

/-- The data document of every rule is read as the rule. Where a rule was read from a text, a file
that holds its JSON text is formatted as the rule is written. -/
theorem stored_forms : (∀ r : Rule, ofValue r.toValue = .ok r) ∧
    ∀ text r, read text = .ok r → ∃ content, Command.parse text .json = .ok content ∧
      ∀ (w : Workplace) (file : String),
        w.files.entry? (w.directory.resolve file) = some (.file content) →
          (∀ s, Command.format w file = .ok s ↔ r.write = .ok s ∧ s ≠ "") ∧
          (Command.format w file = .error (.incompleteRule file) ↔ r.write = .ok "") ∧
          ∀ e, Command.format w file = .error (.unsafeText e) ↔ r.write = .error e := by
  refine ⟨ofValue_toValue, fun text r hread => ?_⟩
  have hparse : Command.parse text .json = .ok (Json.pretty r.toValue) := by
    rw [Command.parse, hread]
    rfl
  refine ⟨_, hparse, fun w file hfile => ?_⟩
  have hjson : Json.read? (Json.pretty r.toValue) = some r.toValue :=
    Json.read?_write (isTextual_toValue (isWhole_of_read hread)) _
  have hdocument : Command.readDocument w file = .ok r.toValue := by
    simp only [Command.readDocument, hfile, hjson]
  rw [format_of_document hdocument]
  cases hwrite : r.write with
  | error e => simp
  | ok s =>
    by_cases hs : s = ""
    · subst hs
      simp
    · simp [hs]

def stageTest : RuleForm :=
  choice (.comparison ⟨"stage", by decide⟩ .one .equal .none (.quoted "open" (by decide)))

theorem stored_forms_stageTest :
    stageTest.text = "stage =='open' ? 'x' : 'y'" ∧
      ∃ content, Command.parse stageTest.text .json = .ok content ∧
        Command.format ⟨⟨[(⟨["rule.json"]⟩, .file content)]⟩, .root⟩ "rule.json" =
          .ok "stage == 'open' ? 'x' : 'y'" := by
  obtain ⟨content, hparse, hformat⟩ :=
    stored_forms.2 stageTest.text _ (read_of_parse (parse_form stageTest))
  have hentry : FileTree.entry? ⟨[(⟨["rule.json"]⟩, .file content)]⟩
      (Path.root.resolve "rule.json") = some (.file content) := by
    have hpath : Path.root.resolve "rule.json" = ⟨["rule.json"]⟩ := by decide
    rw [hpath]
    simp [FileTree.entry?]
  obtain ⟨hwritten, -, -⟩ := hformat ⟨_, .root⟩ "rule.json" hentry
  exact ⟨by decide, content, hparse, (hwritten _).2 ⟨by decide, by decide⟩⟩

end Rule

end Rulebook
