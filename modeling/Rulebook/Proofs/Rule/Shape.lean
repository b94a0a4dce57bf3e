import Rulebook.Proofs.Number.Rounding
import Rulebook.Proofs.Rule.StatementShape
import Rulebook.Rule.Session

/-! Which data documents are rules, what is read from them, and what is reported of the others: the
violation that comes first in the document. Statements that are keyed by ordinals come in the order
of these, as far as numbers tell them apart. -/

namespace Rulebook

namespace Group

def place (key : LooseText) : Nat := Text.digitsValue key.shown.toList

theorem ordinal_eq (key : LooseText) : ordinal key = .ofNat (place key) := rfl

/-- Entries by ascending ordinals, whatever their size; equal ones stay in the order given. -/
def byPlace (fields : List (LooseText × Value)) : List (LooseText × Value) :=
  fields.mergeSort fun a b => place a.1 ≤ place b.1

theorem sortOrdinals_perm {fields : List (LooseText × Value)} :
    (sortOrdinals fields).Perm fields :=
  List.mergeSort_perm _ _

theorem byPlace_perm {fields : List (LooseText × Value)} : (byPlace fields).Perm fields :=
  List.mergeSort_perm _ _

def IsApart (fields : List (LooseText × Value)) : Prop :=
  ∀ a ∈ fields, ∀ b ∈ fields, isOrdinal a.1 = true → isOrdinal b.1 = true →
    ordinal a.1 = ordinal b.1 → place a.1 = place b.1

def items (arrange : List (LooseText × Value) → List (LooseText × Value)) : Value → List Value
  | .list items => items
  | .record fields => (arrange fields).map (·.2)
  | _ => []

def entries (arrange : List (LooseText × Value) → List (LooseText × Value)) (path : LooseText) :
    Value → List (LooseText × Value)
  | .list items => items.mapIdx fun i v => (path ++ .ofString ("[" ++ toString i ++ "]"), v)
  | .record fields => (arrange fields).map fun f => (path ++ "." ++ f.1, f.2)
  | _ => []

def strayKeys (path : LooseText) : Value → List ShapeError
  | .record fields =>
    (fields.filter (!isOrdinal ·.1)).map fun f => ⟨path ++ "." ++ f.1, .notOrdinal⟩
  | _ => []

def isCollection : Value → Bool
  | .list _ => true
  | .record _ => true
  | _ => false

/-- What a group violates: first its keys, then its statements. -/
def violations (arrange : List (LooseText × Value) → List (LooseText × Value)) (path : LooseText)
    (mayMiss : Bool) : Option Value → List ShapeError
  | none => if mayMiss then [] else [⟨path, .missingGroup⟩]
  | some .null => if mayMiss then [] else [⟨path, .missingGroup⟩]
  | some v =>
    if isCollection v then
      strayKeys path v ++ (entries arrange path v).flatMap fun e => Statement.violations e.1 e.2
    else [⟨path, .notGroup⟩]

/-- The value is a list of statements, or a record of statements that are keyed by ordinals. -/
def IsShaped : Value → Prop
  | .list items => ∀ v ∈ items, Statement.IsShaped v
  | .record fields => ∀ f ∈ fields, isOrdinal f.1 = true ∧ Statement.IsShaped f.2
  | _ => False

def IsAllowed (mayMiss : Bool) : Option Value → Prop
  | none => mayMiss = true
  | some .null => mayMiss = true
  | some v => IsShaped v

/-- The group has the statements of the value; an empty record is one empty statement, as is a
missing group. -/
def IsOf (arrange : List (LooseText × Value) → List (LooseText × Value)) (g : Group) :
    Option Value → Prop
  | none => g = [.empty]
  | some .null => g = [.empty]
  | some (.record []) => g = [.empty]
  | some v => List.Forall₂ (fun v s => Statement.IsOf s v) (items arrange v) g

variable {arrange : List (LooseText × Value) → List (LooseText × Value)}
  {fields : List (LooseText × Value)} {path : LooseText} {mayMiss : Bool} {v? : Option Value}
  {v : Value} {g : Group}

theorem violations_record : violations arrange path mayMiss (some (.record fields)) =
    strayKeys path (.record fields) ++
      (entries arrange path (.record fields)).flatMap fun e => Statement.violations e.1 e.2 := rfl

theorem ordinal_compare {key key' : LooseText}
    (h : ordinal key = ordinal key' → place key = place key') :
    ((ordinal key).compare? (ordinal key') != some .gt) = decide (place key ≤ place key') := by
  have hself : (ordinal key').compare? (ordinal key') = some .eq :=
    Number.compare?_self (Number.ofDecimal_ne_nan _ _ _)
  by_cases hle : place key ≤ place key'
  · obtain heq | hlt := Number.ofNat_of_le hle
    · rw [ordinal_eq key, heq, ← ordinal_eq, hself]
      simp [hle]
    · rw [ordinal_eq, ordinal_eq, hlt]
      simp [hle]
  · obtain heq | hlt := Number.ofNat_of_le (Nat.le_of_not_le hle)
    · exact absurd (h heq.symm).le hle
    · rw [Number.compare?_swap, ordinal_eq, ordinal_eq, hlt]
      simp [hle]

theorem isApart_of_lt (h : ∀ f ∈ fields, place f.1 < 2 ^ 53) : IsApart fields := by
  intro a ha b hb _ _ hab
  exact Number.ofNat_inj_of_lt (h a ha) (h b hb) hab

theorem mergeSort_congr {α : Type} {l : List α} {r s : α → α → Bool}
    (h : ∀ a ∈ l, ∀ b ∈ l, r a b = s a b) : l.mergeSort r = l.mergeSort s := by
  have hsame := List.map_mergeSort (f := id) (r := r) (s := s) h
  rwa [List.map_id, List.map_id] at hsame

theorem sortOrdinals_eq (hkeys : ∀ f ∈ fields, isOrdinal f.1 = true) (h : IsApart fields) :
    sortOrdinals fields = byPlace fields := by
  unfold sortOrdinals byPlace
  refine mergeSort_congr fun a ha b hb => ?_
  exact ordinal_compare (h a ha b hb (hkeys a ha) (hkeys b hb))

theorem map_entries (path : LooseText) (v : Value) :
    (entries arrange path v).map (·.2) = items arrange v := by
  cases v with
  | list vs =>
    rw [entries, List.mapIdx_eq_zipIdx_map, List.map_map]
    exact List.zipIdx_map_fst 0 vs
  | record fields => simp [entries, items, Function.comp_def]
  | _ => rfl

theorem readEntries_eq (path : LooseText) (fields : List (LooseText × Value)) :
    readEntries path fields =
      (fields.map fun f => (path ++ "." ++ f.1, f.2)).mapM fun e => Statement.ofValue e.1 e.2 := by
  induction fields with
  | nil => rfl
  | cons f fields ih => rw [readEntries, ih, List.map_cons, List.mapM_cons]

theorem readItems_eq (path : LooseText) (index : Nat) (vs : List Value) :
    readItems path index vs =
      (vs.mapIdx fun i v => (path ++ .ofString ("[" ++ toString (index + i) ++ "]"), v)).mapM
        fun e => Statement.ofValue e.1 e.2 := by
  induction vs generalizing index with
  | nil => rfl
  | cons v vs ih =>
    have hnext (i : Nat) : index + 1 + i = index + (i + 1) := by omega
    rw [readItems, ih, List.mapIdx_cons, List.mapM_cons]
    simp only [hnext, Nat.add_zero]

theorem ofValue_list (arrange : List (LooseText × Value) → List (LooseText × Value))
    (path : LooseText) (mayMiss : Bool) (vs : List Value) :
    ofValue path mayMiss (some (.list vs)) =
      (entries arrange path (.list vs)).mapM fun e => Statement.ofValue e.1 e.2 := by
  rw [ofValue, readItems_eq, entries]
  simp only [Nat.zero_add]

theorem ofValue_record (hkeys : ∀ f ∈ fields, isOrdinal f.1 = true) (hne : fields ≠ []) :
    ofValue path mayMiss (some (.record fields)) =
      (entries sortOrdinals path (.record fields)).mapM fun e => Statement.ofValue e.1 e.2 := by
  have hnone : fields.find? (!isOrdinal ·.1) = none := by
    rw [List.find?_eq_none]
    intro f hf
    simp [hkeys f hf]
  have hempty : fields.isEmpty = false := by simpa using hne
  simp only [ofValue, hnone, hempty, entries, ← readEntries_eq]
  rfl

theorem strayKeys_eq_nil_iff :
    strayKeys path (.record fields) = [] ↔ ∀ f ∈ fields, isOrdinal f.1 = true := by
  simp [strayKeys]

theorem head?_strayKeys : (strayKeys path (.record fields)).head? =
    (fields.find? (!isOrdinal ·.1)).map fun f => ⟨path ++ "." ++ f.1, .notOrdinal⟩ := by
  rw [strayKeys, List.head?_map, List.head?_filter]

theorem exists_stray (h : ¬ ∀ f ∈ fields, isOrdinal f.1 = true) :
    ∃ f, fields.find? (!isOrdinal ·.1) = some f := by
  rw [← Option.isSome_iff_exists, List.find?_isSome]
  simpa using h

theorem reports_entries (es : List (LooseText × Value)) :
    Reports (es.mapM fun e => Statement.ofValue e.1 e.2)
      (es.flatMap fun e => Statement.violations e.1 e.2) :=
  reports_mapM (fun _ => Statement.reports_ofValue) es

theorem reports_ofValue :
    Reports (ofValue path mayMiss v?) (violations sortOrdinals path mayMiss v?) := by
  cases v? with
  | none => cases mayMiss <;> simp [ofValue, violations, reports_ok, reports_error]
  | some v =>
    cases v with
    | null => cases mayMiss <;> simp [ofValue, violations, reports_ok, reports_error]
    | list vs =>
      rw [ofValue_list sortOrdinals]
      exact reports_entries _
    | record fields =>
      by_cases hkeys : ∀ f ∈ fields, isOrdinal f.1 = true
      · have hstray : strayKeys path (.record fields) = [] := strayKeys_eq_nil_iff.2 hkeys
        rw [violations_record, hstray, List.nil_append]
        by_cases hne : fields = []
        · subst hne
          have hnil : entries sortOrdinals path (.record []) = [] := by
            simp [entries, sortOrdinals]
          rw [hnil]
          exact reports_ok _
        · rw [ofValue_record hkeys hne]
          exact reports_entries _
      · obtain ⟨f, hf⟩ := exists_stray hkeys
        have hstray : (strayKeys path (.record fields)).head? =
            some ⟨path ++ "." ++ f.1, .notOrdinal⟩ := by
          rw [head?_strayKeys, hf, Option.map_some]
        simp only [ofValue, hf, violations_record]
        refine reports_error_of ?_
        rw [List.head?_append, hstray, Option.some_or]
    | _ => exact reports_error _

theorem mapM_entries_eq_ok {es : List (LooseText × Value)} :
    es.mapM (fun e => Statement.ofValue e.1 e.2) = .ok g ↔
      (∀ v ∈ es.map (·.2), Statement.IsShaped v) ∧
        List.Forall₂ (fun v s => Statement.IsOf s v) (es.map (·.2)) g := by
  rw [mapM_eq_ok, List.forall₂_map_left_iff, List.forall_mem_map, ← List.forall₂_and_left]
  simp only [Statement.ofValue_eq_ok]

theorem isShaped_record_iff (harrange : (arrange fields).Perm fields) :
    IsShaped (.record fields) ↔ (∀ f ∈ fields, isOrdinal f.1 = true) ∧
      ∀ v ∈ items arrange (.record fields), Statement.IsShaped v := by
  simp only [IsShaped, items, List.forall_mem_map, harrange.mem_iff, forall_and]

theorem isOf_record (hne : fields ≠ []) : IsOf arrange g (some (.record fields)) ↔
    List.Forall₂ (fun v s => Statement.IsOf s v) (items arrange (.record fields)) g := by
  cases fields with
  | nil => exact absurd rfl hne
  | cons f fields => exact Iff.rfl

theorem flatMap_entries_eq_nil_iff :
    ((entries arrange path v).flatMap fun e => Statement.violations e.1 e.2) = [] ↔
      ∀ u ∈ items arrange v, Statement.IsShaped u := by
  rw [List.flatMap_eq_nil_iff, ← map_entries path v, List.forall_mem_map]
  simp only [Statement.violations_eq_nil_iff]

theorem violations_eq_nil_iff (harrange : ∀ fields, (arrange fields).Perm fields) :
    violations arrange path mayMiss v? = [] ↔ IsAllowed mayMiss v? := by
  cases v? with
  | none => cases mayMiss <;> simp [violations, IsAllowed]
  | some v =>
    cases v with
    | null => cases mayMiss <;> simp [violations, IsAllowed]
    | list vs => exact flatMap_entries_eq_nil_iff
    | record fields =>
      rw [violations_record, List.append_eq_nil_iff, strayKeys_eq_nil_iff,
        flatMap_entries_eq_nil_iff]
      exact (isShaped_record_iff (harrange fields)).symm
    | _ => simp [violations, isCollection, IsAllowed, IsShaped]

theorem ofValue_eq_ok : ofValue path mayMiss v? = .ok g ↔
    IsAllowed mayMiss v? ∧ IsOf sortOrdinals g v? := by
  cases v? with
  | none =>
    cases mayMiss
    · simp [ofValue, IsAllowed]
    · simp [ofValue, IsAllowed, IsOf, eq_comm]
  | some v =>
    cases v with
    | null =>
      cases mayMiss
      · simp [ofValue, IsAllowed]
      · simp [ofValue, IsAllowed, IsOf, eq_comm]
    | list vs =>
      rw [ofValue_list sortOrdinals, mapM_entries_eq_ok, map_entries]
      exact Iff.rfl
    | record fields =>
      by_cases hkeys : ∀ f ∈ fields, isOrdinal f.1 = true
      · by_cases hne : fields = []
        · subst hne
          have hempty : ofValue path mayMiss (some (.record [])) = .ok [.empty] := rfl
          rw [hempty]
          exact ⟨fun h => ⟨fun f hf => absurd hf List.not_mem_nil, (Except.ok.inj h).symm⟩,
            fun h => congrArg Except.ok h.2.symm⟩
        · rw [ofValue_record hkeys hne, mapM_entries_eq_ok, map_entries, isOf_record hne]
          refine and_congr_left fun _ => ?_
          exact ((isShaped_record_iff sortOrdinals_perm).trans (and_iff_right hkeys)).symm
      · obtain ⟨f, hf⟩ := exists_stray hkeys
        have hshaped : ¬ IsShaped (.record fields) := fun h => hkeys fun f hf => (h f hf).1
        simp [ofValue, hf, IsAllowed, hshaped]
    | _ => simp [ofValue, IsAllowed, IsShaped]

theorem entries_perm {arrange' : List (LooseText × Value) → List (LooseText × Value)}
    (h : ∀ fields, (arrange fields).Perm (arrange' fields)) (path : LooseText) (v : Value) :
    (entries arrange path v).Perm (entries arrange' path v) := by
  cases v with
  | record fields => exact (h fields).map _
  | _ => exact List.Perm.refl _

theorem violations_perm {arrange' : List (LooseText × Value) → List (LooseText × Value)}
    (h : ∀ fields, (arrange fields).Perm (arrange' fields)) :
    (violations arrange path mayMiss v?).Perm (violations arrange' path mayMiss v?) := by
  unfold violations
  split
  -- The stray keys come first in any arrangement, and only what is behind them is rearranged.
  case h_3 v _ =>
    split
    · exact ((entries_perm h path v).flatMap_right _).append_left _
    · exact List.Perm.refl _
  all_goals exact List.Perm.refl _

theorem isOf_congr (h : ∀ fields, v? = some (.record fields) → IsApart fields)
    (hallowed : IsAllowed mayMiss v?) : IsOf sortOrdinals g v? ↔ IsOf byPlace g v? := by
  cases v? with
  | none => exact Iff.rfl
  | some v =>
    cases v with
    | record fields =>
      have hkeys : ∀ f ∈ fields, isOrdinal f.1 = true := fun f hf => (hallowed f hf).1
      cases fields with
      | nil => exact Iff.rfl
      | cons f fields => simp only [IsOf, items, sortOrdinals_eq hkeys (h _ rfl)]
    | _ => exact Iff.rfl

theorem head?_violations (h : ∀ fields, v? = some (.record fields) → IsApart fields) :
    (violations sortOrdinals path mayMiss v?).head? =
      (violations byPlace path mayMiss v?).head? := by
  cases v? with
  | none => rfl
  | some v =>
    cases v with
    | record fields =>
      rw [violations_record, violations_record, List.head?_append, List.head?_append]
      by_cases hkeys : ∀ f ∈ fields, isOrdinal f.1 = true
      · rw [entries, entries, sortOrdinals_eq hkeys (h fields rfl)]
      · obtain ⟨f, hf⟩ := exists_stray hkeys
        rw [head?_strayKeys, hf, Option.map_some, Option.some_or, Option.some_or]
    | _ => rfl

end Group

namespace Rule

variable {arrange : List (LooseText × Value) → List (LooseText × Value)}
  {fields : List (LooseText × Value)} {document : Value} {r : Rule}

def pathTo (name : GroupName) : LooseText := .ofString ("$." ++ name.text)

def mayMiss (name : GroupName) : Bool := name == .elseBranch

/-- What a document violates, in the order of its groups. -/
def violations (arrange : List (LooseText × Value) → List (LooseText × Value)) :
    Value → List ShapeError
  | .record fields => GroupName.all.flatMap fun name =>
    Group.violations arrange (pathTo name) (mayMiss name) (Value.field? fields name.text)
  | _ => [⟨"$", .notObject⟩]

def IsShaped (document : Value) : Prop :=
  ∃ fields, document = .record fields ∧
    ∀ name : GroupName, Group.IsAllowed (mayMiss name) (Value.field? fields name.text)

def IsOf (arrange : List (LooseText × Value) → List (LooseText × Value)) (r : Rule)
    (document : Value) : Prop :=
  ∃ fields, document = .record fields ∧
    ∀ name : GroupName, Group.IsOf arrange (r.group name) (Value.field? fields name.text)

/-- In every group of the document different ordinals are different numbers. -/
def IsApart (document : Value) : Prop :=
  ∀ fields, document = .record fields → ∀ (name : GroupName) (entries : List (LooseText × Value)),
    Value.field? fields name.text = some (.record entries) → Group.IsApart entries

theorem reports_ofValue (document : Value) :
    Reports (ofValue document) (violations Group.sortOrdinals document) := by
  cases document with
  | record fields =>
    have hall : violations Group.sortOrdinals (.record fields) =
        Group.violations Group.sortOrdinals "$.if" false (Value.field? fields "if") ++
          (Group.violations Group.sortOrdinals "$.then" false (Value.field? fields "then") ++
            Group.violations Group.sortOrdinals "$.else" true (Value.field? fields "else")) := by
      simp [violations, GroupName.all]
      rfl
    rw [hall]
    exact Group.reports_ofValue.bind fun condition => Group.reports_ofValue.bind fun thenBranch =>
      Group.reports_ofValue.bind_pure
  | _ => exact reports_error _

theorem ofValue_record_eq_ok : ofValue (.record fields) = .ok r ↔ ∀ name : GroupName,
    Group.ofValue (pathTo name) (mayMiss name) (Value.field? fields name.text) =
      .ok (r.group name) := by
  constructor
  · intro h name
    obtain ⟨condition, hcondition, h⟩ := of_bind_ok h
    obtain ⟨thenBranch, hthen, h⟩ := of_bind_ok h
    obtain ⟨elseBranch, helse, h⟩ := of_bind_ok h
    cases h
    cases name with
    | condition => exact hcondition
    | thenBranch => exact hthen
    | elseBranch => exact helse
  · intro h
    have hcondition : Group.ofValue "$.if" false (Value.field? fields "if") = .ok r.condition :=
      h .condition
    have hthen : Group.ofValue "$.then" false (Value.field? fields "then") = .ok r.thenBranch :=
      h .thenBranch
    have helse : Group.ofValue "$.else" true (Value.field? fields "else") = .ok r.elseBranch :=
      h .elseBranch
    rw [ofValue, hcondition, hthen, helse]
    rfl

theorem ofValue_eq_ok :
    ofValue document = .ok r ↔ IsShaped document ∧ IsOf Group.sortOrdinals r document := by
  cases document with
  | record fields =>
    rw [ofValue_record_eq_ok]
    simp [Group.ofValue_eq_ok, IsShaped, IsOf, forall_and]
  | _ => exact iff_of_false nofun fun h => by obtain ⟨⟨fields, hfields, _⟩, _⟩ := h; cases hfields

theorem violations_eq_nil_iff (harrange : ∀ fields, (arrange fields).Perm fields) :
    violations arrange document = [] ↔ IsShaped document := by
  cases document with
  | record fields =>
    rw [violations, List.flatMap_eq_nil_iff]
    simp [Group.violations_eq_nil_iff harrange, IsShaped, GroupName.mem_all]
  | _ => exact iff_of_false nofun fun ⟨_, hfields, _⟩ => nomatch hfields

theorem violations_perm {arrange' : List (LooseText × Value) → List (LooseText × Value)}
    (h : ∀ fields, (arrange fields).Perm (arrange' fields)) :
    (violations arrange document).Perm (violations arrange' document) := by
  cases document with
  | record fields => exact List.Perm.flatMap_left _ fun name _ => Group.violations_perm h
  | _ => exact List.Perm.refl _

theorem head?_violations (h : IsApart document) :
    (violations Group.sortOrdinals document).head? =
      (violations Group.byPlace document).head? := by
  cases document with
  | record fields =>
    rw [violations, violations, List.head?_flatMap, List.head?_flatMap]
    congr 1
    funext name
    exact Group.head?_violations (h fields rfl name)
  | _ => rfl

theorem isOf_congr (h : IsApart document) (hshaped : IsShaped document) :
    IsOf Group.sortOrdinals r document ↔ IsOf Group.byPlace r document := by
  obtain ⟨fields, rfl, hgroups⟩ := hshaped
  have hsame (name : GroupName) := Group.isOf_congr (g := r.group name)
    (h fields rfl name) (hgroups name)
  simp [IsOf, hsame]

theorem load?_eq_ok : load? document = .ok r ↔ ofValue document = .ok r := by
  unfold load?
  cases ofValue document <;> simp [Except.mapError]

theorem load?_eq_error {p : Problem} :
    load? document = .error p ↔ ∃ e, ofValue document = .error e ∧ p = .shape e := by
  unfold load?
  cases ofValue document <;> simp [Except.mapError, eq_comm]

/-- A document is loaded just when it has the shape of a rule, and what is loaded has its
statements. Else one of its violations is reported: the first one, if numbers tell its ordinals
apart. -/
theorem load?_outcome (document : Value) :
    ((∃ r, load? document = .ok r) ↔ IsShaped document) ∧
    (∀ r, load? document = .ok r → IsOf Group.sortOrdinals r document) ∧
    (∀ p, load? document = .error p → ∃ e ∈ violations Group.byPlace document, p = .shape e ∧
      p.details? = some (.invalidShape,
        [("path", .text e.path), ("reason", .ofString e.violation.text)])) ∧
    (IsApart document →
      (∀ r, load? document = .ok r → IsOf Group.byPlace r document) ∧
      ∀ p, load? document = .error p ↔
        ∃ e, (violations Group.byPlace document).head? = some e ∧ p = .shape e) := by
  have hreports := reports_ofValue document
  refine ⟨?_, fun r h => ?_, fun p h => ?_, fun hapart => ⟨fun r h => ?_, fun p => ?_⟩⟩
  · simp only [load?_eq_ok]
    exact hreports.exists_ok_iff.trans (violations_eq_nil_iff fun _ => Group.sortOrdinals_perm)
  · exact (ofValue_eq_ok.1 (load?_eq_ok.1 h)).2
  · obtain ⟨e, he, rfl⟩ := load?_eq_error.1 h
    have hfirst : e ∈ violations Group.sortOrdinals document :=
      List.mem_of_head? ((hreports e).1 he)
    have hmem := (violations_perm fun _ =>
      Group.sortOrdinals_perm.trans Group.byPlace_perm.symm).mem_iff.1 hfirst
    exact ⟨e, hmem, rfl, rfl⟩
  · obtain ⟨hshaped, hof⟩ := ofValue_eq_ok.1 (load?_eq_ok.1 h)
    exact (isOf_congr hapart hshaped).1 hof
  · simp only [load?_eq_error, hreports _, head?_violations hapart]

theorem mergeSort_pair {α : Type} (r : α → α → Bool) (a b : α) :
    [a, b].mergeSort r = if r a b then [a, b] else [b, a] := by
  rw [List.mergeSort]
  simp [List.MergeSort.Internal.splitInTwo, List.merge]

def twoKeyed (key key' : LooseText) : List (LooseText × Value) := [(key, .null), (key', .null)]

def ofCondition (members : List (LooseText × Value)) : Value :=
  .record [("if", .record members), ("then", .list [])]

theorem field?_condition (members : List (LooseText × Value)) :
    Value.field? [(("if" : LooseText), Value.record members), ("then", .list [])]
      (.ofString GroupName.condition.text) = some (.record members) := rfl

theorem head?_violations_ofCondition {members rest : List (LooseText × Value)} {key : LooseText}
    (hkeys : ∀ f ∈ members, Group.isOrdinal f.1 = true)
    (harrange : arrange members = (key, .null) :: rest) :
    (violations arrange (ofCondition members)).head? =
      some ⟨"$.if" ++ "." ++ key, .notStatement⟩ := by
  rw [ofCondition, violations, GroupName.all, List.flatMap_cons, List.head?_append,
    field?_condition, Group.violations_record, Group.strayKeys_eq_nil_iff.2 hkeys, Group.entries,
    harrange]
  rfl

theorem load?_outcome_nine :
    IsApart (ofCondition (twoKeyed "10" "9")) ∧
      load? (ofCondition (twoKeyed "10" "9")) = .error (.shape ⟨"$.if.9", .notStatement⟩) := by
  have hapart : IsApart (ofCondition (twoKeyed "10" "9")) := by
    intro fields hfields name members hmembers
    cases hfields
    cases name with
    | condition =>
      cases hmembers
      exact Group.isApart_of_lt (by decide)
    | thenBranch => cases hmembers
    | elseBranch => cases hmembers
  have hplaced : Group.byPlace (twoKeyed "10" "9") = twoKeyed "9" "10" := by
    rw [Group.byPlace, twoKeyed, mergeSort_pair]
    exact if_neg (by decide)
  have hhead := head?_violations_ofCondition (by decide) hplaced
  exact ⟨hapart, (((load?_outcome _).2.2.2 hapart).2 _).2 ⟨_, hhead, rfl⟩⟩

/-- Two ordinals that are one number are reported in the order in which they are written. -/
theorem load?_swapped :
    ¬ ∀ (document : Value) (p : Problem), load? document = .error p ↔
      ∃ e, (violations Group.byPlace document).head? = some e ∧ p = .shape e := by
  intro h
  have hkeys : ∀ f ∈ twoKeyed "09007199254740993" "9007199254740992",
      Group.isOrdinal f.1 = true := by decide
  have hplaced : Group.byPlace (twoKeyed "09007199254740993" "9007199254740992") =
      twoKeyed "9007199254740992" "09007199254740993" := by
    rw [Group.byPlace, twoKeyed, mergeSort_pair]
    exact if_neg (by decide +kernel)
  have hsorted : Group.sortOrdinals (twoKeyed "09007199254740993" "9007199254740992") =
      twoKeyed "09007199254740993" "9007199254740992" := by
    rw [Group.sortOrdinals, twoKeyed, mergeSort_pair]
    exact if_pos (by decide +kernel)
  have hload := load?_eq_error.2
    ⟨_, (reports_ofValue _ _).2 (head?_violations_ofCondition hkeys hsorted), rfl⟩
  obtain ⟨e, hfirst, he⟩ := (h _ _).1 hload
  rw [head?_violations_ofCondition hkeys hplaced] at hfirst
  cases hfirst
  exact absurd he (by decide)

end Rule

end Rulebook
