import Mathlib.Data.List.Forall2
import Mathlib.Data.List.Nodup
import Rulebook.RulesFile.Basic

/-! What a document must be to be a rules file, and what is reported of one that is none: the first
violation in the order of the members and, among the entries, the one at the lowest index. -/

namespace Rulebook

namespace NamedRule

def IsOf (rule : NamedRule) (v : Value) : Prop :=
  ∃ fields, v = .record fields ∧ Value.field? fields "name" = some (.text rule.name) ∧
    Value.field? fields "expression" = some (.text rule.expression)

variable {rule rule' : NamedRule} {v : Value}

theorem ofValue?_eq_some_iff : ofValue? v = some rule ↔ rule.IsOf v := by
  constructor
  · intro h
    simp only [ofValue?, Option.bind_eq_bind, Option.bind_eq_some_iff, Option.pure_def] at h
    obtain ⟨fields, hfields, u, hu, name, hname, w, hw, expression, hexpression, ⟨⟩⟩ := h
    cases v <;> cases hfields
    cases u <;> cases hname
    cases w <;> cases hexpression
    exact ⟨fields, rfl, hu, hw⟩
  · rintro ⟨fields, rfl, hname, hexpression⟩
    simp [ofValue?, Value.record?, hname, hexpression, Value.text?]

theorem ofValue?_eq_none_iff : ofValue? v = none ↔ ∀ rule : NamedRule, ¬ rule.IsOf v := by
  simp only [Option.eq_none_iff_forall_ne_some, ne_eq, ofValue?_eq_some_iff]

theorem IsOf.unique (h : rule.IsOf v) (h' : rule'.IsOf v) : rule = rule' :=
  Option.some.inj ((ofValue?_eq_some_iff.2 h).symm.trans (ofValue?_eq_some_iff.2 h'))

end NamedRule

namespace RulesFile

variable {items before rest : List Value} {rules rules' : List NamedRule} {rule : NamedRule}
  {v : Value} {i : Nat} {e e' : ConfigViolation}

structure Accepted (items : List Value) (rules : List NamedRule) : Prop where
  entries : List.Forall₂ (fun v (rule : NamedRule) => rule.IsOf v) items rules
  distinct : (rules.map (·.name)).Nodup

/-- What is wrong with the entry at an index: it is malformed, or repeats the name of an earlier
one. -/
inductive EntryFault (items : List Value) (i : Nat) : ConfigViolation → Prop
  | malformed {v : Value} (hv : items[i]? = some v) (hnone : ∀ rule : NamedRule, ¬ rule.IsOf v) :
      EntryFault items i (.rule i)
  | repeated {u v : Value} {earlier rule : NamedRule} {j : Nat} (hv : items[i]? = some v)
      (hrule : rule.IsOf v) (hj : j < i) (hu : items[j]? = some u) (hearlier : earlier.IsOf u)
      (hname : earlier.name = rule.name) : EntryFault items i (.duplicate rule.name)

def FirstFault (items : List Value) (e : ConfigViolation) : Prop :=
  ∃ i, EntryFault items i e ∧ ∀ j < i, ∀ e', ¬ EntryFault items j e'

inductive Reads (items : List Value) : Except ConfigViolation (List NamedRule) → Prop
  | accepted {rules : List NamedRule} (h : Accepted items rules) : Reads items (.ok rules)
  | rejected {e : ConfigViolation} (h : FirstFault items e) : Reads items (.error e)

theorem accepted_nil : Accepted [] [] := ⟨.nil, List.nodup_nil⟩

theorem Accepted.map_eq (h : Accepted items rules) :
    items.map NamedRule.ofValue? = rules.map some := by
  have hentries := h.entries
  simp only [← NamedRule.ofValue?_eq_some_iff] at hentries
  rwa [← List.forall₂_map_right_iff, ← List.forall₂_map_left_iff, List.forall₂_eq_eq_eq]
    at hentries

theorem Accepted.unique (h : Accepted items rules) (h' : Accepted items rules') :
    rules = rules' :=
  List.map_injective_iff.2 (fun _ _ => Option.some.inj) (h.map_eq.symm.trans h'.map_eq)

theorem Accepted.exists_rule (h : Accepted items rules) (hv : items[i]? = some v) :
    ∃ rule, rules[i]? = some rule ∧ rule.IsOf v := by
  have hmap := congrArg (·[i]?) h.map_eq
  simp only [List.getElem?_map, hv, Option.map_some] at hmap
  obtain ⟨rule, hrule, hsome⟩ := Option.map_eq_some_iff.1 hmap.symm
  exact ⟨rule, hrule, NamedRule.ofValue?_eq_some_iff.1 hsome.symm⟩

theorem Accepted.exists_entry (h : Accepted items rules) (hrule : rules[i]? = some rule) :
    ∃ v, items[i]? = some v ∧ rule.IsOf v := by
  have hmap := congrArg (·[i]?) h.map_eq
  simp only [List.getElem?_map, hrule, Option.map_some] at hmap
  obtain ⟨v, hv, hsome⟩ := Option.map_eq_some_iff.1 hmap
  exact ⟨v, hv, NamedRule.ofValue?_eq_some_iff.1 hsome⟩

theorem Accepted.not_entryFault (h : Accepted before rules) (rest : List Value)
    (hi : i < before.length) (e : ConfigViolation) : ¬ EntryFault (before ++ rest) i e := by
  have hat {k : Nat} {u : Value} (hk : k < before.length) (hu : (before ++ rest)[k]? = some u) :
      ∃ rule, rules[k]? = some rule ∧ rule.IsOf u := by
    rw [List.getElem?_append_left hk] at hu
    exact h.exists_rule hu
  rintro (⟨hv, hnone⟩ | ⟨hv, hrule, hj, hu, hearlier, hname⟩)
  · obtain ⟨rule, -, hrule⟩ := hat hi hv
    exact hnone rule hrule
  · obtain ⟨rule, hget, hof⟩ := hat hi hv
    obtain ⟨earlier, hget', hof'⟩ := hat (Nat.lt_trans hj hi) hu
    obtain rfl := hrule.unique hof
    obtain rfl := hearlier.unique hof'
    -- The two rules stand at different places, so their names differ.
    have hlt : i < (rules.map (·.name)).length := by
      rw [List.length_map]
      exact (List.getElem?_eq_some_iff.1 hget).1
    refine List.nodup_iff_getElem?_ne_getElem?.1 h.distinct _ i hj hlt ?_
    simp [hget, hget', hname]

theorem Accepted.firstFault (h : Accepted before rules)
    (hfault : EntryFault (before ++ rest) before.length e) : FirstFault (before ++ rest) e :=
  ⟨before.length, hfault, fun _ hj e' => h.not_entryFault rest hj e'⟩

theorem Accepted.snoc (h : Accepted before rules) (hrule : rule.IsOf v)
    (hnew : rule.name ∉ rules.map (·.name)) : Accepted (before ++ [v]) (rules ++ [rule]) := by
  refine ⟨List.rel_append h.entries (.cons hrule .nil), ?_⟩
  have hone : ([rule].map (·.name)).Nodup := List.nodup_cons.2 ⟨List.not_mem_nil, List.nodup_nil⟩
  rw [List.map_append]
  exact h.distinct.append hone (by simpa using hnew)

theorem Accepted.repeated (h : Accepted before rules) (hrule : rule.IsOf v)
    (hold : rule.name ∈ rules.map (·.name)) :
    EntryFault (before ++ v :: rest) before.length (.duplicate rule.name) := by
  obtain ⟨earlier, hmem, hname⟩ := List.mem_map.1 hold
  obtain ⟨j, hj⟩ := List.mem_iff_getElem?.1 hmem
  obtain ⟨u, hu, hearlier⟩ := h.exists_entry hj
  have hlt := (List.getElem?_eq_some_iff.1 hu).1
  refine .repeated (by simp) hrule hlt ?_ hearlier hname
  rw [List.getElem?_append_left hlt, hu]

section Scan

variable {seen : List LooseText}

theorem readRules_malformed (hnone : ∀ rule : NamedRule, ¬ rule.IsOf v) :
    readRules seen i (v :: rest) = .error (.rule i) := by
  rw [readRules, NamedRule.ofValue?_eq_none_iff.2 hnone]

theorem readRules_repeated (hrule : rule.IsOf v) (hold : rule.name ∈ seen) :
    readRules seen i (v :: rest) = .error (.duplicate rule.name) := by
  rw [readRules, NamedRule.ofValue?_eq_some_iff.2 hrule]
  exact if_pos (List.contains_iff_mem.2 hold)

theorem readRules_cons (hrule : rule.IsOf v) (hnew : rule.name ∉ seen) :
    readRules seen i (v :: rest) =
      (rule :: ·) <$> readRules (rule.name :: seen) (i + 1) rest := by
  rw [readRules, NamedRule.ofValue?_eq_some_iff.2 hrule]
  exact if_neg fun h => hnew (List.contains_iff_mem.1 h)

/-- The entries that have been read are accepted as rules, and their names are those seen. This
stays so up to an entry with a fault, which is then the first one. -/
theorem reads_readRules (h : Accepted before rules)
    (hseen : ∀ name, name ∈ seen ↔ name ∈ rules.map (·.name)) (rest : List Value) :
    Reads (before ++ rest) ((rules ++ ·) <$> readRules seen before.length rest) := by
  induction rest generalizing before rules seen with
  | nil =>
    have hall : Reads before (.ok rules) := .accepted h
    simpa [readRules] using hall
  | cons v rest ih =>
    cases hv : NamedRule.ofValue? v with
    | none =>
      have hnone := NamedRule.ofValue?_eq_none_iff.1 hv
      rw [readRules_malformed hnone]
      exact .rejected (h.firstFault (.malformed (by simp) hnone))
    | some rule =>
      have hrule := NamedRule.ofValue?_eq_some_iff.1 hv
      by_cases hold : rule.name ∈ seen
      · rw [readRules_repeated hrule hold]
        exact .rejected (h.firstFault (h.repeated hrule ((hseen _).1 hold)))
      · have hsnoc := h.snoc hrule fun hmem => hold ((hseen _).2 hmem)
        have hseen' (name : LooseText) :
            name ∈ rule.name :: seen ↔ name ∈ (rules ++ [rule]).map (·.name) := by
          rw [List.mem_cons, hseen, List.map_append, List.mem_append, or_comm]
          simp
        have hnext := ih hsnoc hseen'
        rw [readRules_cons hrule hold]
        simpa [Function.comp_def] using hnext

end Scan

theorem EntryFault.unique (h : EntryFault items i e) (h' : EntryFault items i e') : e = e' := by
  obtain ⟨hv, hnone⟩ | ⟨hv, hrule, -, -, -, -⟩ := h <;>
    obtain ⟨hv', hnone'⟩ | ⟨hv', hrule', -, -, -, -⟩ := h' <;>
    obtain rfl := Option.some.inj (hv.symm.trans hv')
  · rfl
  · exact absurd hrule' (hnone _)
  · exact absurd hrule (hnone' _)
  · rw [hrule.unique hrule']

theorem FirstFault.unique (h : FirstFault items e) (h' : FirstFault items e') : e = e' := by
  obtain ⟨i, hfault, hfirst⟩ := h
  obtain ⟨j, hfault', hfirst'⟩ := h'
  obtain hlt | rfl | hgt := Nat.lt_trichotomy i j
  · exact absurd hfault (hfirst' i hlt e)
  · exact hfault.unique hfault'
  · exact absurd hfault' (hfirst j hgt e')

theorem Accepted.not_firstFault (h : Accepted items rules) : ¬ FirstFault items e := by
  rintro ⟨i, hfault, -⟩
  have hi : i < items.length := by
    obtain ⟨hv, -⟩ | ⟨hv, -, -, -, -, -⟩ := hfault <;> exact (List.getElem?_eq_some_iff.1 hv).1
  have hnone := h.not_entryFault [] hi e
  rw [List.append_nil] at hnone
  exact hnone hfault

theorem Reads.unique {o o' : Except ConfigViolation (List NamedRule)} (h : Reads items o)
    (h' : Reads items o') : o = o' := by
  obtain ⟨h⟩ | ⟨h⟩ := h <;> obtain ⟨h'⟩ | ⟨h'⟩ := h'
  · rw [h.unique h']
  · exact absurd h' h.not_firstFault
  · exact absurd h h'.not_firstFault
  · rw [h.unique h']

theorem reads_iff {o : Except ConfigViolation (List NamedRule)} :
    Reads items o ↔ readRules [] 0 items = o := by
  have h := reads_readRules accepted_nil (fun name => Iff.rfl) items
  simp only [List.nil_append, List.length_nil, id_map'] at h
  exact ⟨h.unique, fun ho => ho ▸ h⟩

/-- The member is absent or of one kind, and gives a result then; otherwise it is a violation. -/
structure ReadsOptional {α β : Type} (read : Option Value → Except ConfigViolation β)
    (kind : α → Value) (result : Option α → β) (violation : ConfigViolation) : Prop where
  ok : ∀ a : Option α, read (a.map kind) = .ok (result a)
  error : ∀ member, (∀ a : Option α, member ≠ a.map kind) → read member = .error violation

theorem readsOptional_version :
    ReadsOptional readVersion .number (·.getD (.ofNat 1)) .version where
  ok := by rintro (_ | n) <;> simp only [Option.map_none, Option.map_some, readVersion,
    Option.getD_none, Option.getD_some]
  error
    | none, h => absurd rfl (h none)
    | some (.number n), h => absurd rfl (h (some n))
    | some .null, _ | some (.bool _), _ | some (.text _), _ | some (.list _), _
    | some (.record _), _ => rfl

theorem readsOptional_table : ReadsOptional readTable .text id .table where
  ok := by rintro (_ | t) <;> rfl
  error
    | none, h => absurd rfl (h none)
    | some (.text t), h => absurd rfl (h (some t))
    | some .null, _ | some (.bool _), _ | some (.number _), _ | some (.list _), _
    | some (.record _), _ => rfl

theorem readsOptional_rules : ReadsOptional readList .list (·.getD []) .rules where
  ok := by rintro (_ | items) <;> rfl
  error
    | none, h => absurd rfl (h none)
    | some (.list items), h => absurd rfl (h (some items))
    | some .null, _ | some (.bool _), _ | some (.number _), _ | some (.text _), _
    | some (.record _), _ => rfl

/-- The document is a mapping that says what the rules file holds. An absent version counts as 1,
and absent rules as none. -/
inductive IsOf : RulesFile → Value → Prop
  | mapping {fields : List (LooseText × Value)} {version : Option Number}
      {table : Option LooseText} {items : Option (List Value)} {rules : List NamedRule}
      (hversion : Value.field? fields "version" = version.map .number)
      (htable : Value.field? fields "table" = table.map .text)
      (hitems : Value.field? fields "rules" = items.map .list)
      (hrules : Accepted (items.getD []) rules) :
      IsOf ⟨version.getD (.ofNat 1), table, rules⟩ (.record fields)

/-- The first violation of a document: whatever is checked before is as it must be. -/
inductive FirstViolation : Value → ConfigViolation → Prop
  | notMapping {v : Value} (h : ∀ fields, v ≠ .record fields) : FirstViolation v .notMapping
  | version {fields : List (LooseText × Value)}
      (h : ∀ version : Option Number, Value.field? fields "version" ≠ version.map .number) :
      FirstViolation (.record fields) .version
  | table {fields : List (LooseText × Value)} {version : Option Number}
      (hversion : Value.field? fields "version" = version.map .number)
      (h : ∀ table : Option LooseText, Value.field? fields "table" ≠ table.map .text) :
      FirstViolation (.record fields) .table
  | rules {fields : List (LooseText × Value)} {version : Option Number}
      {table : Option LooseText} (hversion : Value.field? fields "version" = version.map .number)
      (htable : Value.field? fields "table" = table.map .text)
      (h : ∀ items : Option (List Value), Value.field? fields "rules" ≠ items.map .list) :
      FirstViolation (.record fields) .rules
  | entry {fields : List (LooseText × Value)} {version : Option Number}
      {table : Option LooseText} {items : Option (List Value)} {e : ConfigViolation}
      (hversion : Value.field? fields "version" = version.map .number)
      (htable : Value.field? fields "table" = table.map .text)
      (hitems : Value.field? fields "rules" = items.map .list)
      (h : FirstFault (items.getD []) e) : FirstViolation (.record fields) e

variable {f : RulesFile}

theorem IsOf.ofValue_eq (h : f.IsOf v) : ofValue v = .ok f := by
  obtain ⟨hversion, htable, hitems, hrules⟩ := h
  rw [ofValue, hversion, htable, hitems, readsOptional_version.ok, readsOptional_table.ok,
    readsOptional_rules.ok]
  simp only [bind, Except.bind, reads_iff.1 (.accepted hrules)]
  rfl

theorem FirstViolation.ofValue_eq (h : FirstViolation v e) : ofValue v = .error e := by
  cases h with
  | notMapping h =>
    cases v with
    | record fields => exact absurd rfl (h fields)
    | _ => rfl
  | version h =>
    rw [ofValue, readsOptional_version.error _ h]
    rfl
  | table hversion h =>
    rw [ofValue, hversion, readsOptional_version.ok, readsOptional_table.error _ h]
    rfl
  | rules hversion htable h =>
    rw [ofValue, hversion, htable, readsOptional_version.ok, readsOptional_table.ok,
      readsOptional_rules.error _ h]
    rfl
  | entry hversion htable hitems h =>
    rw [ofValue, hversion, htable, hitems, readsOptional_version.ok, readsOptional_table.ok,
      readsOptional_rules.ok]
    simp only [bind, Except.bind, reads_iff.1 (.rejected h)]

theorem isOf_or_firstViolation (v : Value) :
    (∃ f : RulesFile, f.IsOf v) ∨ ∃ e, FirstViolation v e := by
  by_cases hmapping : ∃ fields, v = .record fields
  swap
  · exact .inr ⟨_, .notMapping fun fields h => hmapping ⟨fields, h⟩⟩
  obtain ⟨fields, rfl⟩ := hmapping
  by_cases hversion : ∃ version : Option Number,
      Value.field? fields "version" = version.map .number
  swap
  · exact .inr ⟨_, .version fun version h => hversion ⟨version, h⟩⟩
  obtain ⟨version, hversion⟩ := hversion
  by_cases htable : ∃ table : Option LooseText, Value.field? fields "table" = table.map .text
  swap
  · exact .inr ⟨_, .table hversion fun table h => htable ⟨table, h⟩⟩
  obtain ⟨table, htable⟩ := htable
  by_cases hitems : ∃ items : Option (List Value),
      Value.field? fields "rules" = items.map .list
  swap
  · exact .inr ⟨_, .rules hversion htable fun items h => hitems ⟨items, h⟩⟩
  obtain ⟨items, hitems⟩ := hitems
  generalize hreads : readRules [] 0 (items.getD []) = o
  obtain ⟨h⟩ | ⟨h⟩ := reads_iff.2 hreads
  · exact .inl ⟨_, .mapping hversion htable hitems h⟩
  · exact .inr ⟨_, .entry hversion htable hitems h⟩

theorem ofValue_eq_ok_iff : ofValue v = .ok f ↔ f.IsOf v := by
  refine ⟨fun h => ?_, IsOf.ofValue_eq⟩
  obtain ⟨f', hf⟩ | ⟨e, he⟩ := isOf_or_firstViolation v
  · obtain rfl := Except.ok.inj (hf.ofValue_eq.symm.trans h)
    exact hf
  · cases he.ofValue_eq.symm.trans h

theorem ofValue_eq_error_iff : ofValue v = .error e ↔ FirstViolation v e := by
  refine ⟨fun h => ?_, FirstViolation.ofValue_eq⟩
  obtain ⟨f, hf⟩ | ⟨e', he⟩ := isOf_or_firstViolation v
  · cases hf.ofValue_eq.symm.trans h
  · obtain rfl := Except.error.inj (he.ofValue_eq.symm.trans h)
    exact he

/-- The document holds the rules file. No object but a mapping does. -/
def IsIn (f : RulesFile) : Document → Prop
  | .plain v => f.IsOf v
  | .other => False

def Violates : Document → ConfigViolation → Prop
  | .plain v, e => FirstViolation v e
  | .other, e => e = .notMapping

/-- A document is read as it should be just when it is not such an object, which passes for an empty
mapping. -/
theorem ofDocument_iff {d : Document} :
    ((∀ f, ofDocument d = .ok f ↔ f.IsIn d) ∧ ∀ e, ofDocument d = .error e ↔ Violates d e) ↔
      d ≠ .other := by
  cases d with
  | plain v => exact iff_of_true ⟨fun f => ofValue_eq_ok_iff, fun e => ofValue_eq_error_iff⟩ nofun
  | other =>
    refine iff_of_false (fun ⟨hok, _⟩ => ?_) (not_not_intro rfl)
    exact (hok ⟨.ofNat 1, none, []⟩).1 rfl

-- The second entry repeats a name, and the third one is malformed.
example : ofValue (.record [("rules", .list
    [.record [("name", .text "a"), ("expression", .text "x")],
      .record [("expression", .text "y"), ("name", .text "a")], .null])]) =
    .error (.duplicate "a") := by decide

end RulesFile

end Rulebook
