import Rulebook.Proofs.Number.Plain
import Rulebook.Proofs.Rule.Meaning
import Rulebook.Proofs.Rule.Refusal
import Rulebook.Proofs.Rule.Shape

/-! Rules that compare a field with a number. The number goes through its own text into the text of
the rule, so it stays a number there as far as that text needs no exponent. -/

namespace Rulebook

open Number (IsSharp IsMidsize millionth sextillion limit)

def Operator.order? : Operator → Option Ordering
  | .greaterThan => some .gt
  | .lessThan => some .lt
  | _ => none

namespace Rule
open Rulebook.Expr

variable {negative : Bool} {units : Nat} {s : String}

theorem isSafeChar_of_isDigit {c : Char} (h : c.isDigit = true) : isSafeChar c = true := by
  simp [isSafeChar, Char.isAlphanum, h]

theorem isSafeLiteral_of_isPlain (h : Number.isPlain s = true) : isSafeLiteral s = true := by
  obtain ⟨first, rest, hs, -⟩ := Number.exists_head_of_isPlain h
  have hne : s ≠ "" := by
    rintro rfl
    cases hs
  rw [isSafeLiteral, decide_eq_true hne, Bool.true_and, List.all_eq_true]
  intro c hc
  obtain hdigit | rfl | rfl := of_mem_isPlain h c hc
  · exact isSafeChar_of_isDigit hdigit
  · decide
  · decide

theorem literal_of_exponent {mantissa digits : List Char} {mark : Char}
    (hmantissa : ∀ c ∈ mantissa, c.isDigit = true ∨ c = '.')
    (hdigits : ∀ c ∈ digits, c.isDigit = true)
    (h : s.toList = (if negative then ['-'] else []) ++ mantissa ++ 'e' :: mark :: digits) :
    Number.isPlain s = false ∧ isSafeLiteral s = isSafeChar mark := by
  have hne : s ≠ "" := by
    rintro rfl
    simp at h
  constructor
  · by_contra hplain
    have hmem : 'e' ∈ s.toList := by simp [h]
    obtain hdigit | hpoint | hminus := of_mem_isPlain (eq_true_of_ne_false hplain) 'e' hmem
    · exact absurd hdigit (by decide)
    · exact absurd hpoint (by decide)
    · exact absurd hminus (by decide)
  · have hsign : (if negative then ['-'] else []).all isSafeChar = true := by
      cases negative <;> decide
    have hbefore : mantissa.all isSafeChar = true := by
      refine List.all_eq_true.2 fun c hc => ?_
      obtain hdigit | rfl := hmantissa c hc
      · exact isSafeChar_of_isDigit hdigit
      · decide
    have hletter : isSafeChar 'e' = true := by decide
    have hbehind : digits.all isSafeChar = true :=
      List.all_eq_true.2 fun c hc => isSafeChar_of_isDigit (hdigits c hc)
    rw [isSafeLiteral, decide_eq_true hne, Bool.true_and, h]
    simp only [List.all_append, List.all_cons, hsign, hbefore, hletter, hbehind, Bool.true_and,
      Bool.and_true]

theorem literal_midsize (negative : Bool) (hsharp : IsSharp units) (hlimit : units < limit)
    (h : IsMidsize units) :
    isSafeLiteral (Number.text (.finite negative units)) = true := by
  obtain ⟨p, hread, -⟩ := Number.exists_ofPlain?_text negative hsharp hlimit h
  obtain ⟨plain, hplain, -⟩ := Option.map_eq_some_iff.1 hread
  exact isSafeLiteral_of_isPlain (Option.isSome_iff_exists.2 ⟨plain, hplain⟩)

theorem literal_small (negative : Bool) (hsharp : IsSharp units) (hne : units ≠ 0)
    (h : units < millionth) :
    Number.isPlain (Number.text (.finite negative units)) = false ∧
      isSafeLiteral (Number.text (.finite negative units)) = true := by
  have hpoint : ¬ Number.layout.least < (Number.shortest units).point := by
    rw [Number.least_lt_point_iff hsharp hne]
    exact Nat.not_le.2 h
  have hleast : Number.layout.least = -6 := rfl
  obtain ⟨mantissa, hmantissa, htext⟩ :=
    Number.exists_text_exponential negative hne fun hpositional => hpoint hpositional.1
  have hminus : (Number.shortest units).point ≤ 0 := by omega
  simp only [hminus, if_true] at htext
  exact literal_of_exponent hmantissa (fun c => Text.isDigit_of_mem_toDigits) htext

theorem literal_large (negative : Bool) (hsharp : IsSharp units) (h : sextillion ≤ units) :
    isSafeLiteral (Number.text (.finite negative units)) = false := by
  have hne : units ≠ 0 := (Number.sextillion_pos.trans_le h).ne'
  have hpoint := (Number.greatest_lt_point_iff hsharp hne).2 h
  have hgreatest : Number.layout.greatest = 21 := rfl
  obtain ⟨mantissa, hmantissa, htext⟩ := Number.exists_text_exponential negative hne
    fun hpositional => absurd hpositional.2 (Int.not_le.2 hpoint)
  have hplus : ¬ (Number.shortest units).point ≤ 0 := by omega
  simp only [hplus, if_false] at htext
  exact (literal_of_exponent hmantissa (fun c => Text.isDigit_of_mem_toDigits) htext).2

/-- The document compares a field with a number in its condition. -/
def Compares (document : Value) (field : String) (op : Operator) (n : Number) : Prop :=
  ∃ fields group members, document = .record fields ∧
    Value.field? fields "if" = some group ∧
    Value.record members ∈ Group.items id group ∧
    Value.field? members "field" = some (.text field) ∧
    Value.field? members "operator" = some (.text op.name) ∧
    Value.field? members "value" = some (.number n)

variable {document : Value} {field : String} {op : Operator} {n : Number} {r : Rule}
  {arrange : List (LooseText × Value) → List (LooseText × Value)}

theorem mem_items (harrange : ∀ fields, (arrange fields).Perm fields) {v group : Value} :
    v ∈ Group.items arrange group ↔ v ∈ Group.items id group := by
  cases group with
  | record fields => exact ((harrange fields).map _).mem_iff
  | _ => exact Iff.rfl

theorem exists_mem_of_forall₂ {α β : Type} {R : α → β → Prop} {as : List α} {bs : List β} {a : α}
    (h : List.Forall₂ R as bs) (ha : a ∈ as) : ∃ b ∈ bs, R a b := by
  induction h with
  | nil => cases ha
  | cons hab _ ih =>
    obtain rfl | ha := List.mem_cons.1 ha
    · exact ⟨_, List.mem_cons_self, hab⟩
    · obtain ⟨b, hb, hab⟩ := ih ha
      exact ⟨b, List.mem_cons_of_mem _ hb, hab⟩

theorem exists_statement_of_mem {g : Group} {group v : Value}
    (h : Group.IsOf Group.sortOrdinals g (some group)) (hv : v ∈ Group.items id group) :
    ∃ s ∈ g, s.IsOf v := by
  rw [← mem_items fun _ => Group.sortOrdinals_perm] at hv
  cases group with
  | list vs => exact exists_mem_of_forall₂ h hv
  | record fields =>
    cases fields with
    | nil => simp [Group.items, Group.sortOrdinals] at hv
    | cons f fields => exact exists_mem_of_forall₂ h hv
  | _ => cases hv

theorem exists_comparison (h : load? document = .ok r) (hcompares : Compares document field op n) :
    ∃ s ∈ r.condition, s.field = some (.ofString field) ∧ s.operator = some op ∧
      s.value = some (.ofString n.text) := by
  obtain ⟨fields, group, members, rfl, hif, hitem, hfield, hoperator, hvalue⟩ := hcompares
  obtain ⟨_, fields', hfields, hgroups⟩ := ofValue_eq_ok.1 (load?_eq_ok.1 h)
  cases hfields
  have hcondition : Group.IsOf Group.sortOrdinals r.condition (some group) :=
    hif ▸ hgroups .condition
  obtain ⟨s, hs, members', hmembers, htexts⟩ := exists_statement_of_mem hcondition hitem
  cases hmembers
  refine ⟨s, hs, ?_, ?_, ?_⟩
  · have htext := htexts .field
    rwa [Statement.Member.key, hfield] at htext
  · have htext := htexts .operator
    rw [Statement.Member.key, hoperator] at htext
    exact Option.map_injective Operator.nameText_injective htext
  · have htext := htexts .value
    rwa [Statement.Member.key, hvalue] at htext

variable {text : String} {order : Ordering} {entity : Entity}

def branchValue (r : Rule) (holds : Bool) : Option String :=
  (if holds = true then r.thenBranch.value? else r.elseBranch.value?).map (·.shown)

theorem evaluate_of_holds (hr : r.IsChoice) (h : r.write = .ok text) {holds : Bool}
    (hholds : r.condition.holds entity = .ok holds) :
    evaluate text entity = .ok (r.branchValue holds) := by
  obtain ⟨f, rfl, -, hcondition, hthen, helse⟩ := exists_rule hr h
  rw [evaluate_of_parse (parse_form f), conditional_evaluate, hcondition, Group.build_condition,
    hholds, hthen, helse, branchValue]
  cases holds <;> rfl

theorem holds_of_comparison {s : Statement} {literal : String} {m : Number}
    (hone : r.condition.filter (!·.isEmpty) = [s]) (hfield : s.field = some (.ofString field))
    (hop : s.operator = some op) (hvalue : s.value = some (.ofString literal))
    (horder : op.order? = some order) :
    r.condition.holds [(field, .number m)] =
      .ok ((Attribute.own (.number m)).compare? literal == some order) := by
  have hattribute : Attribute.of [((field : LooseText), .number m)] field = .own (.number m) := by
    simp [Attribute.of, Value.field?]
  rw [Group.holds, hone]
  cases op with
  | greaterThan =>
    cases horder
    simp [Statement.holds, hop, hfield, hvalue, entityPredicates, hattribute]
  | lessThan =>
    cases horder
    simp [Statement.holds, hop, hfield, hvalue, entityPredicates, hattribute]
  | _ => cases horder

theorem compare?_of_not_isPlain {literal : String} {m : Number}
    (h : Number.isPlain literal = false) : (Attribute.own (.number m)).compare? literal = none := by
  have hcoerce : ∀ p, coerce literal ≠ .number p := by
    intro p hp
    obtain ⟨plain, hplain, -⟩ := Option.map_eq_some_iff.1 (ofPlain?_of_coerce hp)
    rw [Number.isPlain, hplain] at h
    cases h
  unfold Attribute.compare?
  cases hliteral : coerce literal with
  | number p => exact absurd hliteral (hcoerce p)
  | _ => rfl

theorem exists_write (hr : r.IsChoice) (h : ∀ p ∈ r.places, p.isSafe = true) :
    ∃ text, r.write = .ok text := by
  have hchecks := checks_write hr.condition.isComplete hr.thenBranch.isComplete
  rw [checks_iff_reports] at hchecks
  rw [hchecks.exists_ok_iff, List.map_eq_nil_iff, List.filter_eq_nil_iff]
  intro p hp
  simp [h p hp]

theorem write_refused (hr : r.IsChoice) {p : Place} (hp : p ∈ r.places)
    (hrefused : p.isSafe = false)
    (h : ∀ q ∈ r.places, q ≠ p → q.isSafe = true) : r.write = .error p.refusal := by
  have hchecks := checks_write hr.condition.isComplete hr.thenBranch.isComplete
  have hfind : ∃ q, r.places.find? (!·.isSafe) = some q := by
    rw [← Option.isSome_iff_exists, List.find?_isSome]
    exact ⟨p, hp, by simp [hrefused]⟩
  obtain ⟨q, hq⟩ := hfind
  -- The first place that is refused is the only one.
  have hqp : q = p := by
    by_contra hne
    have hqunsafe := List.find?_some hq
    rw [h q (List.mem_of_find?_eq_some hq) hne] at hqunsafe
    cases hqunsafe
  refine (hchecks _).2 ?_
  rw [Place.refusal?, hq, hqp, Option.map_some]

theorem literal_mem_places {s : Statement} {literal : String}
    (hone : r.condition.filter (!·.isEmpty) = [s]) (hop : s.operator = some op)
    (hvalue : s.value = some (.ofString literal)) (horder : op.order? = some order) :
    Place.literal literal ∈ r.places := by
  have hplace : Place.literal literal ∈ s.places := by
    cases op with
    | greaterThan => simp [Statement.places, hop, hvalue]
    | lessThan => simp [Statement.places, hop, hvalue]
    | _ => cases horder
  have hcondition : Place.literal literal ∈ r.condition.places := by
    rw [Group.places, hone]
    simpa using hplace
  rw [places, List.append_assoc]
  exact List.mem_append_left _ hcondition

theorem isSafe_literal (literal : String) :
    Place.isSafe (.literal literal) = isSafeLiteral literal := by
  simp [Place.isSafe]

theorem compare?_of_ofPlain? {literal : String} {m p : Number}
    (h : Number.ofPlain? literal = some p) :
    (Attribute.own (.number m)).compare? literal = m.compare? p := by
  simp only [Attribute.compare?, coerce_of_ofPlain? h]

/-- The document is a rule that only compares a field with a number. All else in it is safe. -/
structure IsThreshold (document : Value) (r : Rule) (field : String) (op : Operator)
    (n : Number) : Prop where
  loads : load? document = .ok r
  compares : Compares document field op n
  alone : (r.condition.filter (!·.isEmpty)).length = 1
  choice : r.IsChoice
  safe : ∀ p ∈ r.places, p ≠ .literal n.text → p.isSafe = true

theorem IsThreshold.exists_statement (h : IsThreshold document r field op n) :
    ∃ s, r.condition.filter (!·.isEmpty) = [s] ∧ s.field = some (.ofString field) ∧
      s.operator = some op ∧ s.value = some (.ofString n.text) := by
  obtain ⟨s, hs, hfield, hop, hvalue⟩ := exists_comparison h.loads h.compares
  have hmem : s ∈ r.condition.filter (!·.isEmpty) := by
    rw [List.mem_filter]
    exact ⟨hs, by simp [Statement.isEmpty, hop]⟩
  obtain ⟨t, ht⟩ := List.length_eq_one_iff.1 h.alone
  rw [ht, List.mem_singleton] at hmem
  exact ⟨s, by rw [ht, hmem], hfield, hop, hvalue⟩

theorem IsThreshold.exists_write (h : IsThreshold document r field op n)
    (hliteral : isSafeLiteral n.text = true) : ∃ text, r.write = .ok text := by
  refine Rule.exists_write h.choice fun p hp => ?_
  by_cases hpn : p = .literal n.text
  · rw [hpn, isSafe_literal, hliteral]
  · exact h.safe p hp hpn

theorem write?_eq_ok : r.write? = .ok text ↔ r.write = .ok text := by
  unfold write?
  cases r.write <;> simp [Except.mapError]

theorem IsThreshold.evaluate_eq (h : IsThreshold document r field op n)
    (horder : op.order? = some order) (hwrite : r.write = .ok text) (m : Number) :
    evaluate text [(field, .number m)] =
      .ok (r.branchValue ((Attribute.own (.number m)).compare? n.text == some order)) := by
  obtain ⟨s, halone, hfield, hop, hvalue⟩ := h.exists_statement
  exact evaluate_of_holds h.choice hwrite (holds_of_comparison halone hfield hop hvalue horder)

/-- A number in a document is compared as that number where its text has no exponent. Above, the
rule is refused for it. Below, no number meets the condition. -/
theorem threshold_outcome (h : IsThreshold document r field op (.finite negative units))
    (horder : op.order? = some order) (hfinite : (Number.finite negative units).IsFinite) :
    (IsMidsize units → ∃ text, r.write? = .ok text ∧ ∀ m : Number, ∃ holds : Bool,
      evaluate text [(field, .number m)] = .ok (r.branchValue holds) ∧
      (holds = true ↔ m.compare? (.finite negative units) = some order)) ∧
    (sextillion ≤ units →
      r.write? = .error (.unsafeText (.literal (Number.text (.finite negative units))))) ∧
    (units ≠ 0 → units < millionth → ∃ text, r.write? = .ok text ∧ ∀ m : Number,
      evaluate text [(field, .number m)] = .ok (r.branchValue false)) := by
  obtain ⟨hsharp, hlimit⟩ := hfinite
  refine ⟨fun hmidsize => ?_, fun hlarge => ?_, fun hne hsmall => ?_⟩
  · obtain ⟨p, hread, hsame⟩ :=
      Number.exists_ofPlain?_text negative hsharp hlimit hmidsize
    obtain ⟨text, hwrite⟩ := h.exists_write (literal_midsize negative hsharp hlimit hmidsize)
    refine ⟨text, write?_eq_ok.2 hwrite, fun m => ⟨_, h.evaluate_eq horder hwrite m, ?_⟩⟩
    rw [beq_iff_eq, compare?_of_ofPlain? hread, hsame]
  · obtain ⟨s, halone, -, hop, hvalue⟩ := h.exists_statement
    have hplace := literal_mem_places halone hop hvalue horder
    have hrefused := (isSafe_literal _).trans (literal_large negative hsharp hlarge)
    rw [write?, write_refused h.choice hplace hrefused h.safe]
    rfl
  · obtain ⟨hplain, hliteral⟩ := literal_small negative hsharp hne hsmall
    obtain ⟨text, hwrite⟩ := h.exists_write hliteral
    refine ⟨text, write?_eq_ok.2 hwrite, fun m => ?_⟩
    rw [h.evaluate_eq horder hwrite, compare?_of_not_isPlain hplain]
    rfl

def above (n : Number) : Value :=
  .record
    [("if", .list [.record
      [("field", .text "a"), ("operator", .text "greaterThan"), ("value", .number n)]]),
     ("then", .list [.record [("value", .text "x")]]),
     ("else", .list [.record [("value", .text "y")]])]

def aboveLiteral (literal : String) : Rule where
  condition := [{ field := some "a", operator := some .greaterThan, value := some literal }]
  thenBranch := [{ value := some "x" }]
  elseBranch := [{ value := some "y" }]

theorem places_aboveLiteral (literal : String) :
    (aboveLiteral literal).places =
      [.field "a", .literal literal, .literal "x", .literal "y"] := rfl

theorem isThreshold_above (n : Number) :
    IsThreshold (above n) (aboveLiteral n.text) "a" .greaterThan n where
  loads := rfl
  compares := ⟨_, _, _, rfl, rfl, List.mem_singleton_self _, rfl, rfl, rfl⟩
  alone := rfl
  choice := ⟨⟨⟨_, rfl, rfl⟩, by simp [aboveLiteral]⟩, ⟨⟨_, rfl, rfl, rfl⟩, by simp [aboveLiteral]⟩,
    .inr ⟨⟨_, rfl, rfl, rfl⟩, by simp [aboveLiteral]⟩⟩
  safe p hp hpn := by
    rw [places_aboveLiteral] at hp
    simp only [List.mem_cons, List.not_mem_nil, or_false] at hp
    obtain rfl | rfl | rfl | rfl := hp
    · decide
    · exact absurd rfl hpn
    · decide
    · decide

theorem threshold_outcome_eighteen :
    (aboveLiteral (Number.ofNat 18).text).write? = .ok "a > 18 ? 'x' : 'y'" ∧
    evaluate "a > 18 ? 'x' : 'y'" [("a", .number (.ofNat 19))] = .ok (some "x") := by
  have hnumber : Number.ofNat 18 = .finite false (18 * Number.one) :=
    Number.ofNat_of_lt (by decide)
  have hfinite : (Number.finite false (18 * Number.one)).IsFinite :=
    ⟨Number.isSharp_mul_one (by decide), Number.mul_one_lt_limit (by decide)⟩
  have hmidsize : IsMidsize (18 * Number.one) := by
    unfold IsMidsize
    decide +kernel
  have hwritten : (aboveLiteral (Number.text (.finite false (18 * Number.one)))).write? =
      .ok "a > 18 ? 'x' : 'y'" := by decide +kernel
  obtain ⟨text, hwrite, houtcome⟩ :=
    (threshold_outcome (isThreshold_above _) rfl hfinite).1 hmidsize
  obtain rfl : "a > 18 ? 'x' : 'y'" = text := Except.ok.inj (hwritten.symm.trans hwrite)
  obtain ⟨holds, hvalue, hiff⟩ := houtcome (.ofNat 19)
  have habove : (Number.ofNat 19).compare? (.finite false (18 * Number.one)) = some .gt := by
    decide +kernel
  rw [hiff.2 habove] at hvalue
  exact ⟨hnumber ▸ hwritten, hvalue⟩

def tenMillionth : Nat := Number.nearest Number.one (Nat.pow 10 7)

/-- A number whose text has a negative exponent is compared as a text. One is above `10 ^ -7`, but
not above that text. -/
theorem threshold_tiny :
    ¬ ∀ (document : Value) (r : Rule) (field : String) (op : Operator) (order : Ordering)
      (negative : Bool) (units : Nat),
      IsThreshold document r field op (.finite negative units) → op.order? = some order →
      (Number.finite negative units).IsFinite →
      ∃ text, r.write? = .ok text ∧ ∀ m : Number, ∃ holds : Bool,
        evaluate text [(field, .number m)] = .ok (r.branchValue holds) ∧
        (holds = true ↔ m.compare? (.finite negative units) = some order) := by
  intro h
  have hfinite : (Number.finite false tenMillionth).IsFinite := by
    have hlimit : tenMillionth < limit := by decide +kernel
    exact ⟨Number.isSharp_nearest _ _, hlimit⟩
  have hplain : Number.isPlain (Number.text (.finite false tenMillionth)) = false := by
    decide +kernel
  have hthreshold := isThreshold_above (.finite false tenMillionth)
  obtain ⟨text, hwrite, houtcome⟩ := h _ _ _ _ _ _ _ hthreshold rfl hfinite
  obtain ⟨holds, hvalue, hiff⟩ := houtcome (.ofNat 1)
  have habove : (Number.ofNat 1).compare? (.finite false tenMillionth) = some .gt := by
    decide +kernel
  rw [hthreshold.evaluate_eq rfl (write?_eq_ok.1 hwrite), compare?_of_not_isPlain hplain,
    hiff.2 habove] at hvalue
  exact absurd hvalue (by decide)

end Rule

end Rulebook
