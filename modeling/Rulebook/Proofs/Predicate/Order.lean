import Mathlib
import Rulebook.Predicate.OnEntity
import Rulebook.Proofs.Text.Commas
import Rulebook.Proofs.Text.Units

/-! Where an attribute stands to a literal: below it, at it or above it. Texts are equal when they
are spelled alike, but plain decimals are ordered by size, so two spellings of one double are
neither equal nor in order. -/

namespace Rulebook

namespace Number

theorem compare?_swap (a b : Number) : b.compare? a = (a.compare? b).map Ordering.swap := by
  cases a with
  | nan => cases b <;> rfl
  | finite p m =>
    cases b with
    | nan => rfl
    | finite q n => simp [compare?, Int.compare_swap]
    | infinite q => cases q <;> rfl
  | infinite p =>
    cases b with
    | nan => rfl
    | finite q n => cases p <;> rfl
    | infinite q => simp [compare?, Nat.compare_swap]

theorem equal_comm (a b : Number) : a.equal b = b.equal a := by
  rw [equal, equal, compare?_swap a b]
  cases a.compare? b with
  | none => rfl
  | some order => cases order <;> rfl

theorem exists_compare? {a b : Number} (ha : a ≠ .nan) (hb : b ≠ .nan) :
    ∃ order, a.compare? b = some order := by
  cases a <;> cases b <;> simp_all [compare?]

theorem compare?_self {a : Number} (ha : a ≠ .nan) : a.compare? a = some .eq := by
  cases a <;> simp_all [compare?]

theorem ofUnits_ne_nan (negative : Bool) (units : Nat) : ofUnits negative units ≠ .nan := by
  rw [ofUnits]
  split <;> simp

theorem ofDecimal_ne_nan (negative : Bool) (digits : Nat) (exponent : Int) :
    ofDecimal negative digits exponent ≠ .nan := by
  unfold ofDecimal
  split_ifs <;> simp [ofUnits_ne_nan]

theorem ofPlain?_ne_nan {s : String} {n : Number} (h : ofPlain? s = some n) : n ≠ .nan := by
  obtain ⟨p, -, rfl⟩ := Option.map_eq_some_iff.1 h
  exact ofDecimal_ne_nan _ _ _

theorem exists_head_of_isPlain {s : String} (h : isPlain s = true) :
    ∃ c rest, s.toList = c :: rest ∧ (c = '-' ∨ c.isDigit = true) := by
  unfold isPlain readPlain at h
  split at h
  case h_1 rest hs => exact ⟨_, rest, hs, .inl rfl⟩
  case h_2 =>
    cases hs : s.toList with
    | nil =>
      rw [hs] at h
      cases h
    | cons c rest =>
      refine ⟨c, rest, rfl, .inr ?_⟩
      by_contra hc
      simp [hs, readUnsigned, hc] at h

end Number

theorem toLower_of_isDigit {c : Char} (h : c.isDigit = true) : c.toLower = c := by
  refine Char.toLower_eq_of_not_isUpper fun hupper => ?_
  simp only [Char.isDigit, Char.isUpper, Bool.and_eq_true, decide_eq_true_eq, ge_iff_le,
    UInt32.le_iff_toNat_le] at h hupper
  have hbelow : '9'.val.toNat < 'A'.val.toNat := by decide
  omega

theorem coerce_of_ofPlain? {literal : String} {m : Number}
    (h : Number.ofPlain? literal = some m) : coerce literal = .number m := by
  have hplain : Number.isPlain literal = true := by
    obtain ⟨p, hp, -⟩ := Option.map_eq_some_iff.1 h
    rw [Number.isPlain, hp]
    rfl
  obtain ⟨c, rest, hliteral, hc⟩ := Number.exists_head_of_isPlain hplain
  have hlower : c.toLower = c := by
    obtain rfl | hdigit := hc
    · rfl
    · exact toLower_of_isDigit hdigit
  have hletter (d : Char) (word : List Char) (hsign : d ≠ '-') (hdigit : d.isDigit = false) :
      lowerLetters literal ≠ d :: word := by
    intro hword
    have hcd : c = d := by
      rw [lowerLetters, hliteral, List.map_cons, hlower] at hword
      exact (List.cons.inj hword).1
    simp_all
  have htrue : lowerLetters literal ≠ "true".toList := hletter _ _ (by decide) (by decide)
  have hfalse : lowerLetters literal ≠ "false".toList := hletter _ _ (by decide) (by decide)
  rw [coerce, if_neg htrue, if_neg hfalse, h]

theorem ofPlain?_of_coerce {literal : String} {m : Number} (h : coerce literal = .number m) :
    Number.ofPlain? literal = some m := by
  unfold coerce at h
  split_ifs at h
  split at h
  case h_1 n hn =>
    cases h
    exact hn
  case h_2 => cases h

/-- The value is a text that spells the double of the literal in another way. Two decimals can be
one double without being one number: `9007199254740993` and `9007199254740992`, or any two that are
too large. -/
def Respells (v : Value) (literal : String) : Prop :=
  ∃ s n m, v = .text (.ofString s) ∧ s ≠ literal ∧ Number.ofPlain? s = some n ∧
    Number.ofPlain? literal = some m ∧ n.equal m = true

/-- The values that a literal has an order with: any text, and a finite number where the literal is
a plain decimal. -/
inductive IsOrdered (literal : String) : Value → Prop
  | text (u : List UInt16) : IsOrdered literal (.text (.ofUnits u))
  | number (negative : Bool) (units : Nat) (h : Number.isPlain literal = true) :
      IsOrdered literal (.number (.finite negative units))

/-- A value stands below, at or above a literal, and equals it where it stands at it, unless it only
respells the literal. -/
structure Stands (v : Value) (literal : String) (order : Ordering) (same : Bool) : Prop where
  compared : (Attribute.own v).compare? literal = some order
  matched : (Attribute.own v).matchesLiteral literal = .ok same
  eq_iff : order = .eq ↔ same = true ∨ Respells v literal
  apart : same = true → ¬ Respells v literal

theorem stands_number {n m : Number} {literal : String} (hn : n ≠ .nan)
    (hm : Number.ofPlain? literal = some m) :
    ∃ order same, Stands (.number n) literal order same := by
  obtain ⟨order, horder⟩ := Number.exists_compare? hn (Number.ofPlain?_ne_nan hm)
  have hspells : ¬ Respells (.number n) literal := by
    rintro ⟨s, -, -, hs, -⟩
    cases hs
  refine ⟨order, order == .eq, ?_, ?_, ?_, fun _ => hspells⟩
  · simp [Attribute.compare?, coerce_of_ofPlain? hm, horder]
  · simp only [Attribute.matchesLiteral, coerce_of_ofPlain? hm]
    rw [Number.equal_comm, Number.equal, horder]
    rfl
  · simp [hspells]

theorem matchesLiteral_text (t : LooseText) (literal : String) :
    (Attribute.own (.text t)).matchesLiteral literal = .ok (t == .ofString literal) := rfl

theorem stands_spelled {u : List UInt16} {literal : String}
    (h : (Attribute.own (.text (.ofUnits u))).compare? literal =
      some ((LooseText.ofUnits u).compare16 literal))
    (hspells : ¬ Respells (.text (.ofUnits u)) literal) :
    ∃ order same, Stands (.text (.ofUnits u)) literal order same := by
  refine ⟨_, _, h, matchesLiteral_text .., ?_, fun _ => hspells⟩
  rw [LooseText.compare16, LooseText.units_ofUnits, LooseText.units_ofString,
    Text.compareUnits_eq_iff, beq_iff_eq]
  constructor
  · rintro rfl
    exact .inl (LooseText.ofUnits_units literal)
  · rintro (hsame | hspells')
    · rw [← LooseText.units_ofUnits u, hsame, LooseText.units_ofString]
    · exact absurd hspells' hspells

theorem stands_decimal {s literal : String} {n m : Number} (hn : Number.ofPlain? s = some n)
    (hm : Number.ofPlain? literal = some m) :
    ∃ order same, Stands (.text (.ofString s)) literal order same := by
  obtain ⟨order, horder⟩ :=
    Number.exists_compare? (Number.ofPlain?_ne_nan hn) (Number.ofPlain?_ne_nan hm)
  have hcompare : (Attribute.own (.text (.ofString s))).compare? literal = some order := by
    simp [Attribute.compare?, coerce_of_ofPlain? hm, hn, horder]
  have hspells : Respells (.text (.ofString s)) literal ↔ s ≠ literal ∧ order = .eq := by
    constructor
    · rintro ⟨s', n', m', hs, hne, hn', hm', hequal⟩
      obtain rfl := LooseText.ofString_injective (Value.text.inj hs)
      obtain rfl := Option.some.inj (hn.symm.trans hn')
      obtain rfl := Option.some.inj (hm.symm.trans hm')
      rw [Number.equal, horder] at hequal
      exact ⟨hne, by simpa using hequal⟩
    · rintro ⟨hne, rfl⟩
      exact ⟨s, n, m, rfl, hne, hn, hm, by rw [Number.equal, horder]; rfl⟩
  refine ⟨order, _, hcompare, matchesLiteral_text .., ?_, ?_⟩
  · rw [beq_iff_eq, hspells]
    by_cases hs : s = literal
    · subst hs
      cases hn.symm.trans hm
      rw [Number.compare?_self (Number.ofPlain?_ne_nan hn)] at horder
      simp [(Option.some.inj horder).symm]
    · have hne : LooseText.ofString s ≠ .ofString literal := fun h =>
        hs (LooseText.ofString_injective h)
      simp [hs, hne]
  · intro hsame
    rw [beq_iff_eq] at hsame
    rw [hspells]
    exact fun h => h.1 (LooseText.ofString_injective hsame)

theorem exists_stands {v : Value} {literal : String} (h : IsOrdered literal v) :
    ∃ order same, Stands v literal order same := by
  cases h with
  | number negative units hplain =>
    obtain ⟨p, hp⟩ := Option.isSome_iff_exists.1 hplain
    exact stands_number (by simp) (Option.map_eq_some_iff.2 ⟨p, hp, rfl⟩)
  | text u =>
    cases hm : Number.ofPlain? literal with
    | none =>
      refine stands_spelled ?_ ?_
      · cases hcoerce : coerce literal with
        | number m => cases hm.symm.trans (ofPlain?_of_coerce hcoerce)
        | bool b => simp [Attribute.compare?, hcoerce]
        | text s => simp [Attribute.compare?, hcoerce]
      · rintro ⟨-, -, m, -, -, -, hm', -⟩
        cases hm.symm.trans hm'
    | some m =>
      cases hn : (LooseText.ofUnits u).string?.bind Number.ofPlain? with
      | none =>
        refine stands_spelled ?_ ?_
        · simp [Attribute.compare?, coerce_of_ofPlain? hm, hn]
        · rintro ⟨s, n, -, hs, -, hn', -⟩
          rw [Value.text.inj hs, LooseText.string?_ofString, Option.bind_some, hn'] at hn
          cases hn
      | some n =>
        obtain ⟨s, hs, hn⟩ := Option.bind_eq_some_iff.1 hn
        rw [LooseText.string?_eq_some.1 hs]
        exact stands_decimal hn hm

/-- A text, or a finite number beside a plain decimal, is below, equal to or above a literal, and
just one of these, and it differs where it is below or above. A text that spells the double of the
literal in another way is none of the three and differs. -/
theorem compare_outcomes {entity : Entity} {name : String} {v : Value} {literal : String}
    (hown : Value.field? entity (name : LooseText) = some v) (hv : IsOrdered literal v) :
    ∃ less equal greater differs : Bool,
      entityPredicates.lessThan (entityPredicates.handle name) literal entity = .ok less ∧
      entityPredicates.equal (entityPredicates.handle name) literal entity = .ok equal ∧
      entityPredicates.greaterThan (entityPredicates.handle name) literal entity = .ok greater ∧
      entityPredicates.notEqual (entityPredicates.handle name) literal entity = .ok differs ∧
      (¬ Respells v literal → [less, equal, greater].count true = 1 ∧
        (differs = true ↔ less = true ∨ greater = true)) ∧
      (Respells v literal → less = false ∧ equal = false ∧ greater = false ∧ differs = true) := by
  obtain ⟨order, same, hcompare, hmatches, heq, hapart⟩ := exists_stands hv
  have hread : Attribute.of entity name = .own v := by rw [Attribute.of, hown]
  have hpresent : (Attribute.own v).isMissing = false := by
    cases hv <;> rfl
  refine ⟨order == .lt, same, order == .gt, !same, ?_, ?_, ?_, ?_, ?_, ?_⟩
  · simp [entityPredicates, hread, hcompare]
  · simp [entityPredicates, hread, hmatches]
  · simp [entityPredicates, hread, hcompare]
  · simp [entityPredicates, hread, hpresent, hmatches]
  · intro hspells
    cases order <;> cases same <;> simp_all
  · intro hspells
    cases order <;> cases same <;> simp_all

def spelling (u : List UInt16) : Entity := [("r", .text (.ofUnits u))]

theorem compare_outcomes_nine :
    ¬ Respells (.text (.ofUnits [0x39])) "10" ∧
    ∃ less equal greater differs : Bool,
      entityPredicates.lessThan (entityPredicates.handle "r") "10" (spelling [0x39]) = .ok less ∧
      entityPredicates.equal (entityPredicates.handle "r") "10" (spelling [0x39]) = .ok equal ∧
      entityPredicates.greaterThan (entityPredicates.handle "r") "10" (spelling [0x39]) =
        .ok greater ∧
      entityPredicates.notEqual (entityPredicates.handle "r") "10" (spelling [0x39]) =
        .ok differs ∧
      [less, equal, greater].count true = 1 ∧
      (differs = true ↔ less = true ∨ greater = true) := by
  have hspells : ¬ Respells (.text (.ofUnits [0x39])) "10" := by
    rintro ⟨s, n, m, hs, -, hn, hm, hequal⟩
    have hnine : LooseText.ofUnits [0x39] = .ofString "9" := by decide
    obtain rfl : "9" = s := LooseText.ofString_injective (hnine ▸ Value.text.inj hs)
    have hunequal : (Number.ofPlain? "9").bind (fun n => (Number.ofPlain? "10").map n.equal) =
        some false := by decide +kernel
    rw [hn, hm, Option.bind_some, Option.map_some, hequal] at hunequal
    cases hunequal
  have hown : Value.field? (spelling [0x39]) ("r" : LooseText) =
      some (.text (.ofUnits [0x39])) := rfl
  have hordered : IsOrdered "10" (.text (.ofUnits [0x39])) := .text _
  obtain ⟨less, equal, greater, differs, hless, hequal, hgreater, hdiffers, hone, -⟩ :=
    compare_outcomes hown hordered
  exact ⟨hspells, less, equal, greater, differs, hless, hequal, hgreater, hdiffers, hone hspells⟩

/-- The text `1.0` is neither below nor at nor above the literal `1`. -/
theorem compare_outcomes_respelled :
    ¬ ∀ (entity : Entity) (name : String) (v : Value) (literal : String),
      Value.field? entity (name : LooseText) = some v → IsOrdered literal v →
      ∃ less equal greater differs : Bool,
        entityPredicates.lessThan (entityPredicates.handle name) literal entity = .ok less ∧
        entityPredicates.equal (entityPredicates.handle name) literal entity = .ok equal ∧
        entityPredicates.greaterThan (entityPredicates.handle name) literal entity = .ok greater ∧
        entityPredicates.notEqual (entityPredicates.handle name) literal entity = .ok differs ∧
        [less, equal, greater].count true = 1 ∧
        (differs = true ↔ less = true ∨ greater = true) := by
  intro h
  obtain ⟨less, equal, greater, -, hless, hequal, hgreater, -, hone, -⟩ :=
    h (spelling [0x31, 0x2E, 0x30]) "r" _ "1" rfl (.text _)
  have hnotLess : entityPredicates.lessThan (entityPredicates.handle "r") "1"
      (spelling [0x31, 0x2E, 0x30]) = .ok false := by decide +kernel
  have hnotEqual : entityPredicates.equal (entityPredicates.handle "r") "1"
      (spelling [0x31, 0x2E, 0x30]) = .ok false := by decide +kernel
  have hnotGreater : entityPredicates.greaterThan (entityPredicates.handle "r") "1"
      (spelling [0x31, 0x2E, 0x30]) = .ok false := by decide +kernel
  cases hnotLess.symm.trans hless
  cases hnotEqual.symm.trans hequal
  cases hnotGreater.symm.trans hgreater
  exact absurd hone (by decide)

end Rulebook
