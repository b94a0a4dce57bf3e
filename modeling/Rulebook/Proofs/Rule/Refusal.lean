import Rulebook.Proofs.Rule.Reports

/-! For what a rule is refused. The fields and literals that a rule has written in it are checked in
the order of the text, the field of a statement before its literals, and the first unsafe one is
reported. -/

namespace Rulebook

inductive Place where
  | field (name : LooseText)
  | literal (value : LooseText)
  deriving DecidableEq, Repr

namespace Place

/-- Fields have to be names, and literals non-empty texts of the safe characters. -/
def isSafe : Place → Bool
  | .field name => name.string?.any Expr.isName
  | .literal value => value.string?.any Rule.isSafeLiteral

def refusal : Place → UnsafeText
  | .field name => .field name
  | .literal value => .literal value

def refusal? (ps : List Place) : Option UnsafeText := (ps.find? (!·.isSafe)).map refusal

theorem refusal?_eq_some {ps : List Place} {e : UnsafeText} :
    refusal? ps = some e ↔ ∃ before p after, ps = before ++ p :: after ∧
      (∀ q ∈ before, q.isSafe = true) ∧ p.isSafe = false ∧ p.refusal = e := by
  rw [refusal?, Option.map_eq_some_iff]
  constructor
  · rintro ⟨p, hfind, hrefusal⟩
    obtain ⟨hp, before, after, rfl, hbefore⟩ := List.find?_eq_some_iff_append.1 hfind
    exact ⟨before, p, after, rfl, by simpa using hbefore, by simpa using hp, hrefusal⟩
  · rintro ⟨before, p, after, rfl, hbefore, hp, hrefusal⟩
    refine ⟨p, List.find?_eq_some_iff_append.2 ⟨?_, before, after, rfl, ?_⟩, hrefusal⟩
    · simp [hp]
    · simpa using hbefore

end Place

/-- The places of a statement. A missing field or value counts as the empty text. -/
def Statement.places (s : Statement) : List Place :=
  let value := s.value.getD ""
  match s.operator with
  | none => [.literal value]
  | some .containsSet => .field (s.field.getD "") :: value.commaMembers.map .literal
  | some _ => [.field (s.field.getD ""), .literal value]

def Group.places (g : Group) : List Place := (g.filter (!·.isEmpty)).flatMap (·.places)

namespace Rule

/-- The places of a rule. Those of an incomplete `elseBranch` are not written. -/
def places (r : Rule) : List Place :=
  r.condition.places ++ r.thenBranch.places ++
    if r.isComplete .elseBranch then r.elseBranch.places else []

variable {α β : Type} {x : Except UnsafeText α} {f : α → Except UnsafeText β} {ps qs : List Place}

def Checks (x : Except UnsafeText α) (ps : List Place) : Prop :=
  ∀ e, x = .error e ↔ Place.refusal? ps = some e

theorem checks_iff_reports :
    Checks x ps ↔ Reports x ((ps.filter (!·.isSafe)).map Place.refusal) := by
  simp only [Checks, Reports, Place.refusal?, List.head?_map, List.head?_filter]

theorem checks_ok (a : α) : Checks (.ok a) [] := checks_iff_reports.2 (reports_ok a)

theorem Checks.bind (hx : Checks x ps) (hf : ∀ a, Checks (f a) qs) :
    Checks (x >>= f) (ps ++ qs) := by
  rw [checks_iff_reports, List.filter_append, List.map_append]
  exact (checks_iff_reports.1 hx).bind fun a => checks_iff_reports.1 (hf a)

theorem Checks.bind_pure {g : α → β} (hx : Checks x ps) :
    Checks (x >>= fun a => pure (g a)) ps := by
  have h := hx.bind fun a => checks_ok (g a)
  rwa [List.append_nil] at h

theorem checks_checkLiteral (t : LooseText) : Checks (checkLiteral t) [.literal t] := by
  intro e
  have hsafe : Place.isSafe (.literal t) = (t.string?.filter isSafeLiteral).isSome := by
    rw [Place.isSafe, Option.isSome_filter]
  rw [checkLiteral]
  cases h : t.string?.filter isSafeLiteral <;>
    simp [Place.refusal?, hsafe, h, Place.refusal]

theorem checks_checkField (t : LooseText) : Checks (checkField t) [.field t] := by
  intro e
  have hsafe : Place.isSafe (.field t) = (t.string?.filter Expr.isName).isSome := by
    rw [Place.isSafe, Option.isSome_filter]
  rw [checkField]
  cases h : t.string?.filter Expr.isName <;> simp [Place.refusal?, hsafe, h, Place.refusal]

theorem checks_quote (t : LooseText) : Checks (quote t) [.literal t] :=
  (checks_checkLiteral t).bind_pure

theorem checks_orderedLiteral (t : LooseText) : Checks (orderedLiteral t) [.literal t] := by
  rw [orderedLiteral]
  split
  · exact checks_checkLiteral t
  · exact checks_quote t

theorem checks_mapM_quote (ts : List LooseText) : Checks (ts.mapM quote) (ts.map .literal) := by
  induction ts with
  | nil => exact checks_ok []
  | cons t ts ih =>
    rw [List.mapM_cons]
    exact (checks_quote t).bind fun s => ih.bind_pure

theorem checks_writeStatement (s : Statement) : Checks (writeStatement s) s.places := by
  unfold writeStatement Statement.places
  cases s.operator with
  | none => exact checks_quote _
  | some op =>
    cases op with
    | containsSet => exact (checks_checkField _).bind fun f => (checks_mapM_quote _).bind_pure
    | containsSubstring => exact (checks_checkField _).bind fun f => (checks_quote _).bind_pure
    | equals => exact (checks_checkField _).bind fun f => (checks_quote _).bind_pure
    | notEquals => exact (checks_checkField _).bind fun f => (checks_quote _).bind_pure
    | greaterThan => exact (checks_checkField _).bind fun f => (checks_orderedLiteral _).bind_pure
    | lessThan => exact (checks_checkField _).bind fun f => (checks_orderedLiteral _).bind_pure

theorem checks_writeRest (g : Group) : Checks (writeRest g) (g.flatMap (·.places)) := by
  induction g with
  | nil => exact checks_ok ""
  | cons s g ih => exact (checks_writeStatement s).bind fun text => ih.bind_pure

theorem checks_writeGroup (g : Group) : Checks (writeGroup g) g.places := by
  rw [writeGroup, Group.places]
  cases g.filter (!·.isEmpty) with
  | nil => exact checks_ok ""
  | cons first rest =>
    exact (checks_writeStatement first).bind fun text => (checks_writeRest rest).bind_pure

theorem checks_writeElse (g : Group) :
    Checks (writeElse g) (if g.isComplete .branch then g.places else []) := by
  rw [writeElse]
  split
  · exact checks_writeGroup g
  · exact checks_ok "null"

theorem checks_write {r : Rule} (hc : r.isComplete .condition = true)
    (ht : r.isComplete .thenBranch = true) : Checks r.write r.places := by
  rw [write_of_isComplete hc ht, places, List.append_assoc]
  exact (checks_writeGroup _).bind fun c => (checks_writeGroup _).bind fun t =>
    (checks_writeElse _).bind_pure

end Rule

end Rulebook
