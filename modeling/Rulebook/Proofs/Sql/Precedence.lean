import Mathlib.Data.List.Forall2
import Rulebook.Connective

/-! How SQL takes a condition apart: parentheses first, then `AND`, then `OR`, each from left to
right. What an operand is and what joined operands give is left open. -/

namespace Rulebook.Sql

inductive Token (α : Type) where
  | operand (a : α)
  | joint (c : Connective)
  | opening
  | closing
  deriving DecidableEq, Repr

/-- What joined operands give. A single one is not joined. -/
structure Joining (α : Type) where
  combine : Connective → List α → α
  combine_single : ∀ c a, combine c [a] = a

/-- What was read between two parentheses: the operands of `OR`, and those of the `AND` that the
next operand belongs to. -/
structure Level (α : Type) where
  disjuncts : List α := []
  conjuncts : List α := []

/-- A place in a condition: the operand in front of it, if there is one, the level it is on and the
levels around that one. -/
structure State (α : Type) where
  operand : Option α := none
  level : Level α := {}
  outer : List (Level α) := []

variable {α : Type}

section Resolve

variable (J : Joining α)

namespace Level

def put (c : Connective) (level : Level α) (a : α) : Level α :=
  match c with
  | .and => { level with conjuncts := level.conjuncts ++ [a] }
  | .or => ⟨level.disjuncts ++ [J.combine .and (level.conjuncts ++ [a])], []⟩

def whole (level : Level α) (a : α) : α :=
  J.combine .or (level.disjuncts ++ [J.combine .and (level.conjuncts ++ [a])])

theorem foldl_put_and (level : Level α) (as : List α) :
    as.foldl (put J .and) level = { level with conjuncts := level.conjuncts ++ as } := by
  induction as generalizing level with
  | nil => simp
  | cons a as ih => rw [List.foldl_cons, ih, put]; simp

theorem foldl_put_or (ds as : List α) :
    as.foldl (put J .or) ⟨ds, []⟩ = ⟨ds ++ as, []⟩ := by
  induction as generalizing ds with
  | nil => simp
  | cons a as ih =>
    rw [List.foldl_cons, put, List.nil_append, J.combine_single, ih, List.append_assoc]
    rfl

theorem whole_foldl (c : Connective) (as : List α) (a : α) :
    (as.foldl (put J c) {}).whole J a = J.combine c (as ++ [a]) := by
  cases c with
  | and => rw [foldl_put_and, whole]; simp only [List.nil_append, J.combine_single]
  | or => rw [foldl_put_or, whole]; simp only [List.nil_append, J.combine_single]

end Level

def step : State α → Token α → Option (State α)
  | ⟨none, level, outer⟩, .operand a => some ⟨some a, level, outer⟩
  | ⟨none, level, outer⟩, .opening => some ⟨none, {}, level :: outer⟩
  | ⟨some a, level, outer⟩, .joint c => some ⟨none, level.put J c a, outer⟩
  | ⟨some a, level, next :: outer⟩, .closing => some ⟨some (level.whole J a), next, outer⟩
  | _, _ => none

def State.result : State α → Option α
  | ⟨some a, level, []⟩ => some (level.whole J a)
  | _ => none

def resolve (ts : List (Token α)) : Option α := ts.foldlM (step J) {} >>= State.result J

/-- Wherever a level begins, the tokens are a whole condition that gives `a`. -/
def Resolves (ts : List (Token α)) (a : α) : Prop :=
  ∀ outer, ∃ level last, ts.foldlM (step J) ⟨none, {}, outer⟩ = some ⟨some last, level, outer⟩ ∧
    level.whole J last = a

variable {J}

theorem Resolves.resolve {ts : List (Token α)} {a : α} (h : Resolves J ts a) :
    resolve J ts = some a := by
  obtain ⟨level, last, hrun, ha⟩ := h []
  rw [Sql.resolve, hrun]
  exact congrArg some ha

theorem resolves_operand (a : α) : Resolves J [.operand a] a :=
  fun _ => ⟨{}, a, rfl, Level.whole_foldl J .and [] a |>.trans (J.combine_single _ a)⟩

end Resolve

def enclosed (ts : List (Token α)) : List (Token α) := .opening :: ts ++ [.closing]

def grouped (c : Connective) (tss : List (List (Token α))) : List (Token α) :=
  [.joint c].intercalate (tss.map enclosed)

theorem grouped_cons_cons (c : Connective) (ts us : List (Token α))
    (tss : List (List (Token α))) :
    grouped c (ts :: us :: tss) = enclosed ts ++ .joint c :: grouped c (us :: tss) := by
  simp [grouped, List.intercalate_cons_cons]

section Grouped

variable {J : Joining α} (c : Connective)

theorem Resolves.run_enclosed {ts : List (Token α)} {a : α} (h : Resolves J ts a)
    (level : Level α) (outer : List (Level α)) :
    (enclosed ts).foldlM (step J) ⟨none, level, outer⟩ = some ⟨some a, level, outer⟩ := by
  obtain ⟨inner, last, hrun, ha⟩ := h (level :: outer)
  have hopen : (enclosed ts).foldlM (step J) ⟨none, level, outer⟩ =
      (ts ++ [Token.closing]).foldlM (step J) ⟨none, {}, level :: outer⟩ := rfl
  rw [hopen, List.foldlM_append, hrun, ← ha]
  rfl

theorem run_grouped {tss : List (List (Token α))} {as : List α} {last : α}
    (h : List.Forall₂ (Resolves J) tss (as ++ [last])) (level : Level α)
    (outer : List (Level α)) :
    (grouped c tss).foldlM (step J) ⟨none, level, outer⟩ =
      some ⟨some last, as.foldl (Level.put J c) level, outer⟩ := by
  induction as generalizing tss level with
  | nil =>
    obtain ⟨ts, rest, hts, hrest, rfl⟩ := List.forall₂_cons_right_iff.1 h
    cases hrest
    simpa [grouped] using hts.run_enclosed level outer
  | cons a as ih =>
    obtain ⟨ts, rest, hts, hrest, rfl⟩ := List.forall₂_cons_right_iff.1 h
    cases rest with
    | nil => simpa using hrest.length_eq
    | cons us rest =>
      rw [grouped_cons_cons, List.foldlM_append, hts.run_enclosed, List.foldl_cons]
      exact ih hrest (level.put J c a)

theorem resolves_grouped {tss : List (List (Token α))} {as : List α}
    (h : List.Forall₂ (Resolves J) tss as) (hne : as ≠ []) :
    Resolves J (grouped c tss) (J.combine c as) := by
  intro outer
  have hsplit := List.dropLast_append_getLast hne
  rw [← hsplit] at h ⊢
  exact ⟨_, _, run_grouped c h {} outer, Level.whole_foldl J c _ _⟩

end Grouped

/-- The operands of a condition, from left to right. -/
def operands (ts : List (Token α)) : List α :=
  ts.filterMap fun
    | .operand a => some a
    | _ => none

@[simp] theorem operands_append (ts us : List (Token α)) :
    operands (ts ++ us) = operands ts ++ operands us := List.filterMap_append

theorem mem_operands_cons {ts : List (Token α)} {a : α} (t : Token α) (h : a ∈ operands ts) :
    a ∈ operands (t :: ts) := by
  rw [← List.singleton_append, operands_append]
  exact List.mem_append_right _ h

@[simp] theorem operands_enclosed (ts : List (Token α)) :
    operands (enclosed ts) = operands ts := by
  rw [enclosed, operands_append]
  exact List.append_nil _

theorem operands_grouped (c : Connective) (tss : List (List (Token α))) :
    operands (grouped c tss) = tss.flatMap operands := by
  induction tss with
  | nil => rfl
  | cons ts tss ih =>
    cases tss with
    | nil => simp [grouped]
    | cons us tss =>
      rw [grouped_cons_cons, operands_append, operands_enclosed, List.flatMap_cons, ← ih]
      rfl

end Rulebook.Sql
