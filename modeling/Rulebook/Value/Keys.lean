import Rulebook.Text.Digits
import Rulebook.Text.Loose

/-! The order of the keys of a record: keys that are list positions come first, in ascending order,
then the others as they were first written. -/

namespace Rulebook.Value

/-- A key that spells a position below `2^32 - 1` without leading zeros. -/
def position? (key : LooseText) : Option Nat :=
  match key.shown.toList with
  | [] => none
  | ['0'] => some 0
  | '0' :: _ => none
  | s =>
    let n := Text.digitsValue s
    if s.all Char.isDigit && n < 4294967295 then some n else none

variable {κ α : Type} [BEq κ]

/-- A repeated key keeps its place and takes the later value. -/
def put (fields : List (κ × α)) (key : κ) (value : α) : List (κ × α) :=
  if fields.any (·.1 == key) then fields.map fun f => if f.1 == key then (key, value) else f
  else fields ++ [(key, value)]

/-- Positions in ascending order, then the other keys in the order given. -/
def orderKeys (fields : List (LooseText × α)) : List (LooseText × α) :=
  let positions := fields.filterMap fun f => (position? f.1).map fun n => (n, f)
  (positions.mergeSort fun a b => a.1 ≤ b.1).map (·.2) ++
    fields.filter fun f => (position? f.1).isNone

def fieldsOf (entries : List (LooseText × α)) : List (LooseText × α) :=
  orderKeys (entries.foldl (fun fields e => put fields e.1 e.2) [])

def field? (fields : List (κ × α)) (key : κ) : Option α :=
  (fields.find? (·.1 == key)).map (·.2)

example : position? "007" = none ∧ position? "7" = some 7 ∧ position? "4294967295" = none := by
  decide

end Rulebook.Value
