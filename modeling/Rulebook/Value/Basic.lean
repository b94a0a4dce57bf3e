import Rulebook.Number.Text
import Rulebook.Value.Keys

/-! Values of data documents: what JSON and YAML texts hold, what an entity's attributes are, and
what a filter compares with. -/

namespace Rulebook

inductive Value where
  | null
  | bool (b : Bool)
  | number (n : Number)
  | text (t : LooseText)
  | list (items : List Value)
  | record (fields : List (LooseText × Value))
  deriving Repr, Inhabited

namespace Value

def text? : Value → Option LooseText
  | .text t => some t
  | _ => none

def string? (v : Value) : Option String := v.text?.bind LooseText.string?

def list? : Value → Option (List Value)
  | .list items => some items
  | _ => none

def record? : Value → Option (List (LooseText × Value))
  | .record fields => some fields
  | _ => none

/-- A record that has its own `toString` cannot be turned into text: no value of a data document
can be called. -/
structure Unprintable where
  deriving DecidableEq, Repr

mutual

/-- The text of a value. The items of a list are joined by commas, and `null` items are empty. -/
def display : Value → Except Unprintable LooseText
  | .null => .ok "null"
  | .bool b => .ok (.ofString (if b then "true" else "false"))
  | .number n => .ok n.text
  | .text t => .ok t
  | .list items => do return .joined "," (← displayItems items)
  | .record fields =>
    if fields.any (·.1 == "toString") then .error {} else .ok "[object Object]"

def displayItems : List Value → Except Unprintable (List LooseText)
  | [] => .ok []
  | .null :: items => do return ("" : LooseText) :: (← displayItems items)
  | item :: items => do
    let first ← display item
    return first :: (← displayItems items)

end

end Value

end Rulebook
