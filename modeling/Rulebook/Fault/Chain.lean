import Rulebook.Fault.Basic

/-! Faults as text, with the causes below, each two spaces further in. -/

namespace Rulebook

structure Palette where
  red : String
  dim : String
  reset : String
  deriving DecidableEq, Repr

namespace Palette

def plain : Palette := ⟨"", "", ""⟩

def colored : Palette := ⟨"\x1b[31m", "\x1b[2m", "\x1b[0m"⟩

def ofColor (color : Bool) : Palette := if color then colored else plain

end Palette

def spaces (n : Nat) : String := String.ofList (List.replicate n ' ')

def Report.dataJson (r : Report) : String := Json.compact (.record r.data)

def Report.block (p : Palette) (indent : Nat) (r : Report) : LooseText :=
  let data :=
    if r.data.isEmpty then ""
    else "\n" ++ spaces (indent + 2) ++ p.dim ++ "data: " ++ r.dataJson ++ p.reset
  LooseText.ofString (p.red ++ r.code ++ p.reset ++ ": ") ++ r.message ++ LooseText.ofString data

def Report.headline (p : Palette) (r : Report) : LooseText := "QuillError: " ++ r.block p 0

namespace Fault

def block (p : Palette) (indent : Nat) : Fault → Except Value.Unprintable LooseText
  | .nothing => .ok "undefined"
  | .value v => v.display
  | .report r _ => .ok (r.block p indent)
  | .plain name message _ => .ok (name ++ ": " ++ message)

def causeLines (p : Palette) (indent : Nat) : Fault → Except Value.Unprintable (List LooseText)
  | .nothing => .ok []
  | .value v => do return [← line (.value v)]
  | .report r cause => do
    let first ← line (.report r cause)
    return first :: (← causeLines p (indent + 2) cause)
  | .plain name message cause => do
    let first ← line (.plain name message cause)
    return first :: (← causeLines p (indent + 2) cause)
where
  line (cause : Fault) : Except Value.Unprintable LooseText := do
    let lead := spaces indent ++ p.dim ++ "└ caused by:" ++ p.reset ++ " "
    return LooseText.ofString lead ++ (← block p indent cause)

def pretty? (color : Bool) : Fault → Option (Except Value.Unprintable LooseText)
  | .report r cause => some do
    let p := Palette.ofColor color
    return .joined "\n" (r.headline p :: (← causeLines p 2 cause))
  | _ => none

end Fault

end Rulebook
