import Rulebook.Expr.Failure
import Rulebook.Text.Blank
import Rulebook.Text.Cursor

/-! Readers take the beginning of a text and leave a place behind it, or say what was missing. -/

namespace Rulebook.Expr
open Text

abbrev Reader := StateT Cursor (Except Failure)

namespace Reader

variable {α : Type}

/-- Tries the second reader at the same place when the first one fails. When both fail the failure
further on counts. -/
def either (p q : Reader α) : Reader α := fun c =>
  match p c with
  | .ok r => .ok r
  | .error e =>
    match q c with
    | .ok r => .ok r
    | .error f => .error (e.furthest f)

def consume (s : List Char) : Reader String := fun c =>
  .ok (String.ofList s, c.advance (Cursor.byteCount s))

/-- Reads the longest token of a class. The failure shows the next five code units. -/
def pattern (p : Pattern) : Reader String := fun c =>
  match c.view with
  | [] => .error ⟨c.offset, .pattern p none⟩
  | s =>
    match p.match? s with
    | some token => consume token c
    | none => .error ⟨c.offset, .pattern p (some (.glimpse 5 s))⟩

/-- Reads a fixed word of ASCII characters. The failure shows as many bytes as the word has. -/
def word (w : String) : Reader String := fun c =>
  let n := w.toList.length
  match c.peek? n with
  | none => .error ⟨c.offset, .word w none⟩
  | some found =>
    if found = w.toList then .ok (w, c.advance n)
    else .error ⟨c.offset, .word w (some (String.ofList found))⟩

def mark (m : Char) : Reader String := fun c =>
  match c.width? with
  | none => .error ⟨c.offset, .mark m none⟩
  | some n =>
    match c.peek? n with
    | none => .error ⟨c.offset, .mark m none⟩
    | some found =>
      if found = [m] then .ok (m.toString, c.advance n)
      else .error ⟨c.offset, .mark m (some (String.ofList found))⟩

def blanks : Reader String := fun c => consume (leadingBlanks c.view) c

def someBlanks : Reader String := fun c =>
  match leadingBlanks c.view with
  | [] => .error ⟨c.offset, .blank⟩
  | s => consume s c

/-- Reads to the end of the text. The failure shows the next byte as the character of that code. -/
def ending : Reader Unit := fun c =>
  match c.nextByte? with
  | none => .ok ((), c)
  | some b => .error ⟨c.offset, .ending (Char.ofNat b.toNat)⟩

def manyUpTo (n : Nat) (p : Reader α) : Reader (List α) := fun c =>
  match n with
  | 0 => .ok ([], c)
  | n + 1 =>
    match p c with
    | .error _ => .ok ([], c)
    | .ok (item, c) => do
      let (items, c) ← manyUpTo n p c
      return (item :: items, c)

/-- Reads items until one fails. Every item takes a byte, so there are no more of them than
bytes. -/
def many (p : Reader α) : Reader (List α) := fun c => manyUpTo c.remaining p c

end Reader

end Rulebook.Expr
