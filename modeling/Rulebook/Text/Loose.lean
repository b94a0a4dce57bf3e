import Rulebook.Text.Blank
import Rulebook.Text.Units

/-! Texts in which halves of characters may stand alone. An escape in a data document can name one
half of a character of two code units, and a cut between the units leaves one. -/

namespace Rulebook

/-- A character, or one half of a character by its code unit. -/
inductive Glyph where
  | char (c : Char)
  | half (u : UInt16)
  deriving DecidableEq, Repr

namespace Glyph

def units : Glyph → List UInt16
  | .char c => Text.charUnits c
  | .half u => [u]

def isBlank : Glyph → Bool
  | .char c => Text.isBlank c
  | .half _ => false

def shown : Glyph → Char
  | .char c => c
  | .half _ => Text.replacement

end Glyph

/-- A text of characters and halves. A text that is read has no two halves of one character side by
side, since they are that character; halves that meet where texts are joined stay as they are. -/
structure LooseText where
  glyphs : List Glyph
  deriving DecidableEq, Repr, Inhabited

namespace LooseText

def ofString (s : String) : LooseText := ⟨s.toList.map .char⟩

instance : Coe String LooseText := ⟨ofString⟩

instance : Append LooseText := ⟨fun s t => ⟨s.glyphs ++ t.glyphs⟩⟩

@[simp] theorem glyphs_append (s t : LooseText) : (s ++ t).glyphs = s.glyphs ++ t.glyphs := rfl

theorem ofString_append (s t : String) : ofString (s ++ t) = ofString s ++ ofString t :=
  congrArg mk (by simp [ofString])

theorem append_assoc (s t u : LooseText) : s ++ t ++ u = s ++ (t ++ u) :=
  congrArg mk (List.append_assoc ..)

@[simp] theorem append_empty (t : LooseText) : t ++ ofString "" = t :=
  congrArg mk (List.append_nil _)

/-- The text with U+FFFD in the place of every half. -/
def shown (t : LooseText) : String := String.ofList (t.glyphs.map Glyph.shown)

@[simp] theorem shown_ofString (s : String) : (ofString s).shown = s := by
  simp [ofString, shown, Function.comp_def, Glyph.shown]

def charsOf? : List Glyph → Option (List Char)
  | [] => some []
  | .char c :: s => (charsOf? s).map (c :: ·)
  | .half _ :: _ => none

def string? (t : LooseText) : Option String := (charsOf? t.glyphs).map String.ofList

theorem charsOf?_map_char (s : List Char) : charsOf? (s.map .char) = some s := by
  induction s with
  | nil => rfl
  | cons c s ih => simp [charsOf?, ih]

@[simp] theorem string?_ofString (s : String) : (ofString s).string? = some s := by
  simp [ofString, string?, charsOf?_map_char]

theorem ofString_injective {s t : String} (h : ofString s = ofString t) : s = t := by
  have h := congrArg string? h
  simpa using h

def units (t : LooseText) : List UInt16 := t.glyphs.flatMap Glyph.units

@[simp] theorem units_ofString (s : String) : (ofString s).units = Text.units s.toList := by
  simp [ofString, units, Text.units, List.flatMap_map, Glyph.units]

def compare16 (s t : LooseText) : Ordering := Text.compareUnits s.units t.units

def trimmed (t : LooseText) : LooseText :=
  ⟨((t.glyphs.dropWhile Glyph.isBlank).reverse.dropWhile Glyph.isBlank).reverse⟩

def joined (separator : LooseText) : List LooseText → LooseText
  | [] => ⟨[]⟩
  | [t] => t
  | t :: rest => t ++ separator ++ joined separator rest

/-- The glyphs of the first `n` code units. A character that is cut leaves its first half. -/
def glyphsWithin : Nat → List Char → List Glyph
  | 0, _ => []
  | _, [] => []
  | n + 1, c :: s =>
    if c.toNat < 0x10000 then .char c :: glyphsWithin n s
    else
      match n with
      | 0 => ((Text.charUnits c).take 1).map .half
      | n + 1 => .char c :: glyphsWithin n s

def glimpse (n : Nat) (s : List Char) : LooseText := ⟨glyphsWithin n s⟩

example : glimpse 3 ['a', 'b', '😀', 'c'] = ⟨[.char 'a', .char 'b', .half 0xD83D]⟩ := by decide
example : compare16 ⟨[.half 0xD83D]⟩ "\uFFEE" = .lt := by decide

end LooseText

end Rulebook
