import Rulebook.Text.Loose

/-! Lists of values kept as one text, with commas between them. -/

namespace Rulebook

namespace LooseText

/-- The parts between commas. A text without commas is one part. -/
def commaParts (t : LooseText) : List LooseText := (t.glyphs.splitOn (.char ',')).map .mk

def commaMembers (t : LooseText) : List LooseText := t.commaParts.map trimmed

example : commaParts "a,,b" = ["a", "", "b"].map ofString := by decide
example : commaParts "" = [ofString ""] := by decide

end LooseText

def Text.joinCommas (parts : List String) : String := String.intercalate "," parts

end Rulebook
