/-! Decimal digits. -/

namespace Rulebook.Text

def digitsValue (s : List Char) : Nat :=
  s.foldl (fun n c => n * 10 + (c.toNat - '0'.toNat)) 0

def isDigits (s : List Char) : Bool := !s.isEmpty && s.all Char.isDigit

end Rulebook.Text
