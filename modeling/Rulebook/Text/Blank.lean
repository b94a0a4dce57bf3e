/-! Blank characters, and the texts left when they are dropped from the ends. -/

namespace Rulebook.Text

def isBlank (c : Char) : Bool :=
  let n := c.toNat
  (0x9 ≤ n && n ≤ 0xD) || n == 0x20 || n == 0xA0 || n == 0x1680 ||
    (0x2000 ≤ n && n ≤ 0x200A) || n == 0x2028 || n == 0x2029 || n == 0x202F ||
    n == 0x205F || n == 0x3000 || n == 0xFEFF

def trimStart (s : List Char) : List Char := s.dropWhile isBlank

def trimEnd (s : List Char) : List Char := (s.reverse.dropWhile isBlank).reverse

def trim (s : List Char) : List Char := trimEnd (trimStart s)

def leadingBlanks (s : List Char) : List Char := s.takeWhile isBlank

theorem leadingBlanks_append_trimStart (s : List Char) : leadingBlanks s ++ trimStart s = s :=
  List.takeWhile_append_dropWhile

def trimmed (s : String) : String := String.ofList (trim s.toList)

example : trimmed "\t a b \r\n" = "a b" := by decide

end Rulebook.Text
