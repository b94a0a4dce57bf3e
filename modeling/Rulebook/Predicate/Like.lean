import Rulebook.Text.Loose
import Rulebook.Text.Regex

/-! Patterns of `LIKE`: a percent sign takes any run of code units, an underscore any one unit, and
every other unit itself. A pattern is written as a regular expression for the whole text. -/

namespace Rulebook.Like

def escaped : List Char := ".*+?^$\x7b\x7d()|[]\\".toList

def spell (c : Char) : List Char :=
  if c = '%' then ['.', '*']
  else if c = '_' then ['.']
  else if c ∈ escaped then ['\\', c]
  else [c]

def source (pattern : String) : List Char := '^' :: (pattern.toList.flatMap spell ++ ['$'])

def regex? (pattern : String) : Option Regex :=
  Regex.ofSource? true (Text.units (source pattern))

def holds (pattern : String) (text : LooseText) : Bool :=
  (regex? pattern).any (·.test text.units)

example : source "%a_(c" = "^.*a.\\(c$".toList := by decide
example : holds "%a_c%" "xxabc" = true ∧ holds "a.c" "abc" = false := by decide

end Rulebook.Like
