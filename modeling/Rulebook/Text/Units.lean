/-! UTF-16 code units. A text is measured, cut and ordered by them: characters beyond U+FFFF
count twice, and stand before U+E000 in the order. -/

namespace Rulebook.Text

def charUnits (c : Char) : List UInt16 :=
  let n := c.toNat
  if n < 0x10000 then [UInt16.ofNat n]
  else
    [UInt16.ofNat (0xD800 + (n - 0x10000) / 0x400), UInt16.ofNat (0xDC00 + (n - 0x10000) % 0x400)]

def units (s : List Char) : List UInt16 := s.flatMap charUnits

@[simp] theorem units_nil : units [] = [] := rfl

@[simp] theorem units_append (s t : List Char) : units (s ++ t) = units s ++ units t := by
  simp [units]

def unitCount (s : List Char) : Nat := (units s).length

@[simp] theorem unitCount_append (s t : List Char) :
    unitCount (s ++ t) = unitCount s + unitCount t := by
  simp [unitCount]

def compareUnits : List UInt16 → List UInt16 → Ordering
  | [], [] => .eq
  | [], _ :: _ => .lt
  | _ :: _, [] => .gt
  | a :: s, b :: t => (compare a b).then (compareUnits s t)

def replacement : Char := '\uFFFD'

example : compareUnits [0xFFFF] (charUnits '😀') = .gt := by decide

end Rulebook.Text
