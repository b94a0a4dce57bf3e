import Rulebook.Number.Shortest
import Rulebook.Text.Digits

/-! Numbers as text, and plain decimals read from text. -/

namespace Rulebook.Number

/-- Where positional notation ends: values from `10^-6` up to below `10^21` are written without an
exponent. -/
structure Layout where
  greatest : Int
  least : Int
  deriving Repr

def layout : Layout := ⟨21, -6⟩

def exponentText (e : Int) : String :=
  (if e < 0 then "e-" else "e+") ++ toString e.natAbs

/-- A decimal as text: its shortest digits, with zeros up to the point, or one digit before the
point and an exponent. -/
def Decimal.text (d : Decimal) : String :=
  let digits := Nat.toDigits 10 d.digits
  let count : Int := digits.length
  let point := count + d.exponent
  if count ≤ point ∧ point ≤ layout.greatest then
    String.ofList (digits ++ List.replicate (point - count).toNat '0')
  else if 0 < point ∧ point ≤ layout.greatest then
    String.ofList (digits.take point.toNat ++ '.' :: digits.drop point.toNat)
  else if layout.least < point ∧ point ≤ 0 then
    String.ofList ('0' :: '.' :: List.replicate (-point).toNat '0' ++ digits)
  else
    match digits with
    | [] => ""
    | [d] => String.ofList [d] ++ exponentText (point - 1)
    | d :: rest => String.ofList (d :: '.' :: rest) ++ exponentText (point - 1)

def text : Number → String
  | .nan => "NaN"
  | .infinite negative => if negative then "-Infinity" else "Infinity"
  | .finite _ 0 => "0"
  | .finite negative units => (if negative then "-" else "") ++ (shortest units).text

structure Plain where
  negative : Bool
  whole : List Char
  fraction : List Char
  deriving DecidableEq, Repr

def Plain.value (p : Plain) : Number :=
  ofDecimal p.negative (Text.digitsValue (p.whole ++ p.fraction)) (-(p.fraction.length : Int))

def readUnsigned (negative : Bool) (s : List Char) : Option Plain :=
  match s.takeWhile Char.isDigit, s.dropWhile Char.isDigit with
  | [], _ => none
  | whole, [] => some ⟨negative, whole, []⟩
  | whole, '.' :: fraction =>
    if Text.isDigits fraction then some ⟨negative, whole, fraction⟩ else none
  | _, _ => none

/-- Plain decimals are `18`, `-1`, `3.5`: digits on both sides of a point, no exponent, no plus
sign, nothing around them. -/
def readPlain : List Char → Option Plain
  | '-' :: s => readUnsigned true s
  | s => readUnsigned false s

def isPlain (s : String) : Bool := (readPlain s.toList).isSome

def ofPlain? (s : String) : Option Number := (readPlain s.toList).map Plain.value

end Rulebook.Number
