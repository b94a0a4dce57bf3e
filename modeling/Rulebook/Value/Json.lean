import Rulebook.Value.Basic

/-! JSON texts: a reader for exactly the texts of the JSON grammar, and a printer, on one line or
with two spaces for each level. Halves of characters are read from escapes and written as such. -/

namespace Rulebook.Json
open Value

def isSpace (c : Char) : Bool := c == ' ' || c == '\t' || c == '\n' || c == '\r'

def skipSpace (s : List Char) : List Char := s.dropWhile isSpace

/-- What a string is written with: characters, and code units given by their number. -/
inductive Piece where
  | char (c : Char)
  | unit (n : Nat)
  deriving DecidableEq, Repr

def hexValue? (c : Char) : Option Nat :=
  if c.isDigit then some (c.toNat - '0'.toNat)
  else if 'a' ≤ c ∧ c ≤ 'f' then some (c.toNat - 'a'.toNat + 10)
  else if 'A' ≤ c ∧ c ≤ 'F' then some (c.toNat - 'A'.toNat + 10)
  else none

def hex4? (a b c d : Char) : Option Nat := do
  return (((← hexValue? a) * 16 + (← hexValue? b)) * 16 + (← hexValue? c)) * 16 + (← hexValue? d)

def escaped? : Char → Option Char
  | '"' => some '"'
  | '\\' => some '\\'
  | '/' => some '/'
  | 'b' => some '\x08'
  | 'f' => some '\x0c'
  | 'n' => some '\n'
  | 'r' => some '\r'
  | 't' => some '\t'
  | _ => none

def readPieces : List Char → Option (List Piece × List Char)
  | [] => none
  | '"' :: rest => some ([], rest)
  | '\\' :: 'u' :: a :: b :: c :: d :: rest => do
    let n ← hex4? a b c d
    let (pieces, rest) ← readPieces rest
    return (.unit n :: pieces, rest)
  | '\\' :: c :: rest => do
    let e ← escaped? c
    let (pieces, rest) ← readPieces rest
    return (.char e :: pieces, rest)
  | c :: rest =>
    if c.toNat < 0x20 then none
    else do
      let (pieces, rest) ← readPieces rest
      return (.char c :: pieces, rest)

def isHigh (n : Nat) : Bool := 0xD800 ≤ n && n < 0xDC00

def isLow (n : Nat) : Bool := 0xDC00 ≤ n && n < 0xE000

def unitGlyph (n : Nat) : Glyph :=
  if isHigh n || isLow n then .half (UInt16.ofNat n) else .char (Char.ofNat n)

/-- Joins the two halves of a character where both stand side by side. -/
def joinPieces : List Piece → List Glyph
  | [] => []
  | .char c :: rest => .char c :: joinPieces rest
  | .unit h :: .unit l :: rest =>
    if isHigh h && isLow l then
      .char (Char.ofNat (0x10000 + (h - 0xD800) * 0x400 + (l - 0xDC00))) :: joinPieces rest
    else unitGlyph h :: joinPieces (.unit l :: rest)
  | .unit n :: rest => unitGlyph n :: joinPieces rest

def readString (s : List Char) : Option (LooseText × List Char) :=
  (readPieces s).map fun p => (⟨joinPieces p.1⟩, p.2)

def takeDigits (s : List Char) : List Char × List Char :=
  (s.takeWhile Char.isDigit, s.dropWhile Char.isDigit)

/-- Reads what may follow the whole part: a point and at least one digit. -/
def readFraction : List Char → Option (List Char × List Char)
  | '.' :: s =>
    match takeDigits s with
    | ([], _) => none
    | found => some found
  | s => some ([], s)

def readExponentDigits (negative : Bool) (s : List Char) : Option (Int × List Char) :=
  match takeDigits s with
  | ([], _) => none
  | (digits, rest) => some (Number.signed negative (Text.digitsValue digits), rest)

/-- Reads what may follow the fraction: `e`, a sign or none, and at least one digit. -/
def readExponent : List Char → Option (Int × List Char)
  | c :: s =>
    if c = 'e' ∨ c = 'E' then
      match s with
      | '-' :: s => readExponentDigits true s
      | '+' :: s => readExponentDigits false s
      | s => readExponentDigits false s
    else some (0, c :: s)
  | [] => some (0, [])

/-- Reads a number without its sign. A whole part of several digits does not begin with `0`. -/
def readUnsigned (negative : Bool) (s : List Char) : Option (Number × List Char) := do
  let (whole, s) ←
    match s with
    | '0' :: s => some (['0'], s)
    | s =>
      match takeDigits s with
      | ([], _) => none
      | found => some found
  let (fraction, s) ← readFraction s
  let (exponent, s) ← readExponent s
  return (.ofDecimal negative (Text.digitsValue (whole ++ fraction))
    (exponent - (fraction.length : Int)), s)

def readNumber : List Char → Option (Number × List Char)
  | '-' :: s => readUnsigned true s
  | s => readUnsigned false s

mutual

/-- Reads one value at the beginning of a text. The first argument bounds the depth and length of
what is read. -/
def readValue : Nat → List Char → Option (Value × List Char)
  | 0, _ => none
  | fuel + 1, s =>
    match s with
    | 'n' :: 'u' :: 'l' :: 'l' :: s => some (.null, s)
    | 't' :: 'r' :: 'u' :: 'e' :: s => some (.bool true, s)
    | 'f' :: 'a' :: 'l' :: 's' :: 'e' :: s => some (.bool false, s)
    | '"' :: s => (readString s).map fun p => (.text p.1, p.2)
    | '[' :: s =>
      match skipSpace s with
      | ']' :: s => some (.list [], s)
      | s => (readItems fuel s).map fun p => (.list p.1, p.2)
    | '\x7b' :: s =>
      match skipSpace s with
      | '\x7d' :: s => some (.record [], s)
      | s => (readFields fuel s).map fun p => (.record (fieldsOf p.1), p.2)
    | s => (readNumber s).map fun p => (.number p.1, p.2)

def readItems : Nat → List Char → Option (List Value × List Char)
  | 0, _ => none
  | fuel + 1, s => do
    let (item, s) ← readValue fuel s
    match skipSpace s with
    | ']' :: s => return ([item], s)
    | ',' :: s =>
      let (items, s) ← readItems fuel (skipSpace s)
      return (item :: items, s)
    | _ => none

def readFields : Nat → List Char → Option (List (LooseText × Value) × List Char)
  | 0, _ => none
  | fuel + 1, s =>
    match s with
    | '"' :: s => do
      let (key, s) ← readString s
      match skipSpace s with
      | ':' :: s =>
        let (value, s) ← readValue fuel (skipSpace s)
        match skipSpace s with
        | '\x7d' :: s => return ([(key, value)], s)
        | ',' :: s =>
          let (fields, s) ← readFields fuel (skipSpace s)
          return ((key, value) :: fields, s)
        | _ => none
      | _ => none
    | _ => none

end

def read? (text : String) : Option Value :=
  let s := text.toList
  match readValue (s.length + 1) (skipSpace s) with
  | some (value, rest) => if (skipSpace rest).isEmpty then some value else none
  | none => none

def hexDigits4 (n : Nat) : List Char :=
  let digits := Nat.toDigits 16 n
  List.replicate (4 - digits.length) '0' ++ digits

/-- A character inside a string. Quote, backslash and the controls below U+0020 are escaped. -/
def escapeChar (c : Char) : List Char :=
  match c with
  | '"' => ['\\', '"']
  | '\\' => ['\\', '\\']
  | '\x08' => ['\\', 'b']
  | '\x0c' => ['\\', 'f']
  | '\n' => ['\\', 'n']
  | '\r' => ['\\', 'r']
  | '\t' => ['\\', 't']
  | c => if c.toNat < 0x20 then '\\' :: 'u' :: hexDigits4 c.toNat else [c]

/-- A half of a character is written as the escape of its number. -/
def escapeGlyph : Glyph → List Char
  | .char c => escapeChar c
  | .half u => '\\' :: 'u' :: hexDigits4 u.toNat

def quoted (t : LooseText) : String :=
  "\"" ++ String.ofList (t.glyphs.flatMap escapeGlyph) ++ "\""

def numberText : Number → String
  | .finite negative units => (Number.finite negative units).text
  | _ => "null"

/-- How a container is laid out: on one line, or one part a line at a depth. -/
inductive Layout where
  | line
  | indented (depth : Nat)
  deriving Repr

def Layout.deeper : Layout → Layout
  | .line => .line
  | .indented depth => .indented (depth + 1)

def Layout.colon : Layout → String
  | .line => ":"
  | .indented _ => ": "

def newline (depth : Nat) : String := "\n" ++ String.ofList (List.replicate (2 * depth) ' ')

/-- Puts parts between brackets; without parts the brackets stand together. -/
def Layout.enclose (layout : Layout) (opening closing : String) (parts : List String) : String :=
  match layout, parts with
  | _, [] => opening ++ closing
  | .line, parts => opening ++ String.intercalate "," parts ++ closing
  | .indented depth, parts =>
    opening ++ newline (depth + 1) ++
      String.intercalate ("," ++ newline (depth + 1)) parts ++ newline depth ++ closing

mutual

def write (layout : Layout) : Value → String
  | .null => "null"
  | .bool b => if b then "true" else "false"
  | .number n => numberText n
  | .text t => quoted t
  | .list items => layout.enclose "[" "]" (writeItems layout.deeper items)
  | .record fields => layout.enclose "\x7b" "\x7d" (writeFields layout.deeper fields)

def writeItems (layout : Layout) : List Value → List String
  | [] => []
  | item :: items => write layout item :: writeItems layout items

def writeFields (layout : Layout) : List (LooseText × Value) → List String
  | [] => []
  | (key, value) :: fields =>
    (quoted key ++ layout.colon ++ write layout value) :: writeFields layout fields

end

def compact (v : Value) : String := write .line v

def pretty (v : Value) : String := write (.indented 0) v

end Rulebook.Json
