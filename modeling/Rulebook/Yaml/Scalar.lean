import Rulebook.Value.Json
import Rulebook.Yaml.Lexing

/-! Scalars of YAML documents. A plain scalar that looks like `null`, a truth value or a number is
one; quoted scalars are always texts. Line breaks inside a scalar are folded. -/

namespace Rulebook.Yaml

def splitSign : List Char → Bool × List Char
  | '-' :: s => (true, s)
  | '+' :: s => (false, s)
  | s => (false, s)

def hexNumber? (s : List Char) : Option Nat :=
  if s.isEmpty then none
  else s.foldlM (fun n c => (Json.hexValue? c).map fun d => n * 16 + d) 0

def octalNumber? (s : List Char) : Option Nat :=
  if !s.isEmpty && s.all (fun c => c.isDigit && c ≤ '7') then
    some (s.foldl (fun n c => n * 8 + (c.toNat - '0'.toNat)) 0)
  else none

def exponent? : List Char → Option Int
  | [] => some 0
  | c :: s =>
    if c = 'e' ∨ c = 'E' then
      let (negative, digits) := splitSign s
      if Text.isDigits digits then some (Number.signed negative (Text.digitsValue digits)) else none
    else none

/-- Digits with a point before, between or behind them, or with none, and perhaps an exponent. -/
def decimal? (negative : Bool) (s : List Char) : Option Number :=
  let whole := s.takeWhile Char.isDigit
  let (fraction, rest) :=
    match s.dropWhile Char.isDigit with
    | '.' :: t => (t.takeWhile Char.isDigit, t.dropWhile Char.isDigit)
    | t => ([], t)
  if whole.isEmpty && fraction.isEmpty then none
  else
    (exponent? rest).map fun e =>
      .ofDecimal negative (Text.digitsValue (whole ++ fraction)) (e - (fraction.length : Int))

def number? (s : List Char) : Option Number :=
  match s with
  | '0' :: 'x' :: digits => (hexNumber? digits).map .ofNat
  | '0' :: 'o' :: digits => (octalNumber? digits).map .ofNat
  | chars =>
    let (negative, rest) := splitSign chars
    if [".inf", ".Inf", ".INF"].contains (String.ofList rest) then some (.infinite negative)
    else if [".nan", ".NaN", ".NAN"].contains (String.ofList chars) then some .nan
    else decimal? negative rest

def plainValue (s : List Char) : Value :=
  let text := String.ofList s
  if ["", "~", "null", "Null", "NULL"].contains text then .null
  else if ["true", "True", "TRUE"].contains text then .bool true
  else if ["false", "False", "FALSE"].contains text then .bool false
  else
    match number? s with
    | some n => .number n
    | none => .text text

def isReserved (c : Char) : Bool := "\t,%|>@\x60".toList.contains c

def trimGaps (s : List Char) : List Char := (s.reverse.dropWhile isGap).reverse

def linesOf : List Char → List (List Char)
  | [] => [[]]
  | '\r' :: '\n' :: s => [] :: linesOf s
  | '\n' :: s => [] :: linesOf s
  | c :: s =>
    match linesOf s with
    | line :: lines => (c :: line) :: lines
    | [] => [[c]]

/-- Joins the lines behind the first one to it: a line break becomes a space, and more of them
together one less than they are. The blanks around line breaks are dropped. -/
def foldFrom (joint : List Char) : List (List Char) → List Char
  | [] => []
  | [last] => joint ++ last.dropWhile isGap
  | line :: lines =>
    match trimGaps (line.dropWhile isGap) with
    | [] => if joint = ['\n'] then '\n' :: foldFrom ['\n'] lines else foldFrom ['\n'] lines
    | content => joint ++ content ++ foldFrom [' '] lines

def foldLines (s : List Char) : List Char :=
  match linesOf s with
  | first :: next :: lines => trimGaps first ++ foldFrom [' '] (next :: lines)
  | _ => s

def unquoteSingle : List Char → List Char
  | '\'' :: '\'' :: s => '\'' :: unquoteSingle s
  | c :: s => c :: unquoteSingle s
  | [] => []

def escaped? (c : Char) : Option Char :=
  match c with
  | '0' => some '\x00'
  | 'a' => some '\x07'
  | 'b' => some '\x08'
  | 'e' => some '\x1b'
  | 'f' => some '\x0c'
  | 'n' => some '\n'
  | 'r' => some '\r'
  | 't' => some '\t'
  | 'v' => some '\x0b'
  | 'N' => some '\u0085'
  | '_' => some '\u00a0'
  | 'L' => some '\u2028'
  | 'P' => some '\u2029'
  | ' ' => some ' '
  | '"' => some '"'
  | '/' => some '/'
  | '\\' => some '\\'
  | '\t' => some '\t'
  | _ => none

def codeWidth? : Char → Option Nat
  | 'x' => some 2
  | 'u' => some 4
  | 'U' => some 8
  | _ => none

/-- The characters and code units of a number. Numbers of half characters are units. -/
def pieceOf? (n : Nat) : Option Json.Piece :=
  if n < 0x10000 then some (.unit n)
  else if n < 0x110000 then some (.char (Char.ofNat n))
  else none

def skipBreaks : List Char → Nat × List Char
  | '\r' :: '\n' :: s => let (n, rest) := skipBreaks s; (n + 1, rest)
  | '\n' :: s => let (n, rest) := skipBreaks s; (n + 1, rest)
  | c :: s => if isGap c then skipBreaks s else (0, c :: s)
  | [] => (0, [])

def afterBreak (s : List Char) : List Json.Piece × List Char :=
  let (n, rest) := skipBreaks s
  (if n = 0 then [.char ' '] else List.replicate n (.char '\n'), rest)

/-- The pieces of a double-quoted scalar, read from what its quotes hold. `last` is the closing
quote, which a backslash at the end is read with. -/
def readDouble (last : List Char) : Nat → List Char → Option (List Json.Piece)
  | 0, _ => none
  | _, [] => some []
  | fuel + 1, '\\' :: s =>
    match s ++ (if s.isEmpty then last else []) with
    | '\r' :: '\n' :: t => readDouble last fuel (t.dropWhile isGap)
    | '\n' :: t => readDouble last fuel (t.dropWhile isGap)
    | c :: t =>
      match codeWidth? c with
      | some width => do
        if t.length < width then none
        let piece ← pieceOf? (← hexNumber? (t.take width))
        return piece :: (← readDouble last fuel (t.drop width))
      | none => do
        let e ← escaped? c
        return .char e :: (← readDouble last fuel t)
    | [] => none
  | fuel + 1, c :: s =>
    if breakWidth (c :: s) != 0 then
      let (pieces, rest) := afterBreak ((c :: s).drop (breakWidth (c :: s)))
      (readDouble last fuel rest).map (pieces ++ ·)
    else if isGap c then
      let gap := c :: s.takeWhile isGap
      let rest := s.dropWhile isGap
      (readDouble last fuel rest).map fun pieces =>
        if breakWidth rest != 0 then pieces else gap.map .char ++ pieces
    else (readDouble last fuel s).map (.char c :: ·)

def inside? (quote : Char) (source : List Char) : Option (List Char) :=
  if 1 < source.length ∧ source.getLast? = some quote then some source.tail.dropLast else none

def scalarValue? (mark : Mark) (source : List Char) : Option Value :=
  match mark with
  | .single => do
    let s ← inside? '\'' source
    return .text (String.ofList (unquoteSingle (foldLines s)))
  | .double => do
    let s ← inside? '"' source
    let pieces ← readDouble ['"'] (s.length + 1) s
    return .text ⟨Json.joinPieces pieces⟩
  | _ => if source.head?.any isReserved then none else some (plainValue (foldLines source))

end Rulebook.Yaml
