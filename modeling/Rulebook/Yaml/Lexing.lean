import Rulebook.Yaml.Lexeme

/-! YAML texts as lexemes: block mappings and lists, bracketed ones, plain and quoted scalars,
comments, and the lines `---` and `...` around a document. Anchors, aliases, tags, directives and
block scalars are refused. -/

namespace Rulebook.Yaml

def isGap (c : Char) : Bool := c == ' ' || c == '\t'

def isVacant (c : Char) : Bool := isGap c || c == '\n' || c == '\r'

def isOpen : List Char → Bool
  | [] => true
  | c :: _ => isVacant c

def isFlowMark (c : Char) : Bool := "[]\x7b\x7d,".toList.contains c

/-- Whether a block mark in front of these characters stands for itself. -/
def standsAlone (inFlow : Bool) : List Char → Bool
  | [] => true
  | c :: _ => isVacant c || (inFlow && isFlowMark c)

def isFence (c : Char) (s : List Char) : Bool := s.take 3 == [c, c, c] && isOpen (s.drop 3)

def breakWidth : List Char → Nat
  | '\n' :: _ => 1
  | '\r' :: '\n' :: _ => 2
  | _ => 0

def endsLine (s : List Char) : Bool := s.isEmpty || breakWidth s != 0

def lineWidth : List Char → Nat
  | [] => 0
  | c :: s => if endsLine (c :: s) then 0 else lineWidth s + 1

/-- The text behind lines that hold only blanks or a comment, and whether an order mark stands
directly in front of it. -/
def skipQuiet : Nat → List Char → Bool × List Char
  | 0, s => (false, s)
  | fuel + 1, s =>
    let (marked, t) := match s with
      | '\uFEFF' :: t => (true, t)
      | t => (false, t)
    let u := t.dropWhile isGap
    let v := if u.head? = some '#' then u.drop (lineWidth u) else u
    if v.isEmpty then (false, [])
    else if breakWidth v != 0 then skipQuiet fuel (v.drop (breakWidth v))
    else (marked, t)

/-- Reads over a text from left to right. `minimum` is the least indentation that goes on with a
scalar, `indent` that of the collection the line is in, `depth` the number of open brackets, and
`keyRead` says that a quoted scalar or closed bracket may be a key. -/
structure Scanner where
  rest : List Char
  found : List (Mark × List Char)
  minimum : Nat
  indent : Nat
  depth : Nat
  keyRead : Bool
  deriving Repr

namespace Scanner

def start (s : List Char) : Scanner := ⟨s, [], 0, 0, 0, false⟩

def take (s : Scanner) (mark : Mark) (n : Nat) : Scanner :=
  { s with rest := s.rest.drop n, found := (mark, s.rest.take n) :: s.found }

def takeSome (s : Scanner) (mark : Mark) (n : Nat) : Scanner := if n = 0 then s else s.take mark n

def gapWidth (s : Scanner) : Nat := (s.rest.takeWhile isGap).length

def spaceWidth (s : Scanner) : Nat := (s.rest.takeWhile (· == ' ')).length

def gaps (s : Scanner) : Scanner := s.takeSome .gap s.gapWidth

def lineBreak (s : Scanner) : Scanner := s.takeSome .lineBreak (breakWidth s.rest)

def inFlow (s : Scanner) : Bool := s.depth != 0

def blockMark? : Char → Option Mark
  | '-' => some .dash
  | '?' => some .question
  | ':' => some .colon
  | _ => none

def nextBlockMark? (s : Scanner) : Option Mark :=
  match s.rest with
  | c :: rest => if standsAlone s.inFlow rest then blockMark? c else none
  | [] => none

/-- The block marks at the beginning of a line, each a step further in. -/
def lineMarks : Nat → Scanner → Scanner
  | 0, s => s
  | fuel + 1, s =>
    match s.rest with
    | c :: rest =>
      match if isOpen rest then blockMark? c else none with
      | some mark =>
        let t := s.take mark 1
        lineMarks fuel { t.gaps with minimum := s.indent + 1, indent := s.indent + 1 + t.gapWidth }
      | none => s
    | [] => s

def innerMarks : Nat → Scanner → Scanner
  | 0, s => s
  | fuel + 1, s =>
    match s.nextBlockMark? with
    | some mark =>
      let t := (s.take mark 1).gaps
      innerMarks fuel
        (if s.inFlow then { t with keyRead := false } else { t with minimum := s.indent + 1 })
    | none => s

/-- Reads the beginning of a line: the fence that ends a document, with blanks and comments alone
behind it, or the one that begins it, or spaces and block marks. -/
def lineStart (s : Scanner) : Option Scanner :=
  if isFence '.' s.rest then
    if (skipQuiet s.rest.length (s.rest.drop 3)).2.isEmpty then some { s with rest := [] } else none
  else if isFence '-' s.rest then
    some { s.take .documentStart 3 with minimum := 0, indent := 0 }
  else
    let width := s.spaceWidth
    let t := { s.takeSome .gap width with indent := width }
    let t := if width < t.minimum && !isOpen t.rest.tail then { t with minimum := width } else t
    some (t.lineMarks t.rest.length)

def continues (minimum : Nat) (s : List Char) : Bool :=
  if minimum = 0 then !(isFence '-' s || isFence '.' s)
  else
    let width := (s.takeWhile (· == ' ')).length
    breakWidth (s.drop width) != 0 || minimum ≤ width

/-- Whether a plain scalar ends in front of these characters when a blank stands before them. -/
def endsBlank (inFlow : Bool) : List Char → Bool
  | [] => false
  | c :: _ => c == '#' || (inFlow && isFlowMark c)

/-- The width of the plain scalar at this place: `seen` characters were gone over, `width` of them
up to the last one that belongs to it. -/
def plainWidth (inFlow : Bool) (minimum : Nat) (seen width : Nat) : List Char → Nat
  | [] => width
  | '\r' :: '\n' :: s =>
    if endsBlank inFlow s || !continues minimum s then width
    else plainWidth inFlow minimum (seen + 2) width s
  | '\n' :: s =>
    if endsBlank inFlow s || !continues minimum s then width
    else plainWidth inFlow minimum (seen + 1) width s
  | '\r' :: s =>
    if endsBlank inFlow s then seen + 1 else plainWidth inFlow minimum (seen + 1) (seen + 1) s
  | c :: s =>
    if isGap c then
      if endsBlank inFlow s then width else plainWidth inFlow minimum (seen + 1) width s
    else if (c == ':' && standsAlone inFlow s) || (inFlow && isFlowMark c) then width
    else plainWidth inFlow minimum (seen + 1) (seen + 1) s

def plain (s : Scanner) : Scanner := s.take .plain (plainWidth s.inFlow s.minimum 0 0 s.rest)

def singleWidth? : List Char → Option Nat
  | [] => none
  | '\'' :: '\'' :: s => (singleWidth? s).map (· + 2)
  | '\'' :: _ => some 1
  | _ :: s => (singleWidth? s).map (· + 1)

def doubleWidth? : List Char → Option Nat
  | [] => none
  | '\\' :: _ :: s => (doubleWidth? s).map (· + 2)
  | '"' :: _ => some 1
  | _ :: s => (doubleWidth? s).map (· + 1)

/-- The width of a quoted scalar up to the first line it does not go on in. -/
def cutWidth (minimum : Nat) : Nat → List Char → Nat
  | 0, _ => 0
  | _, [] => 0
  | n + 1, c :: s =>
    let width := breakWidth (c :: s)
    if width != 0 && !continues minimum (s.drop (width - 1)) then 0
    else cutWidth minimum n s + 1

/-- A quoted scalar. One that is never closed takes the whole text that is left. -/
def quoted (s : Scanner) (mark : Mark) (width? : Option Nat) : Scanner :=
  match width? with
  | none => s.take mark s.rest.length
  | some n => s.take mark (cutWidth s.minimum (n + 1) s.rest)

def blockStep (s : Scanner) : Option Scanner :=
  let t := s.gaps
  let t := t.innerMarks t.rest.length
  match t.rest with
  | [] => some t
  | '#' :: _ => (t.take .comment (lineWidth t.rest)).lineBreak.lineStart
  | '[' :: _ => some { t.take .openList 1 with keyRead := false, depth := 1 }
  | '\x7b' :: _ => some { t.take .openMap 1 with keyRead := false, depth := 1 }
  | '"' :: rest => some (t.quoted .double (doubleWidth? rest))
  | '\'' :: rest => some (t.quoted .single (singleWidth? rest))
  | c :: _ =>
    if breakWidth t.rest != 0 then t.lineBreak.lineStart
    else if "]\x7d&*!|>".toList.contains c then none
    else some t.plain

def flowBlanks : Nat → Option Nat → Scanner → Option Nat × Scanner
  | 0, indent, s => (indent, s)
  | fuel + 1, indent, s =>
    if breakWidth s.rest != 0 then
      let t := s.lineBreak
      flowBlanks fuel (some t.spaceWidth)
        { (t.takeSome .gap t.spaceWidth).gaps with indent := t.spaceWidth }
    else if s.gapWidth != 0 then flowBlanks fuel indent s.gaps
    else (indent, s)

def commas : Nat → Scanner → Scanner
  | 0, s => s
  | fuel + 1, s =>
    match s.rest with
    | ',' :: _ => commas fuel { (s.take .comma 1).gaps with keyRead := false }
    | _ => s

/-- Whether a line inside brackets is not far enough in. The bracket that closes the outermost one
may stand as far in as the collection around it. -/
def isOutside (s : Scanner) (indent : Nat) : Bool :=
  let closes := indent + 1 = s.minimum && s.depth == 1 &&
    (s.rest.head? == some ']' || s.rest.head? == some '\x7d')
  ((indent < s.minimum && s.rest.head? != some '#') ||
    (indent == 0 && (isFence '-' s.rest || isFence '.' s.rest))) && !closes

def flowStep (s : Scanner) : Option Scanner :=
  let (indent, t) := flowBlanks (s.rest.length + 1) none s
  if indent.any t.isOutside then none
  else
    let t := t.commas t.rest.length
    let t := t.innerMarks t.rest.length
    match t.rest with
    | [] => some t
    | '#' :: _ => some (t.take .comment (lineWidth t.rest))
    | '[' :: _ => some { t.take .openList 1 with keyRead := false, depth := t.depth + 1 }
    | '\x7b' :: _ => some { t.take .openMap 1 with keyRead := false, depth := t.depth + 1 }
    | ']' :: _ => some { t.take .closeList 1 with keyRead := true, depth := t.depth - 1 }
    | '\x7d' :: _ => some { t.take .closeMap 1 with keyRead := true, depth := t.depth - 1 }
    | '"' :: rest => some { t.quoted .double (doubleWidth? rest) with keyRead := true }
    | '\'' :: rest => some { t.quoted .single (singleWidth? rest) with keyRead := true }
    | c :: rest =>
      if breakWidth t.rest != 0 then some t
      else if "&*!".toList.contains c then none
      else if c == ':' && (t.keyRead || isOpen rest || rest.head? == some ',') then
        some { (t.take .colon 1).gaps with keyRead := false }
      else some { t.plain with keyRead := false }

/-- Reads to the end of the text. Every step takes a character, so `fuel` is how many there are. -/
def toEnd (fuel : Nat) (s : Scanner) : Option (List (Mark × List Char)) :=
  if s.rest.isEmpty then some s.found.reverse
  else
    match fuel with
    | 0 => none
    | fuel + 1 => do toEnd fuel (← if s.inFlow then s.flowStep else s.blockStep)

end Scanner

/-- The lexemes of a document. An order mark in front of it is dropped, but the line behind it
counts as begun. -/
def lexemes? (text : String) : Option (List Lexeme) := do
  let (marked, s) := skipQuiet (text.length + 1) text.toList
  let found ← (← (Scanner.start s).lineStart).toEnd s.length
  place ⟨0, 0, !marked⟩ true found

end Rulebook.Yaml
