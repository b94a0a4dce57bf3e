import Rulebook.RulesFile.Basic
import Rulebook.Yaml.Nesting
import Rulebook.Yaml.Scalar

/-! The value of a document: the scalars, records and lists of its outline. Tabs at the beginning
of lines, marks at the wrong places and repeated keys are refused. The reader that the program runs
with takes such documents, and days with their tag. -/

namespace Rulebook.Yaml

/-- The text a key is kept under; a `null` key is the empty one. -/
def keyText : Value → LooseText
  | .null => ""
  | .list items => Json.compact (.list items)
  | .record fields => Json.compact (.record fields)
  | v => v.display.toOption.getD ""

def sameKey : Value → Value → Bool
  | .null, .null => true
  | .bool a, .bool b => a == b
  | .number a, .number b => a.equal b
  | .text a, .text b => a == b
  | _, _ => false

def record? (fields : List (Value × Value)) : Option Value :=
  if distinct fields then
    some (.record (Value.fieldsOf (fields.map fun f => (keyText f.1, f.2))))
  else none
where
  distinct : List (Value × Value) → Bool
    | [] => true
    | (key, _) :: rest => !rest.any (fun f => sameKey key f.1) && distinct rest

/-- What stands in front of a node: the mark that announces it, a comma, and whether there is a line
break. `fresh` and `tab` are about the place reached: whether it is at the beginning of a line, and
a gap with a tab directly in front of it. -/
structure Lead where
  found : Option Lexeme := none
  comma : Bool := false
  broken : Bool := false
  fresh : Bool
  tab : Option Lexeme := none
  deriving Repr

namespace Lead

/-- Adds a lexeme. In a block a tab at the beginning of a line stands only in front of a comment or
the end of the line. -/
def add (announcer : Mark) (inFlow : Bool) (l : Lead) (x : Lexeme) : Option Lead :=
  if l.tab.isSome && l.fresh && x.mark != .comment && x.mark != .lineBreak then none
  else
    match x.mark with
    | .gap => some { l with tab := if x.hasTab && !inFlow then some x else none }
    | .comment => some { l with tab := none, fresh := false }
    | .lineBreak => some { l with tab := none, fresh := true, broken := true }
    | mark =>
      if mark = announcer then
        if l.found.isSome then none
        else
          some { l with
            tab := none, found := some x, fresh := mark = .dash || mark = .question }
      else if mark = .comma ∧ inFlow ∧ !l.comma then
        some { l with tab := none, comma := true, fresh := false }
      else none

def ofBlock? (announcer : Mark) (indent : Nat) (fresh : Bool) (next : Option Outline)
    (xs : List Lexeme) : Option Lead := do
  let l ← xs.foldlM (add announcer false) { fresh := fresh }
  if l.tab.any fun x => (l.fresh && x.indent ≤ indent) || next.any Outline.isBlock then none
  else return l

def ofFlow? (announcer : Mark) (xs : List Lexeme) : Option Lead :=
  xs.foldlM (add announcer true) { fresh := false }

end Lead

def hasBreak (xs : List Lexeme) : Bool := xs.any (·.mark == .lineBreak)

mutual

def spansLines : Outline → Bool
  | .scalar head tail => head.text.contains '\n' || hasBreak tail
  | .flow _ entries _ => entriesSpan entries
  | .map .. => true
  | .list .. => true

def entriesSpan : List (Entry Outline) → Bool
  | [] => false
  | ⟨before, _, key, between, value⟩ :: rest =>
    hasBreak before || between.any hasBreak || optionSpans key || optionSpans value ||
      entriesSpan rest

def optionSpans : Option Outline → Bool
  | none => false
  | some o => spansLines o

end

/-- A key that no question mark announces has at most 1024 code units up to its colon. -/
def isLongKey (start : Nat) (colon : Lexeme) : Bool := start + 1024 < colon.offset

def entryStart (before : List Lexeme) (key : Option Outline) (colon : Lexeme) : Nat :=
  match before.getLast?, key with
  | some x, _ => x.stop
  | none, some key => key.offset
  | none, none => colon.offset

mutual

def valueOf : Outline → Option Value
  | .scalar head _ => scalarValue? head.mark head.text
  | .map offset indent entries => do record? (← mapFields indent (some offset) entries)
  | .list _ indent entries => (listItems indent entries).map .list
  | .flow opening entries closing =>
    if opening.mark = .openMap then
      if closing.head?.any (·.mark == .closeMap) then do record? (← flowFields true entries)
      else none
    else if closing.head?.any (·.mark == .closeList) then (flowItems true entries).map .list
    else none

def optionValue : Option Outline → Option Value
  | none => some .null
  | some o => valueOf o

/-- The fields of a mapping `indent` wide. The first entry begins at `first`. Silent entries stand
only at the end. -/
def mapFields (indent : Nat) (first : Option Nat) :
    List (Entry Outline) → Option (List (Value × Value))
  | [] => some []
  | ⟨before, _, key, between, value⟩ :: rest => do
    let lead ← Lead.ofBlock? .question indent true key before
    let implicit := lead.found.isNone
    if implicit && between.isNone then
      if rest.all Entry.isSilent then mapFields indent none rest else none
    else do
      if implicit && key.any (fun k => k.isList || k.indent != indent || spansLines k) then none
      if lead.found.any (·.indent != indent) then none
      let name ← optionValue key
      let link ← Lead.ofBlock? .colon indent key.isNone value (between.getD [])
      match link.found with
      | some colon => do
        let start := match before, first with
          | [], some offset => offset
          | _, _ => entryStart before key colon
        if implicit && (value.any Outline.isMap && !link.broken || isLongKey start colon) then none
        let v ← optionValue value
        return (name, v) :: (← mapFields indent none rest)
      | none => if implicit then none else return (name, .null) :: (← mapFields indent none rest)

def listItems (indent : Nat) : List (Entry Outline) → Option (List Value)
  | [] => some []
  | ⟨before, _, _, _, value⟩ :: rest => do
    let lead ← Lead.ofBlock? .dash indent true value before
    if lead.found.isNone then if value.isSome then none else listItems indent rest
    else do
      let v ← optionValue value
      return v :: (← listItems indent rest)

def flowFields (isFirst : Bool) : List (Entry Outline) → Option (List (Value × Value))
  | [] => some []
  | ⟨before, _, key, between, value⟩ :: rest => do
    let lead ← Lead.ofFlow? .question before
    if lead.comma && isFirst then none
    else if lead.found.isNone && between.isNone then if rest.isEmpty then some [] else none
    else if !lead.comma && !isFirst then none
    else do
      let name ← optionValue key
      let link ← Lead.ofFlow? .colon (between.getD [])
      if link.found.isNone && value.isSome then none
      let v ← optionValue value
      return (name, v) :: (← flowFields false rest)

/-- The items between brackets. One with a colon is a record of one field. -/
def flowItems (isFirst : Bool) : List (Entry Outline) → Option (List Value)
  | [] => some []
  | ⟨before, _, key, between, value⟩ :: rest => do
    let lead ← Lead.ofFlow? .question before
    if lead.comma && isFirst then none
    else if lead.found.isNone && between.isNone then if rest.isEmpty then some [] else none
    else if !lead.comma && !isFirst then none
    else do
      let name ← optionValue key
      let link ← Lead.ofFlow? .colon (between.getD [])
      let v ← optionValue value
      let item ←
        match link.found with
        | some colon => do
          let line := (between.getD []).takeWhile (· != colon)
          if lead.found.isNone &&
              (optionSpans key || hasBreak line || isLongKey (entryStart before key colon) colon)
          then none
          record? [(name, v)]
        | none =>
          if value.isSome then none
          else if lead.found.isSome then record? [(name, .null)]
          else some name
      return item :: (← flowItems false rest)

end

/-- The value of a document with these lexemes in front of its root. A block collection does not
begin in the line of the fence. -/
def rootValue? (before : List Lexeme) (root : Option Outline) : Option Value := do
  let lead ←
    match root with
    | some (.flow ..) => before.foldlM (Lead.add .documentStart true) { fresh := true }
    | root => Lead.ofBlock? .documentStart 0 true root before
  if lead.found.isSome && root.any Outline.isBlock && !lead.broken then none else optionValue root

def read? (text : String) : Option Value := do
  let (before, root) ← outline? (← lexemes? text)
  rootValue? before root

def isDay (t : LooseText) : Bool :=
  match (t.string?.getD "").splitOn "-" with
  | [year, month, day] =>
    year.length == 4 && month.length ≤ 2 && day.length ≤ 2 &&
      [year, month, day].all fun digits => Text.isDigits digits.toList
  | _ => false

def readDay? (text : List Char) : Option Document :=
  match read? (String.ofList text) with
  | some (.text t) => if isDay t then some .other else none
  | _ => none

def readDocument? (text : String) : Option Document :=
  let tag := "!!timestamp ".toList
  if tag.isPrefixOf text.toList then readDay? (text.toList.drop tag.length)
  else (read? text).map .plain

def reader : DocumentReader := fun text =>
  match readDocument? text with
  | some d => .ok d
  | none => .error ⟨"YAMLParseError", "not a document of this form"⟩

end Rulebook.Yaml
