import Rulebook.Yaml.Outline

/-! The outline of a document, built from its lexemes one by one. The nodes that are still open
form a stack, and a lexeme goes to the innermost one that can take it; those above are closed. -/

namespace Rulebook.Yaml

abbrev Entries := List (Entry Outline)

/-- A node that is still open. The entries before the last one stand in reverse order. -/
inductive Frame where
  | scalar (head : Lexeme) (tail : List Lexeme)
  | map (offset indent : Nat) (done : Entries) (last : Entry Outline)
  | list (offset indent : Nat) (done : Entries) (last : Entry Outline)
  | flow (opening : Lexeme) (entries : Entries) (closing : List Lexeme)
  deriving Repr

inductive Move where
  /-- It took the lexeme. -/
  | keep (f : Frame)
  /-- A node opens inside it. -/
  | push (f child : Frame)
  /-- It took the lexeme and is complete. -/
  | finish (f : Frame)
  /-- It was complete before the lexeme. -/
  | leave (f : Frame)
  | refuse
  deriving Repr

/-- A move, and whether the line has a key from now on. -/
abbrev Turn := Move × Bool

namespace Frame

def outline : Frame → Outline
  | .scalar head tail => .scalar head tail
  | .map offset indent done last => .map offset indent (last :: done).reverse
  | .list offset indent done last => .list offset indent (last :: done).reverse
  | .flow opening entries closing => .flow opening entries.reverse closing

def ofKey (offset indent : Nat) (key : Option Outline) (between : List Lexeme) : Frame :=
  .map offset indent [] { key := key, between := some between }

def opened? (x : Lexeme) : Option Frame :=
  match x.mark with
  | .plain | .single | .double => some (.scalar x [])
  | .openList | .openMap => some (.flow x [] [])
  | .dash => some (.list x.offset x.indent [] { before := [x] })
  | .question => some (.map x.offset x.indent [] { before := [x], explicit := true })
  | .colon => some (ofKey x.offset x.indent none [x])
  | _ => none

def beginsMap (x : Lexeme) : Bool := x.mark = .question || x.mark = .colon

def hasMark (mark : Mark) (xs : List Lexeme) : Bool := xs.any (·.mark == mark)

def extendPrevious (done : Entries) (more : List Lexeme) : Option (Entry Outline × Entries) :=
  match done with
  | e :: rest =>
    match e.value with
    | some v => v.tail?.map fun _ => ({ e with value := some (v.addTail more) }, rest)
    | none => none
  | [] => none

def isInnerComment (x : Lexeme) (indent : Nat) (last : Entry Outline) : Bool :=
  x.mark = .comment && indent < x.indent && last.between.isNone &&
    last.before.all fun y => y.mark = .lineBreak || y.mark = .gap

/-- Takes a silent lexeme into the entries of a block collection. Behind a value it begins an entry
of its own, but the end of a comment line and a comment further in stay with the value. -/
def takeSilent (x : Lexeme) (indent : Nat) (done : Entries) (last : Entry Outline) :
    Entries × Entry Outline :=
  match last.value with
  | some v =>
    if x.mark = .lineBreak ∧ (v.tail?.bind List.getLast?).any (·.mark == .comment) then
      (done, { last with value := some (v.addTail [x]) })
    else (last :: done, { before := [x] })
  | none =>
    let isInner := isInnerComment x indent last
    match if isInner then extendPrevious done (last.before ++ [x]) else none with
    | some (previous, done) => (done, previous)
    | none => (done, last.addSilent x)

/-- A scalar that a colon follows on its line is the first key of a mapping. -/
def stepScalar (x : Lexeme) (head : Lexeme) (tail : List Lexeme) (inFlow onKeyLine : Bool) : Turn :=
  match x.mark with
  | .colon =>
    if inFlow then (.refuse, onKeyLine)
    else (.keep (ofKey head.offset head.indent (some (.scalar head tail)) (tail ++ [x])), true)
  | .gap | .comment => (.keep (.scalar head (tail ++ [x])), onKeyLine)
  | .lineBreak => (.finish (.scalar head (tail ++ [x])), false)
  | .comma | .closeList | .closeMap | .documentStart => (.leave (.scalar head tail), onKeyLine)
  | _ => (.refuse, onKeyLine)

/-- Where the blank lines behind a missing value end: the second of the line breaks that stand
together at the end. Comments further in than the mapping belong to the missing value. -/
def splitIndex? (indent : Nat) : (index : Nat) → (breaks : List Nat) → List Lexeme → Option Nat
  | _, breaks, [] => breaks[1]?
  | index, breaks, x :: rest =>
    splitIndex? indent (index + 1)
      (match x.mark with
        | .lineBreak => breaks ++ [index]
        | .gap => breaks
        | .comment => if indent < x.indent then [] else breaks
        | _ => [])
      rest

def splitBlankLines (indent : Nat) (e : Entry Outline) : Entry Outline × List Lexeme :=
  match e.between, e.value with
  | some between, none =>
    match splitIndex? indent 0 [] between with
    | some n => ({ e with between := some (between.take n) }, between.drop n)
    | none => (e, [])
  | _, _ => (e, [])

def explicitColon (x : Lexeme) (offset indent : Nat) (done : Entries) (last : Entry Outline)
    (blankLines : List Lexeme) : Move :=
  match last.between with
  | none =>
    if hasMark .lineBreak last.before then
      .keep (.map offset indent done { last with between := [x] })
    else .push (.map offset indent done last) (ofKey x.offset x.indent none [x])
  | some between =>
    if last.value.isSome then .keep (.map offset indent (last :: done) { between := [x] })
    else if hasMark .colon between then
      .push (.map offset indent done last)
        (.map x.offset x.indent [] { before := blankLines, between := [x] })
    else
      match last.key with
      | some key =>
        if !key.isBlock && !hasMark .lineBreak between then
          .push (.map offset indent done { last with key := none, between := none })
            (ofKey x.offset x.indent key (between ++ [x]))
        else
          .keep (.map offset indent done { last with between := between ++ blankLines ++ [x] })
      | none =>
        .keep (.map offset indent done { last with between := between ++ blankLines ++ [x] })

/-- Takes a lexeme that is at least as far in as the mapping. `atNext` says that it begins the next
entry, and `blankLines` are those in front of that. -/
def stepMapInside (x : Lexeme) (offset indent : Nat) (done : Entries) (last : Entry Outline)
    (atIndent atNext : Bool) (blankLines : List Lexeme) (onKeyLine : Bool) : Turn :=
  let map := Frame.map offset indent
  let isNew := atNext || last.value.isSome
  match x.mark with
  | .question =>
    if last.between.isNone && !last.explicit then
      (.keep (map done { last with before := last.before ++ [x], explicit := true }), true)
    else if isNew then
      (.keep (map (last :: done) { before := blankLines ++ [x], explicit := true }), true)
    else
      (.push (map done last)
        (.map x.offset x.indent [] { before := [x], explicit := true }), true)
  | .colon =>
    if last.explicit then (explicitColon x offset indent done last blankLines, true)
    else
      match last.between with
      | none => (.keep (map done { last with between := [x] }), true)
      | some between =>
        if isNew then
          (.keep (map (last :: done) { before := blankLines, between := [x] }), true)
        else if hasMark .colon between then
          (.push (map done last) (ofKey x.offset x.indent none [x]), true)
        else (.keep (map done { last with between := between ++ [x] }), true)
  | .plain | .single | .double =>
    let scalar := Outline.scalar x []
    if isNew then
      (.keep (map (last :: done) { before := blankLines, key := scalar, between := some [] }), true)
    else if last.between.isSome then (.push (map done last) (.scalar x []), onKeyLine)
    else (.keep (map done { last with key := scalar, between := some [] }), true)
  | .dash =>
    if !last.explicit && last.between.any (!hasMark .lineBreak ·) then (.refuse, onKeyLine)
    else (.push (map done last) (.list x.offset x.indent [] { before := [x] }), onKeyLine)
  | .openList | .openMap =>
    if atIndent then
      (.push (map (last :: done) { before := blankLines }) (.flow x [] []), onKeyLine)
    else (.push (map done last) (.flow x [] []), onKeyLine)
  | _ => (.refuse, onKeyLine)

def stepMap (x : Lexeme) (offset indent : Nat) (done : Entries) (last : Entry Outline)
    (onKeyLine : Bool) : Turn :=
  if x.isSilent then
    let (done, last) := takeSilent x indent done last
    (.keep (.map offset indent done last), onKeyLine && x.mark != .lineBreak)
  else if x.indent < indent then (.leave (.map offset indent done last), onKeyLine)
  else
    let atIndent := !onKeyLine && x.indent == indent
    let atNext := atIndent && (last.between.isSome || last.explicit) && x.mark != .dash
    let (last, blankLines) := if atNext then splitBlankLines indent last else (last, [])
    stepMapInside x offset indent done last atIndent atNext blankLines onKeyLine

def stepList (x : Lexeme) (offset indent : Nat) (done : Entries) (last : Entry Outline)
    (onKeyLine : Bool) : Turn :=
  if x.isSilent then
    let (done, last) := takeSilent x indent done last
    (.keep (.list offset indent done last), onKeyLine)
  else if x.mark = .dash ∧ x.indent = indent then
    if last.value.isSome || hasMark .dash last.before then
      (.keep (.list offset indent (last :: done) { before := [x] }), onKeyLine)
    else (.keep (.list offset indent done { last with before := last.before ++ [x] }), onKeyLine)
  else if indent < x.indent then
    match opened? x with
    | some child => (.push (.list offset indent done last) child, onKeyLine || beginsMap x)
    | none => (.refuse, onKeyLine)
  else (.leave (.list offset indent done last), onKeyLine)

/-- A lexeme between the brackets. Entries stand in reverse order, the current one first. -/
def stepFlowInside (x : Lexeme) (opening : Lexeme) (entries : Entries) : Move :=
  let flow (entries : Entries) : Move := .keep (.flow opening entries [])
  match x.mark with
  | .comma | .question =>
    match entries with
    | e :: rest =>
      if e.between.isSome then flow ({ before := [x] } :: e :: rest)
      else flow ({ e with before := e.before ++ [x] } :: rest)
    | [] => flow [{ before := [x] }]
  | .colon =>
    match entries with
    | e :: rest =>
      if e.value.isSome then flow ({ between := [x] } :: e :: rest)
      else flow ({ e with between := e.between.getD [] ++ [x] } :: rest)
    | [] => flow [{ between := [x] }]
  | .gap | .comment | .lineBreak =>
    match entries with
    | e :: rest =>
      if e.value.isSome then flow ({ before := [x] } :: e :: rest) else flow (e.addSilent x :: rest)
    | [] => flow [{ before := [x] }]
  | .plain | .single | .double =>
    let scalar := Outline.scalar x []
    match entries with
    | e :: rest =>
      if e.value.isSome then flow ({ key := scalar, between := some [] } :: e :: rest)
      else if e.between.isSome then .push (.flow opening (e :: rest) []) (.scalar x [])
      else flow ({ e with key := scalar, between := some [] } :: rest)
    | [] => flow [{ key := scalar, between := some [] }]
  | .closeList | .closeMap => .keep (.flow opening entries [x])
  | .openList | .openMap => .push (.flow opening entries []) (.flow x [] [])
  | _ => .refuse

/-- A lexeme behind the closing bracket. In a block, a colon there makes the collection the first
key of a mapping, or a key of the mapping around it. -/
def stepFlowBehind (x : Lexeme) (opening : Lexeme) (entries : Entries) (closing : List Lexeme)
    (parent : Option Frame) (onKeyLine : Bool) : Turn :=
  let this := Frame.flow opening entries closing
  let isKey : Bool := match parent with
    | some (.map _ indent _ last) =>
      (x.mark = .colon && indent == opening.indent) || (x.mark = .lineBreak && last.between.isNone)
    | _ => false
  let inFlow : Bool := match parent with
    | some (.flow ..) => true
    | _ => false
  if isKey then (.leave this, onKeyLine)
  else
    match x.mark with
    | .colon =>
      if inFlow then (.leave this, onKeyLine)
      else
        (.keep (ofKey opening.offset opening.indent
          (some (.flow opening entries.reverse (closing.take 1))) (closing.drop 1 ++ [x])), true)
    | .gap | .comment => (.keep (.flow opening entries (closing ++ [x])), onKeyLine)
    | .lineBreak => (.finish (.flow opening entries (closing ++ [x])), false)
    | .comma | .closeList | .closeMap | .documentStart => (.leave this, onKeyLine)
    | _ => (.refuse, onKeyLine)

def step (x : Lexeme) (onKeyLine : Bool) (parent : Option Frame) : Frame → Turn
  | .scalar head tail =>
    stepScalar x head tail (match parent with | some (.flow ..) => true | _ => false) onKeyLine
  | .map offset indent done last => stepMap x offset indent done last onKeyLine
  | .list offset indent done last => stepList x offset indent done last onKeyLine
  | .flow opening entries closing =>
    if closing.isEmpty then (stepFlowInside x opening entries, onKeyLine)
    else stepFlowBehind x opening entries closing parent onKeyLine

/-- Splits a silent last entry off a block collection, unless a comment in it stands as far in as
the collection. -/
def splitSilentEnd : Frame → Frame × Option (Entry Outline)
  | .map offset indent (e :: done) last =>
    if movesOut indent last then (.map offset indent done e, some { before := last.before })
    else (.map offset indent (e :: done) last, none)
  | .list offset indent (e :: done) last =>
    if movesOut indent last then (.list offset indent done e, some { before := last.before })
    else (.list offset indent (e :: done) last, none)
  | f => (f, none)
where
  movesOut (indent : Nat) (last : Entry Outline) : Bool :=
    last.isSilent &&
      (indent == 0 || last.before.all fun x => x.mark != .comment || x.indent < indent)

/-- Puts a complete node into the node around it. The flag says whether the line has a key. -/
def attach (child : Frame) (onKeyLine : Bool) : Frame → Frame × Bool
  | .map offset indent done last =>
    if last.value.isSome then
      (.map offset indent (last :: done) { key := child.outline, between := some [] }, true)
    else if last.between.isSome then
      let (child, rest) := splitSilentEnd child
      let filled := { last with value := some child.outline }
      match rest with
      | some e => (.map offset indent (filled :: done) e, onKeyLine)
      | none => (.map offset indent done filled, onKeyLine)
    else
      (.map offset indent done { last with key := child.outline, between := some [] },
        !last.explicit)
  | .list offset indent done last =>
    let (child, rest) := splitSilentEnd child
    let (done, filled) : Entries × Entry Outline :=
      if last.value.isSome then (last :: done, { value := some child.outline })
      else (done, { last with value := some child.outline })
    match rest with
    | some e => (.list offset indent (filled :: done) e, onKeyLine)
    | none => (.list offset indent done filled, onKeyLine)
  | .flow opening entries closing =>
    let asKey : Entry Outline := { key := child.outline, between := some [] }
    match entries with
    | e :: rest =>
      if e.value.isSome then (.flow opening (asKey :: e :: rest) closing, onKeyLine)
      else if e.between.isSome then
        (.flow opening ({ e with value := some child.outline } :: rest) closing, onKeyLine)
      else
        let keyed := { e with key := child.outline, between := some [] }
        (.flow opening (keyed :: rest) closing, onKeyLine)
    | [] => (.flow opening [asKey] closing, onKeyLine)
  | .scalar head tail => (.scalar head tail, onKeyLine)

end Frame

/-- A document that is being read: the lexemes in front of its root, the open nodes, the innermost
one first, and the root when it is complete. -/
structure Draft where
  before : List Lexeme
  stack : List Frame
  root : Option Outline
  onKeyLine : Bool
  deriving Repr

namespace Draft

def stepOutside (d : Draft) (x : Lexeme) : Option Draft :=
  if d.root.isSome then if x.isSilent then some d else none
  else if x.isSilent then some { d with before := d.before ++ [x] }
  else if x.mark = .documentStart then
    if Frame.hasMark .documentStart d.before then none
    else some { d with before := d.before ++ [x] }
  else
    (Frame.opened? x).map fun f =>
      { d with stack := [f], onKeyLine := d.onKeyLine || Frame.beginsMap x }

/-- Closes the innermost node. A silent entry at the end of the root stands behind it. -/
def close (d : Draft) (f : Frame) (rest : List Frame) (onKeyLine : Bool) : Draft :=
  match rest with
  | [] => { d with stack := [], root := some f.splitSilentEnd.1.outline, onKeyLine := onKeyLine }
  | parent :: rest =>
    let (parent, onKeyLine) := f.attach onKeyLine parent
    { d with stack := parent :: rest, onKeyLine := onKeyLine }

theorem length_stack_close (d : Draft) (f : Frame) (rest : List Frame) (onKeyLine : Bool) :
    (d.close f rest onKeyLine).stack.length = rest.length := by
  cases rest <;> simp [close]

def step (d : Draft) (x : Lexeme) : Option Draft :=
  match _h : d.stack with
  | [] => d.stepOutside x
  | f :: rest =>
    match f.step x d.onKeyLine rest.head? with
    | (.keep f, key) => some { d with stack := f :: rest, onKeyLine := key }
    | (.push f child, key) => some { d with stack := child :: f :: rest, onKeyLine := key }
    | (.finish f, key) => some (d.close f rest key)
    | (.leave f, key) => (d.close f rest key).step x
    | (.refuse, _) => none
termination_by d.stack.length
decreasing_by simp_all [length_stack_close]

def finish (d : Draft) : Draft :=
  match _h : d.stack with
  | [] => d
  | f :: rest => (d.close f rest d.onKeyLine).finish
termination_by d.stack.length
decreasing_by simp_all [length_stack_close]

end Draft

def outline? (lexemes : List Lexeme) : Option (List Lexeme × Option Outline) :=
  (lexemes.foldlM Draft.step ⟨[], [], none, false⟩).map fun d => (d.before, d.finish.root)

end Rulebook.Yaml
