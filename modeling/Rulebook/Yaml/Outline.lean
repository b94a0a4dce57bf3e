import Rulebook.Yaml.Lexeme

/-! Outlines: what belongs to what in a document. Nodes keep the silent lexemes around them, since
tabs are refused at some places only. -/

namespace Rulebook.Yaml

/-- An entry of a collection: the lexemes in front of it, a key, the lexemes from the key to the
value if there is a key or a colon, and a value. `explicit` says that a question mark stands in
front of the key. -/
structure Entry (α : Type) where
  before : List Lexeme := []
  explicit : Bool := false
  key : Option α := none
  between : Option (List Lexeme) := none
  value : Option α := none
  deriving Repr

inductive Outline where
  /-- A scalar, and the silent lexemes behind it. -/
  | scalar (head : Lexeme) (tail : List Lexeme)
  | map (offset indent : Nat) (entries : List (Entry Outline))
  | list (offset indent : Nat) (entries : List (Entry Outline))
  /-- A bracketed collection; its closing bracket and the silent lexemes behind that are
  `closing`. -/
  | flow (opening : Lexeme) (entries : List (Entry Outline)) (closing : List Lexeme)
  deriving Repr

namespace Outline

def offset : Outline → Nat
  | .scalar head _ => head.offset
  | .map offset _ _ => offset
  | .list offset _ _ => offset
  | .flow opening _ _ => opening.offset

def indent : Outline → Nat
  | .scalar head _ => head.indent
  | .map _ indent _ => indent
  | .list _ indent _ => indent
  | .flow opening _ _ => opening.indent

def isMap : Outline → Bool
  | .map .. => true
  | _ => false

def isList : Outline → Bool
  | .list .. => true
  | _ => false

def isBlock (o : Outline) : Bool := o.isMap || o.isList

def tail? : Outline → Option (List Lexeme)
  | .scalar _ tail => some tail
  | .flow _ _ closing => some closing
  | _ => none

def addTail (more : List Lexeme) : Outline → Outline
  | .scalar head tail => .scalar head (tail ++ more)
  | .flow opening entries closing => .flow opening entries (closing ++ more)
  | o => o

end Outline

namespace Entry

variable {α : Type}

def isSilent (e : Entry α) : Bool :=
  e.between.isNone && e.value.isNone && !e.before.isEmpty && e.before.all Lexeme.isSilent

def addSilent (e : Entry α) (x : Lexeme) : Entry α :=
  match e.between with
  | some between => { e with between := some (between ++ [x]) }
  | none => { e with before := e.before ++ [x] }

end Entry

end Rulebook.Yaml
