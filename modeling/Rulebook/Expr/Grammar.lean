import Rulebook.Expr.Node
import Rulebook.Expr.Reader

/-! The grammar of rule texts.

```text
rule       := condition '?' literal ':' literal
condition  := predicate ((and | or) predicate)*
predicate  := field '.contains(' (list | literal) ')'
            | list '.contains(' field ')'
            | field ('==' | '!=' | '>' | '<') literal
literal    := '\'' text '\'' | token
list       := '{' literal (',' literal)* '}'
```

Connectives stand between blanks; elsewhere blanks are optional. Conditions nest to the left. -/

namespace Rulebook.Expr
open Reader

def unquote (s : String) : String := String.ofList (s.toList.tail.dropLast)

def quotedLiteral : Reader Literal := do
  let source ← pattern .quotedLiteral
  return ⟨unquote source, true, source⟩

def bareLiteral : Reader Literal := do
  let source ← pattern .bareLiteral
  return ⟨source, false, source⟩

def literal : Reader Literal := either quotedLiteral bareLiteral

def fieldName : Reader Field := do
  let source ← pattern .name
  return ⟨source, source⟩

def sign (op : Comparator) : Reader Comparator := do
  let _ ← word op.sign
  return op

def comparator : Reader Comparator :=
  either (sign .equal) (either (sign .notEqual) (either (sign .greater) (sign .less)))

def keyword (op : Connective) (w : String) : Reader (Connective × String) := do
  let text ← word w
  return (op, text)

def connective : Reader (Connective × String) :=
  either (either (keyword .and "and") (keyword .and "AND"))
    (either (keyword .or "or") (keyword .or "OR"))

def nextMember : Reader (String × Literal) := do
  let before ← blanks
  let comma ← mark ','
  let after ← blanks
  let item ← literal
  return (before ++ comma ++ after ++ item.source, item)

def members : Reader Members := do
  let opening ← mark '\x7b'
  let lead ← blanks
  let first ← literal
  let others ← many nextMember
  let trail ← blanks
  let closing ← mark '\x7d'
  return ⟨first :: others.map (·.2),
    opening ++ lead ++ first.source ++ String.join (others.map (·.1)) ++ trail ++ closing⟩

def containsOpening : Reader String := do
  let call ← word ".contains"
  let gap ← blanks
  let paren ← mark '('
  let inner ← blanks
  return call ++ gap ++ paren ++ inner

def containsClosing : Reader String := do
  let inner ← blanks
  let paren ← mark ')'
  return inner ++ paren

def argument : Reader Argument :=
  either (Argument.members <$> members) (Argument.literal <$> literal)

def fieldContains : Reader Node := do
  let target ← fieldName
  let opening ← containsOpening
  let argument ← argument
  let closing ← containsClosing
  return .contains target argument (target.source ++ opening ++ argument.source ++ closing)

def membersContain : Reader Node := do
  let argument ← members
  let opening ← containsOpening
  let target ← fieldName
  let closing ← containsClosing
  return .contains target (.members argument)
    (argument.source ++ opening ++ target.source ++ closing)

def comparison : Reader Node := do
  let left ← fieldName
  let before ← blanks
  let op ← comparator
  let after ← blanks
  let right ← literal
  return .comparison op left right (left.source ++ before ++ op.sign ++ after ++ right.source)

def predicate : Reader Node := either fieldContains (either membersContain comparison)

structure Link where
  op : Connective
  text : String
  right : Node
  deriving Repr

def link : Reader Link := do
  let before ← someBlanks
  let (op, word) ← connective
  let after ← someBlanks
  let right ← predicate
  return ⟨op, before ++ word ++ after, right⟩

def Link.join (left : Node) (l : Link) : Node :=
  .logical l.op left l.right (left.source ++ l.text ++ l.right.source)

def condition : Reader Node := do
  let first ← predicate
  let links ← many link
  return links.foldl Link.join first

def conditional : Reader Conditional := do
  let test ← condition
  let beforeQuestion ← blanks
  let question ← mark '?'
  let afterQuestion ← blanks
  let thenBranch ← literal
  let beforeColon ← blanks
  let colon ← mark ':'
  let afterColon ← blanks
  let elseBranch ← literal
  ending
  return ⟨test, thenBranch, elseBranch,
    test.source ++ beforeQuestion ++ question ++ afterQuestion ++ thenBranch.source ++
      beforeColon ++ colon ++ afterColon ++ elseBranch.source⟩

/-- A text that is no rule: why, and at which place. The place is the failing byte of the trimmed
text, moved by the code units of the blanks in front. -/
structure SyntaxError where
  expression : String
  refusal : Refusal
  index : Nat
  deriving DecidableEq, Repr

def parse (text : String) : Except SyntaxError Conditional :=
  let s := text.toList
  match Text.trim s with
  | [] => .error ⟨text, .empty, 0⟩
  | trimmed =>
    match conditional (.start trimmed) with
    | .ok (rule, _) => .ok rule
    | .error f =>
      .error ⟨text, .failed f, Text.unitCount (Text.leadingBlanks s) + f.offset⟩

def isRule (text : String) : Bool := (parse text).isOk

end Rulebook.Expr
