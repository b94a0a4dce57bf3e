import Rulebook.Files.Tree
import Rulebook.RulesFile.Basic

/-! Where a command finds its rules file: the one it is told, or the nearest one above. -/

namespace Rulebook

structure RulesConfig where
  path : Path
  contents : RulesFile
  deriving DecidableEq, Repr

inductive ConfigError where
  | notFound (searched : String)
  | invalid (file : String) (v : ConfigViolation)
  | unreadable (path : Path)
  deriving DecidableEq, Repr

namespace RulesConfig

def fileNames : List String := ["quill.yaml", "quill.yml"]

def load (read : DocumentReader) (t : FileTree) (p : Path) : Except ConfigError RulesConfig :=
  match t.entry? p with
  | none => .error (.notFound p.text)
  | some .directory => .error (.unreadable p)
  | some (.file content) =>
    match RulesFile.ofText read content with
    | .ok contents => .ok ⟨p, contents⟩
    | .error v => .error (.invalid p.text v)

/-- Loads the file that a text leads to below a directory. A slash at its end asks for a directory,
which is no rules file. -/
def loadBelow (read : DocumentReader) (t : FileTree) (base : Path) (text : String) :
    Except ConfigError RulesConfig :=
  let p := base.walk text
  if text.toList.getLast? = some '/' then
    match t.entry? p with
    | some .directory => .error (.unreadable p)
    | _ => .error (.notFound (p.text ++ "/"))
  else load read t p

def candidates : (names : List String) → List Path
  | [] => fileNames.map Path.root.child
  | name :: above => fileNames.map (Path.child ⟨name :: above⟩) ++ candidates above

/-- The rules file of one directory. Only regular files count. -/
def inDirectory? (t : FileTree) (dir : Path) : Option Path :=
  (fileNames.map dir.child).find? fun p => (t.file? p).isSome

def nearest? (t : FileTree) : (names : List String) → Option Path
  | [] => inDirectory? t .root
  | name :: above => (inDirectory? t ⟨name :: above⟩).or (nearest? t above)

def find (read : DocumentReader) (t : FileTree) (start : Path) :
    Except ConfigError (Option RulesConfig) :=
  match nearest? t start.names with
  | some p => some <$> load read t p
  | none => .ok none

def resolve (read : DocumentReader) (t : FileTree) (start : Path) : (file : Option String) →
    Except ConfigError (Option RulesConfig)
  | some file => some <$> load read t (start.resolve file)
  | none => find read t start

def require (read : DocumentReader) (t : FileTree) (start : Path) (file : Option String) :
    Except ConfigError RulesConfig := do
  match ← resolve read t start file with
  | some config => return config
  | none => .error (.notFound start.text)

end RulesConfig

end Rulebook
