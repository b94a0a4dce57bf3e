import Rulebook.Files.Path

/-! File trees as plain data: what stands at each path. -/

namespace Rulebook

inductive FileEntry where
  | file (content : String)
  | directory
  deriving DecidableEq, Repr, Inhabited

structure FileTree where
  entries : List (Path × FileEntry)
  deriving DecidableEq, Repr, Inhabited

namespace FileTree

/-- What stands at a path. Every directory on the way to an entry is there. -/
def entry? (t : FileTree) (p : Path) : Option FileEntry :=
  match t.entries.find? (·.1 == p) with
  | some (_, e) => some e
  | none => if t.entries.any (fun e => p.names.isSuffixOf e.1.names) then some .directory else none

def file? (t : FileTree) (p : Path) : Option String :=
  match t.entry? p with
  | some (.file content) => some content
  | _ => none

end FileTree

end Rulebook
