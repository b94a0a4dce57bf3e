/-! Absolute paths, as the names on the way from the innermost one to the root. -/

namespace Rulebook

structure Path where
  /-- The names, the innermost first. -/
  names : List String
  deriving DecidableEq, Repr, Inhabited

namespace Path

def root : Path := ⟨[]⟩

def text (p : Path) : String := "/" ++ String.intercalate "/" p.names.reverse

def child (p : Path) (name : String) : Path := ⟨name :: p.names⟩

def parent (p : Path) : Path := ⟨p.names.tail⟩

def step (p : Path) (name : String) : Path :=
  if name = "" ∨ name = "." then p else if name = ".." then p.parent else p.child name

def walk (base : Path) (text : String) : Path :=
  ((text.toList.splitOn '/').map String.ofList).foldl step base

/-- What a text means as a path in a directory. One that begins with a slash starts at the root. -/
def resolve (base : Path) (text : String) : Path :=
  (if text.toList.head? = some '/' then root else base).walk text

example : (Path.mk ["b", "a"]).resolve "../c" = ⟨["c", "a"]⟩ := by decide

end Path

end Rulebook
