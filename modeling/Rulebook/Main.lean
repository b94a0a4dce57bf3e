import Rulebook.Command.Run
import Rulebook.Yaml.Document

/-! The program: reads the files a run may look at, and prints its outcome. -/

open Rulebook

def usageText : String :=
  "Usage: quill parse [-o FORMAT] EXPR
       quill format FILE
       quill sql [-t TABLE] [-c FILE] EXPR
       quill check [-c FILE] [EXPR]
       quill eval -e JSON EXPR
       quill where [-o FORMAT] EXPR"

def main (argv : List String) : IO UInt32 := do
  let base ← IO.currentDir
  let directory := Path.root.resolve base.toString
  let paths := match Command.request argv with
    | .run i => i.paths directory
    | _ => []
  let entries ← paths.filterMapM fun p => do
    let place := base / p.text
    if ← place.isDir then return some (p, FileEntry.directory)
    else if ← place.pathExists then return some (p, FileEntry.file (← IO.FS.readFile place))
    else return none
  match Command.run Yaml.reader ⟨⟨entries⟩, directory⟩ argv with
  | .usage =>
    IO.eprintln usageText
    return 1
  | .help =>
    IO.println usageText
    return 0
  | .finished exit stdout stderr =>
    IO.print stdout
    IO.eprint stderr
    return exit.toUInt32
