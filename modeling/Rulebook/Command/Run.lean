import Rulebook.Command.Line
import Rulebook.Fault.Chain

/-! A whole run: what it prints, and how it ends. -/

namespace Rulebook

/-- The outcome of a run. The texts of usage and help are left to the outer layer. -/
inductive Outcome where
  | usage
  | help
  | finished (exit : Nat) (stdout stderr : String)
  deriving DecidableEq, Repr

namespace Command

def versionText : String := "0.1.0"

def printed (s : String) : Outcome := .finished 0 (s ++ "\n") ""

def chainText (r : Report) (cause : Fault) : String :=
  match (Fault.report r cause).pretty? false with
  | some (.ok t) => t.shown ++ "\n"
  | _ => ""

/-- A problem on the error stream: its chain, or only its code when it was caused by a failure whose
text is the system's. -/
def failed (p : Problem) : Outcome :=
  .finished 1 "" <|
    match p.report?, p.cause? with
    | some r, some (.malformedDocument e) => chainText r (.plain e.name e.message .nothing)
    | some r, some _ => "QuillError: " ++ r.code
    | some r, none => chainText r .nothing
    | none, _ => "An attribute or a file cannot be read\n"

def ofResult : Except Problem String → Outcome
  | .ok s => printed s
  | .error p => failed p

def ofCheck : Except Problem CheckReport → Outcome
  | .error p => failed p
  | .ok r =>
    if 0 < r.failures then
      .finished 1 (r.output ++ "\n")
        ("Error: \"" ++ toString r.failures ++ "\" expression(s) failed to parse\n")
    else .finished 0 (r.output ++ "\nAll expressions parse\n") ""

def invoke (read : DocumentReader) (w : Workplace) : Invocation → Outcome
  | .parse expression format => ofResult (parse expression format)
  | .format file => ofResult (Command.format w file)
  | .sql expression table config => ofResult (sql read w expression table config)
  | .check expression config => ofCheck (check read w expression config)
  | .eval expression entity => ofResult (eval expression entity)
  | .whereClause expression format => ofResult (whereClause expression format)

def run (read : DocumentReader) (w : Workplace) (argv : List String) : Outcome :=
  match request argv with
  | .help => .help
  | .version => printed versionText
  | .run i => invoke read w i
  | .nothing => .finished 0 "" ""
  | .rejected => .usage

end Command

end Rulebook
