import Rulebook.Command.Basic

/-! Command lines. Options may stand before or behind arguments; an option takes the next word as
its value, and a long one also what stands behind an equals sign. Behind `--` all is argument. -/

namespace Rulebook

inductive Invocation where
  | parse (expression : String) (format : OutputFormat)
  | format (file : String)
  | sql (expression : String) (table config : Option String)
  | check (expression config : Option String)
  | eval (expression entity : String)
  | whereClause (expression : String) (format : OutputFormat)
  deriving DecidableEq, Repr

def Invocation.paths (directory : Path) : Invocation → List Path
  | .format file => [directory.resolve file]
  | .sql _ _ (some file) => [directory.resolve file]
  | .check _ (some file) => [directory.resolve file]
  | .sql .. => RulesConfig.candidates directory.names
  | .check .. => RulesConfig.candidates directory.names
  | _ => []

/-- What a command line asks for; `nothing` is a line that is well formed but asks for no run, and
`rejected` one that is not. -/
inductive Request where
  | help
  | version
  | run (i : Invocation)
  | nothing
  | rejected
  deriving DecidableEq, Repr

structure OptionName where
  short : String
  long : String
  deriving DecidableEq, Repr

namespace OptionName

def output : OptionName := ⟨"-o", "--output"⟩

def config : OptionName := ⟨"-c", "--config"⟩

def table : OptionName := ⟨"-t", "--table"⟩

def entity : OptionName := ⟨"-e", "--entity"⟩

def allows (o : OptionName) (value : String) : Bool :=
  o != output || (OutputFormat.ofName? value).isSome

end OptionName

namespace Command

structure Words where
  options : List (OptionName × String)
  argument : Option String
  deriving DecidableEq, Repr

namespace Words

def value? (w : Words) (o : OptionName) : Option String :=
  (w.options.find? (·.1 == o)).map (·.2)

/-- An option that has a value keeps it; one with a value it does not allow takes another. -/
def isSettled (w : Words) (o : OptionName) : Bool := (w.value? o).any o.allows

def set (w : Words) (o : OptionName) (value : String) : Words :=
  { w with options := (o, value) :: w.options.filter (·.1 != o) }

def setArgument (w : Words) (a : String) : Option Words :=
  if w.argument.isSome then none else some { w with argument := some a }

end Words

/-- Words of one or two dashes and letters, digits or dashes are never arguments. -/
def looksLikeOption (s : String) : Bool :=
  let isBody (t : List Char) := !t.isEmpty && t.all fun c => c.isAlphanum || c == '-'
  match s.toList with
  | '-' :: '-' :: t => isBody t || t == []
  | '-' :: t => isBody t
  | _ => false

def longValue? (options : List OptionName) (s : String) : Option (OptionName × String) :=
  options.findSome? fun o =>
    let head := (o.long ++ "=").toList
    if head.isPrefixOf s.toList then some (o, String.ofList (s.toList.drop head.length)) else none

structure Reading where
  words : Words
  /-- Behind `--` words are arguments, whatever they look like. -/
  ended : Bool
  /-- The first word that could not be taken, and those behind it. -/
  rest : List String
  deriving DecidableEq, Repr

/-- Reads the words behind a command that has these options, as far as they can be taken. Without
options `--` stands only in front of an argument. -/
def readWords (options : List OptionName) (w : Words) (ended : Bool) : List String → Reading
  | [] => ⟨w, ended, []⟩
  | s :: rest =>
    if ended then
      match w.setArgument s with
      | some w => readWords options w true rest
      | none => ⟨w, true, s :: rest⟩
    else if s = "--" then
      if options.isEmpty then
        match rest with
        | a :: rest =>
          match w.setArgument a with
          | some w => readWords options w true rest
          | none => ⟨w, false, s :: a :: rest⟩
        | [] => ⟨w, false, [s]⟩
      else readWords options w true rest
    else
      match options.find? fun o => o.short == s || o.long == s, rest with
      | some o, value :: rest =>
        if w.isSettled o then ⟨w, false, s :: value :: rest⟩
        else readWords options (w.set o value) false rest
      | some _, [] => ⟨w, false, [s]⟩
      | none, rest =>
        match (longValue? options s).filter fun p => !w.isSettled p.1 with
        | some (o, value) => readWords options (w.set o value) false rest
        | none =>
          match if looksLikeOption s then none else w.setArgument s with
          | some w => readWords options w false rest
          | none => ⟨w, false, s :: rest⟩

def formatOf (w : Words) : OutputFormat :=
  ((w.value? .output).bind OutputFormat.ofName?).getD .text

def optionsOf? : String → Option (List OptionName)
  | "parse" => some [.output]
  | "format" => some []
  | "sql" => some [.table, .config]
  | "check" => some [.config]
  | "eval" => some [.entity]
  | "where" => some [.output]
  | _ => none

def invocation? (command : String) (w : Words) : Option Invocation :=
  if w.options.all fun o => o.1.allows o.2 then
    match command with
    | "parse" => w.argument.map fun e => .parse e (formatOf w)
    | "format" => w.argument.map .format
    | "sql" => w.argument.map fun e => .sql e (w.value? .table) (w.value? .config)
    | "check" => some (.check w.argument (w.value? .config))
    | "eval" => do return .eval (← w.argument) (← w.value? .entity)
    | "where" => w.argument.map fun e => .whereClause e (formatOf w)
    | _ => none
  else none

def generalRequest? (argv : List String) : Option Request :=
  (argv.takeWhile (· != "--")).foldl (fun found s =>
    if s = "--help" then some .help else if s = "--version" then some .version else found) none

def areTopics (ended : Bool) : List String → Bool
  | [] => true
  | s :: rest =>
    if ended then true
    else if s = "--" then !rest.isEmpty
    else !looksLikeOption s && areTopics false rest

/-- What words of a command line ask for that begin with `help`. Behind a command they replace its
run, but bring up the help only if `--help` is a word of the line too. -/
def helpRequest (argv : List String) (ended : Bool) : List String → Request
  | "help" :: topics =>
    if !areTopics ended topics then .rejected
    else if argv.head? = some "help" || argv.contains "--help" then .help
    else .nothing
  | _ => .rejected

/-- What a command line asks for. Words that a command does not take may still ask for help or for
the version in its place. -/
def request (argv : List String) : Request :=
  match generalRequest? argv, argv with
  | some r, _ => r
  | none, [] => .rejected
  | none, command :: rest =>
    match optionsOf? command with
    | none => helpRequest argv false argv
    | some options =>
      let r := readWords options ⟨[], none⟩ false rest
      if r.rest.isEmpty then (invocation? command r.words).elim .rejected .run
      else (if r.ended then none else generalRequest? r.rest).getD (helpRequest argv r.ended r.rest)

end Command

end Rulebook
