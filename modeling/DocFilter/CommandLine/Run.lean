import DocFilter.CommandLine.Arguments
import DocFilter.CommandLine.Directory
import DocFilter.CommandLine.Report
import DocFilter.Compile
import DocFilter.Sql.Where

/-!
# Running commands

A run is a function of the arguments and of the files that can be read. It prints something or
fails, and logs what happens on the way.
-/

namespace DocFilter.CommandLine

/-- Why a run fails. -/
inductive Failure where
  /-- The command line makes no sense. -/
  | usage
  | fileRead (path : String)
  | missingFilter
  | unsupportedDialect (name : String)
  | filter (e : FilterError)
  | registry (e : RegistryError)
  deriving DecidableEq

namespace Failure

/-- The failure in words. -/
def message : Failure → String
  | .usage => "The command line is not valid, try --help"
  | .fileRead path => s!"Failed to read input file: {path}"
  | .missingFilter => "Either --filter or --filter-file must be given"
  | .unsupportedDialect name => s!"Unsupported SQL dialect: {name}"
  | .filter e => s!"Failed to compile the filter: {e.message}"
  | .registry e => s!"Failed to load the relation registry: {e.message}"

/-- The exit code of a run that fails. -/
def exitCode : Failure → Nat
  | .usage => 2
  | _ => 1

end Failure

/-- A line of the log. -/
structure LogLine where
  /-- How much it matters. -/
  level : Level
  /-- The part of the program that it comes from. -/
  source : String
  /-- What it says. -/
  message : String

namespace LogLine

/-- The line for an event of a compilation. -/
def ofEvent (e : Event) : LogLine :=
  let source := match e with
    | .flushing _ _ _ => "filter::bucket"
    | .tableless _ => "filter::sql"
    | _ => "filter::compiler"
  ⟨e.level, source, e.message⟩

/-- How a character is logged: those that terminals act on are spelled out. -/
def visible (c : Char) : List Char :=
  let hex (n : Nat) := Nat.toDigits 16 n
  if c == '\x1b' || c == '\x07' || c == '\x08' || c == '\x0c' || c == '\x7f' then
    '\\' :: 'x' :: (if c.toNat < 16 then '0' :: hex c.toNat else hex c.toNat)
  else if 0x80 ≤ c.toNat && c.toNat ≤ 0x9f then '\\' :: 'u' :: '\x7b' :: hex c.toNat ++ ['\x7d']
  else [c]

/-- The text of a line. -/
def text (l : LogLine) : String :=
  l.level.name ++ " " ++ l.source ++ ": " ++ String.ofList (l.message.toList.flatMap visible)

end LogLine

/-- The lines that matter at least as much as `threshold`; without one, nothing is logged. -/
def logged (threshold : Option Level) (lines : List LogLine) : List LogLine :=
  match threshold with
  | none => []
  | some t => lines.filter fun l => l.level.rank ≤ t.rank

/-- What a run comes to. -/
structure Outcome where
  /-- What is printed. -/
  output : String := ""
  /-- Why it fails. -/
  failure : Option Failure := none
  /-- What is logged. -/
  log : List LogLine := []

/-- The exit code of a run. -/
def Outcome.exitCode (o : Outcome) : Nat :=
  match o.failure with
  | none => 0
  | some f => f.exitCode

/-- The contents of a file. -/
def readFile (files : String → Option String) (path : String) : Except Failure String :=
  match files path with
  | some text => .ok text
  | none => .error (.fileRead path)

/-- The registry of a file, or an empty one. -/
def loadRegistry (files : String → Option String) : Option String → Except Failure Registry
  | none => .ok {}
  | some path => do
    match Registry.ofText (← readFile files path) with
    | .ok r => return r
    | .error e => .error (.registry e)

/-- The text of the filter. -/
def filterText (files : String → Option String) (a : CompileArguments) : Except Failure String :=
  match a.filter, a.filterFile with
  | some text, _ => .ok text
  | none, some path => readFile files path
  | none, none => .error .missingFilter

/-- What a compilation starts from. -/
structure Inputs where
  /-- The relations. -/
  registry : Registry
  /-- The filter. -/
  document : Document
  /-- The dialect of the answer. -/
  dialect : Sql.Dialect

/-- Gathers what a compilation starts from: the relations, then the filter, then the dialect. -/
def loadInputs (files : String → Option String) (a : CompileArguments) : Except Failure Inputs := do
  let registry ← loadRegistry files a.relations
  let text ← filterText files a
  match Document.ofText text with
  | .error e => .error (.filter e)
  | .ok document =>
    match Sql.Dialect.ofName? a.dialect with
    | none => .error (.unsupportedDialect a.dialect)
    | some dialect => return ⟨registry, document, dialect⟩

/-- Compiles a filter and prints its statement. -/
def runCompile (files : String → Option String) (a : CompileArguments) : Outcome :=
  match loadInputs files a with
  | .error f => { failure := some f }
  | .ok inputs =>
    let start := s!"Compiling filter on `{a.table}` for {inputs.dialect.name} " ++
      s!"({inputs.registry.size} relation(s) registered)"
    let c := compile ⟨a.strict, a.marker, a.baseKey⟩ inputs.registry a.table inputs.document
    let log := ⟨.info, "sieve", start⟩ :: c.events.map LogLine.ofEvent
    match c.result with
    | .error e => { failure := some (.filter e), log }
    | .ok f =>
      let statement := f.select.statement inputs.dialect
      { output := if a.json then jsonReport inputs.dialect statement f else plainReport statement f
        log := log ++ f.toWhere.events.map LogLine.ofEvent }

/-- Prints the relations of a file. -/
def runRelations (files : String → Option String) (path : String) : Outcome :=
  match loadRegistry files (some path) with
  | .error f => { failure := some f }
  | .ok r =>
    { output := relationsReport r
      log := [⟨.info, "sieve", s!"Loaded {r.size} relation(s) from {path}"⟩] }

/-- Runs a command. -/
def Command.run (files : String → Option String) : Command → Outcome
  | .compile a => runCompile files a
  | .relations path => runRelations files path
  | .version => { output := versionReport }
  | .help => { output := helpReport }

/-- Runs the program with arguments. -/
def run (files : String → Option String) (arguments : List String) : Outcome :=
  match Command.parse? arguments with
  | none => { failure := some .usage }
  | some command => command.run files

/-- Runs the program with arguments in a directory. -/
def runIn (d : Directory) (arguments : List String) : Outcome := run d.read? arguments

end DocFilter.CommandLine
