import DocFilter.CommandLine.Run

/-!
# The program

Reads the files that the arguments name, runs the command, prints its output and logs to standard
error. An environment variable says what is logged: `off`, `error`, `warn`, `info` (the default),
`debug` or `trace`.
-/

namespace DocFilter.CommandLine

/-- The environment variable that says what is logged. -/
def logVariable : String := "RUST_LOG"

/-- The least important level that a word asks for, if it is the word or the number of a level.
Nothing is less important than `debug` here, so `trace` asks for no more. -/
def threshold? (word : String) : Option (Option Level) :=
  match word.toLower with
  | "off" | "0" => some none
  | "error" | "1" => some (some .error)
  | "warn" | "2" => some (some .warn)
  | "info" | "3" => some (some .info)
  | "debug" | "4" => some (some .debug)
  | "trace" | "5" => some (some .debug)
  | _ => none

/-- The least important level that is logged. The last level in a list between commas counts. -/
def logThreshold (setting : Option String) : Option Level :=
  (((setting.getD "").splitOn ",").filterMap threshold?).getLast?.getD (some .info)

/-- The contents of those files that can be read. -/
def readable (paths : List String) : IO (List (String × String)) :=
  paths.filterMapM fun (path : String) => do
    try
      let text ← IO.FS.readFile path
      return some (path, text)
    catch _ =>
      return none

/-- Runs the program and gives its exit code. -/
def runProgram (arguments : List String) : IO UInt32 := do
  let paths := ((Command.parse? arguments).map Command.files).getD []
  let files ← readable paths
  let outcome := run (fun path => files.lookup path) arguments
  for line in logged (logThreshold (← IO.getEnv logVariable)) outcome.log do
    IO.eprintln line.text
  IO.print outcome.output
  if let some failure := outcome.failure then
    IO.eprintln s!"Error: {failure.message}"
  return UInt32.ofNat outcome.exitCode

end DocFilter.CommandLine

/-- The entry point. -/
def main (arguments : List String) : IO UInt32 := DocFilter.CommandLine.runProgram arguments
