import TaskPlanner.Invocation

/-!
# The program

Reads the arguments and the build file, and prints what the invocation comes to.
-/

set_option autoImplicit false

namespace TaskPlanner

def CommandLine.Stop.text : CommandLine.Stop → String
  | help =>
      "Usage: workplan [OPTIONS] [TASK]...\n\n" ++
        "  --config <PATH>        the build file (default: Workplan.toml)\n" ++
        "  -x, --exclude-task <GLOB>\n" ++
        "  --continue             go on after a failure\n" ++
        "  --dry-run              show the order without running anything\n" ++
        "  --max-workers <N>      how many tasks run at a time\n" ++
        "  --log-level <LEVEL>    error, warn, info, debug or trace\n" ++
        "  -h, --help\n" ++
        "  -V, --version"
  | version => "workplan"
  | unknownArgument => "error: unexpected argument"
  | invalidValue => "error: a value is missing or not possible"
  | valueValidation => "error: a value is not a number of at least 1"
  | argumentConflict => "error: an option was given twice"
  | tooManyValues => "error: a value was given to a flag"

/-- Read a file, if it is there. -/
def readFile? (path : String) : IO (Option ByteArray) := do
  try
    return some (← IO.FS.readBinFile path)
  catch _ =>
    return none

def invoke (arguments : Arguments) : IO UInt32 := do
  let invocation := Invocation.run 1 (← readFile? arguments.config) arguments
  IO.print invocation.output
  match invocation.result with
  | .ok () => return 0
  | .error error =>
      IO.eprintln ("workplan error: " ++ error.message?.getD "the build file cannot be read")
      return 1

end TaskPlanner

def main (texts : List String) : IO UInt32 := do
  match TaskPlanner.CommandLine.parse texts with
  | .ok arguments => TaskPlanner.invoke arguments
  | .error .help =>
      IO.println (TaskPlanner.CommandLine.Stop.text .help)
      return 0
  | .error .version =>
      IO.println (TaskPlanner.CommandLine.Stop.text .version)
      return 0
  | .error stop =>
      IO.eprintln stop.text
      return 2
