import TaskPlanner.Shell.Evaluation

/-!
# The shell

A shell command as a whole: with which status it ends, and how long it takes.

Commands run in a world in which little is known from the start: the usual directories and
programs, an input without characters, and an output that nobody reads. What counts is how
a command ends.
-/

set_option autoImplicit false

namespace TaskPlanner.Shell

/-- How a command ends. -/
structure Ending where
  /-- The exit status; nothing if a signal has killed the shell. -/
  status : Option Nat
  /-- The time until the end, in milliseconds. -/
  elapsed : Nat
deriving DecidableEq, Repr

def commandDepth : Nat := 12000

def start : Process :=
  let surroundings := [("HOME", "/root"), ("PATH", "/usr/local/bin:/usr/bin:/bin"),
    ("PWD", "/work"), ("LANG", "C.UTF-8")]
  { forebears := [999]
    bindings := ("IFS", { value := some " \t\n" }) :: ("OPTIND", { value := some "1" }) ::
      surroundings.map fun (name, value) =>
        (name, { value := some value, isExported := true })
    world := { changes := [("/work", some .directory)] } }

def endingOf (process : Process) : Ending :=
  { status := match process.course with
      | .killed _ => none
      | _ => some (process.status % 256)
    elapsed := process.endTime }

/-- Run a command. One that looks like an option is taken for one. -/
def run (command : String) : Ending :=
  endingOf (runShellProgram (evaluate commandDepth) ["-c", command] start)

end TaskPlanner.Shell
