import TaskPlanner.BuildFile.Decoding
import TaskPlanner.BuildFile.Planning
import TaskPlanner.Report
import TaskPlanner.Session.Dispatch

/-!
# Invocations

An invocation loads a build file, plans what the command line asks for, and shows the
order or runs the tasks. What it prints and how it ends is a function of the command
line and of the build file.
-/

set_option autoImplicit false

namespace TaskPlanner

/-- Why an invocation fails. -/
inductive InvocationError where
  | load (error : LoadError)
  | planning (error : PlanningError)
  /-- The tasks were run, and some of them failed. -/
  | tasksFailed (complaint : String)
  /-- The commands report no more, though some have not ended. -/
  | silent
deriving DecidableEq, Repr

/-- The text of a load error. The text of what cannot be read at all is the system's. -/
def LoadError.message? : LoadError → Option String
  | unreadable | malformed => none
  | invalid fault => some ("Configuration error: " ++ fault.message)

def InvocationError.message? : InvocationError → Option String
  | load error => error.message?
  | planning error => some error.message
  | tasksFailed complaint => some complaint
  | silent => none

/-- What an invocation comes to. -/
structure Invocation where
  output : String := ""
  result : Except InvocationError Unit := .ok ()

namespace Invocation

/-- End with an error, having printed nothing. -/
def refused (error : InvocationError) : Invocation := { result := .error error }

def preview (plan : Plan) : Invocation :=
  match plan.determine.result with
  | .error error => refused (.planning (.plan error))
  | .ok schedule => { output := schedule.preview plan.name }

/-- How many tasks may run at a time, for an invocation on a machine with `cores`. -/
def workers (cores : Nat) (file : BuildFile) (arguments : Arguments) : Nat :=
  (arguments.maxWorkers.or file.build.maxWorkers).getD cores

def reported (summary : Summary) : Invocation where
  output := summary.report
  result := match summary.complaint? with
    | none => .ok ()
    | some complaint => .error (.tasksFailed complaint)

def concluded : Dispatch.Conclusion → Invocation
  | .completed summary => reported summary
  | .failed error => refused (.planning (.plan error))
  | .silent | .unfinished => refused .silent

def execute (cores : Nat) (file : BuildFile) (arguments : Arguments) (plan : Plan) :
    Invocation :=
  match ({ plan } : Session).finalize with
  | (.error error, _) => refused (.planning (.plan error))
  | (.ok number, session) =>
      match session.runCommands number file.commands false (workers cores file arguments) with
      | none => refused .silent
      | some ((conclusion, _), _) => concluded conclusion

/-- Plan what the command line asks for, and show it or run it. -/
def ofFile (cores : Nat) (file : BuildFile) (arguments : Arguments) : Invocation :=
  match file.planFor arguments with
  | .error error => refused (.planning error)
  | .ok plan => if arguments.dryRun then preview plan else execute cores file arguments plan

/-- The invocation with a build file of the given bytes; `none` is a file that is not
there. -/
def run (cores : Nat) (bytes? : Option ByteArray) (arguments : Arguments) : Invocation :=
  match bytes? with
  | none => refused (.load .unreadable)
  | some bytes =>
      match BuildFile.loadBytes bytes with
      | .error error => refused (.load error)
      | .ok file => ofFile cores file.toBuildFile arguments

end Invocation

end TaskPlanner
