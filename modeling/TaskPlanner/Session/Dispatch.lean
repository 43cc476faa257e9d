import TaskPlanner.Dispatch.Rehearsal
import TaskPlanner.Dispatch.Shell
import TaskPlanner.Session

/-!
# Dispatch within a session

An execution of a session is run on an executor. What the run leaves of the execution
and of the locks goes back into the session.
-/

set_option autoImplicit false

namespace TaskPlanner.Session

open Dispatch (Conclusion Run Script Rehearsal ShellState)

/-- Run an execution; `none` if there is no such execution. -/
def perform {σ : Type} (session : Session) (number : Nat)
    (start : Execution → LockTable → Conclusion × Run σ) :
    Option ((Conclusion × Run σ) × Session) :=
  session.executions[number]?.map fun execution =>
    let (conclusion, run) := start execution session.locks
    ((conclusion, run),
      { session with
        executions := session.executions.set number run.execution
        locks := run.locks })

def label (session : Session) : WorkItem → String := session.plan.catalog.label

def rehearse (session : Session) (number : Nat) (script : Script) (workers : Nat) :
    Option ((Conclusion × Run Rehearsal) × Session) :=
  session.perform number
    (Dispatch.rehearse script session.label (Dispatch.workerCount workers))

/-- Run an execution on shell commands. With `isShutDown`, the user wants to stop before
anything is reported. -/
def runCommands (session : Session) (number : Nat) (commands : List (String × String))
    (isShutDown : Bool) (workers : Nat) : Option ((Conclusion × Run ShellState) × Session) :=
  session.perform number
    (Dispatch.runCommands commands (if isShutDown then [.shutdown] else []) session.label
      (Dispatch.workerCount workers))

end TaskPlanner.Session
