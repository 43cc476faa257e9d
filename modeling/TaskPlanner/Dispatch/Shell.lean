import TaskPlanner.Dispatch
import TaskPlanner.Shell

/-!
# Shell executor

An executor that runs shell commands side by side and reports them in the order in which
they end.
-/

set_option autoImplicit false

namespace TaskPlanner.Dispatch

/-- A command that is running. -/
structure Process where
  task : String
  endsAt : Nat
  outcome : TaskOutcome
deriving DecidableEq, Repr

/-- An executor of shell commands at work. -/
structure ShellState where
  commands : List (String × String)
  /-- The time, in milliseconds. -/
  now : Nat := 0
  /-- The commands that are running, in the order in which they were started. -/
  running : List Process := []
  /-- What is to be reported at once. -/
  reports : List Event := []
  /-- Tasks whose commands could not be passed to a shell. -/
  unstarted : List String := []
deriving DecidableEq, Repr

/-- The outcome of a command. One that was killed has no status of its own. -/
def outcomeOf (ending : Shell.Ending) : TaskOutcome :=
  match ending.status with
  | some 0 => .success
  | some status => .failed status
  | none => .failed (-1)

namespace ShellState

/-- Start a task. One that has been started is not started again before it ends; one without
a command, or with a command that cannot be passed to a shell, fails at once. Starting a
command takes a millisecond. -/
def start (state : ShellState) (task : String) : ShellState :=
  let failed : ShellState :=
    { state with reports := state.reports ++ [.completed (.task task) (.failed (-1))] }
  match state.commands.lookup task with
  | none => failed
  | some command =>
      if state.running.any (·.task = task) || decide (task ∈ state.unstarted) then state
      else if command.toList.contains '\x00' then
        { failed with unstarted := task :: state.unstarted }
      else
        let ending := Shell.run command
        { state with
          running := state.running ++
            [{ task
               endsAt := state.now + 1 + ending.elapsed
               outcome := outcomeOf ending }] }

/-- The process that ends first; of several, the one that was started first. -/
def earliest? (state : ShellState) : Option Process :=
  state.running.foldl (fun best process => match best with
    | none => some process
    | some other => if process.endsAt < other.endsAt then some process else some other) none

def receive (state : ShellState) : Delivery × ShellState :=
  match state.reports with
  | event :: rest => (.event event, { state with reports := rest })
  | [] =>
      match state.earliest? with
      | none => (.silent, state)
      | some process =>
          (.event (.completed (.task process.task) process.outcome),
            { state with
              now := max state.now process.endsAt
              running := state.running.erase process })

def cancelAll (state : ShellState) : ShellState := { state with running := [], unstarted := [] }

def executor : Executor ShellState where
  spawn tasks state := (.ok (), tasks.foldl start state)
  receive := receive
  cancelAll state := (.ok (), state.cancelAll)

/-- Wait for at most the given number of reports. -/
def awaitReports : Nat → ShellState → List Event × ShellState
  | 0, state => ([], state)
  | count + 1, state =>
      match state.receive with
      | (.event event, next) =>
          let (events, last) := awaitReports count next
          (event :: events, last)
      | (_, next) => ([], next)

/-- Start tasks, or stop everything for each `none`, and wait for `expected` reports. What is
to be reported at once comes in any case. -/
def follow (commands : List (String × String)) (steps : List (Option String))
    (expected : Nat) : List Event :=
  let start (state : ShellState) : Option String → ShellState
    | some task => state.start task
    | none => state.cancelAll
  let started := steps.foldl start { commands }
  let (events, last) := started.awaitReports expected
  events ++ last.reports

end ShellState

/-- Run an execution on shell commands. Each scheduled item is reported at most once, which
bounds the number of rounds. `reports` come before anything else. -/
def runCommands (commands : List (String × String)) (reports : List Event)
    (label : WorkItem → String) (maxWorkers : Nat) (execution : Execution)
    (locks : LockTable) : Conclusion × Run ShellState :=
  Run.go ShellState.executor label maxWorkers
    (reports.length + execution.schedule.nodes.length + 1)
    { execution, locks, executor := { commands, reports } }

end TaskPlanner.Dispatch
