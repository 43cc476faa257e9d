import TaskPlanner.Execution.Summary
import TaskPlanner.PlanError

/-!
# Dispatch

Dispatch runs an execution on an executor, with a limited number of tasks at a time: it
hands the executor whatever is ready, and gives the outcomes that the executor delivers
back to the execution. Items of other builds, and markers, are finished on the spot.
-/

set_option autoImplicit false

namespace TaskPlanner.Dispatch

/-- What an executor, or a user who wants to stop, tells. -/
inductive Event where
  | completed (item : WorkItem) (outcome : TaskOutcome)
  | shutdown
deriving DecidableEq, Repr

/-- The answer of an executor to the question what happened next. -/
inductive Delivery where
  | event (event : Event)
  /-- Nothing will ever be delivered again, and the executor says so. -/
  | hungUp
  /-- Nothing will ever be delivered again, but the executor does not say so. -/
  | silent
deriving DecidableEq, Repr

/-- Something that executes tasks; `σ` is its state. -/
structure Executor (σ : Type) where
  spawn : List String → σ → Except String Unit × σ
  receive : σ → Delivery × σ
  cancelAll : σ → Except String Unit × σ

/-- An execution on an executor. -/
structure Run (σ : Type) where
  execution : Execution
  locks : LockTable
  executor : σ
  /-- How many tasks the executor was given and has not reported. -/
  inFlight : Nat := 0
  notifications : List Notification := []

/-- How a run ended. -/
inductive Conclusion where
  | completed (summary : Summary)
  | failed (error : PlanError)
  /-- The run waits for a delivery that never comes. -/
  | silent
  /-- The executor had more to deliver than the run was allowed to take. -/
  | unfinished
deriving DecidableEq, Repr

/-- The ready tasks collected for one dispatch. -/
structure Round where
  execution : Execution
  locks : LockTable
  tasks : List String := []
  notifications : List Notification := []
  isFinished : Bool := false

namespace Round

/-- Collect ready tasks while there is room for more, selecting at most `steps` items. -/
def collect (room : Nat) : Nat → Round → Round
  | 0, round => round
  | steps + 1, round =>
      if room ≤ round.tasks.length then round
      else
        match round.execution.select round.locks with
        | (.ready node, execution, locks) =>
            match node.item.taskName? with
            | some task =>
                collect room steps
                  { round with execution, locks, tasks := round.tasks ++ [task] }
            | none =>
                let (finished, released, notifications) :=
                  execution.finishNode locks node .success
                collect room steps
                  { round with
                    execution := finished
                    locks := released
                    notifications := round.notifications ++ notifications }
        | (.waiting, execution, locks) => { round with execution, locks }
        | (.finished, execution, locks) => { round with execution, locks, isFinished := true }

end Round

namespace Run

variable {σ : Type}

/-- Collect ready tasks as long as fewer than `maxWorkers` are executing. -/
def round (maxWorkers : Nat) (run : Run σ) : Round :=
  Round.collect (maxWorkers - run.inFlight) (run.execution.schedule.nodes.length + 1)
    { execution := run.execution, locks := run.locks }

def dispatch (executor : Executor σ) (run : Run σ) (round : Round) :
    Except String Unit × Run σ :=
  let advanced : Run σ :=
    { run with
      execution := round.execution
      locks := round.locks
      notifications := run.notifications ++ round.notifications
      inFlight := run.inFlight + round.tasks.length }
  if round.tasks.isEmpty then (.ok (), advanced)
  else
    let (answer, state) := executor.spawn round.tasks run.executor
    (answer, { advanced with executor := state })

def complete (run : Run σ) : Conclusion × Run σ :=
  (.completed run.execution.summary, run)

def stop (run : Run σ) : Run σ := { run with execution := run.execution.close }

def take? (run : Run σ) (item : WorkItem) (outcome : TaskOutcome) : Option (Run σ) :=
  (run.execution.finish? run.locks item outcome).map fun (execution, locks, notifications) =>
    { run with
      execution
      locks
      notifications := run.notifications ++ notifications
      inFlight := run.inFlight - 1 }

/-- Dispatch and receive, for at most the given number of rounds. `label` names an item in a
message. -/
def go (executor : Executor σ) (label : WorkItem → String) (maxWorkers : Nat) :
    Nat → Run σ → Conclusion × Run σ
  | 0, run => (.unfinished, run)
  | rounds + 1, run =>
      let round := run.round maxWorkers
      match run.dispatch executor round with
      | (.error text, advanced) => (.failed (.executor text), advanced)
      | (.ok (), advanced) =>
          if advanced.inFlight = 0 then
            if round.isFinished then advanced.complete else (.failed .noProgress, advanced)
          else
            let (delivery, state) := executor.receive advanced.executor
            let received := { advanced with executor := state }
            match delivery with
            | .silent => (.silent, received)
            | .hungUp => received.stop.complete
            | .event .shutdown =>
                let (answer, cancelled) := executor.cancelAll received.executor
                let stopped := { received.stop with executor := cancelled }
                match answer with
                | .error text => (.failed (.executor text), stopped)
                | .ok () => stopped.complete
            | .event (.completed item outcome) =>
                match received.take? item outcome with
                | none => (.failed (.notPlanned (label item)), received)
                | some next => go executor label maxWorkers rounds next

end Run

/-- The number of workers for a request of `workers`: at least one. -/
def workerCount (workers : Nat) : Nat := max 1 workers

end TaskPlanner.Dispatch
