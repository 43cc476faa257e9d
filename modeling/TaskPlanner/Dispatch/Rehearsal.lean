import TaskPlanner.Dispatch

/-!
# Rehearsals

A rehearsal is an executor whose behaviour is written down beforehand: the outcome of
each task, the order of the reports, and what else happens after each dispatch.
-/

set_option autoImplicit false

namespace TaskPlanner.Dispatch

/-- What is going to happen in a rehearsal. -/
structure Script where
  /-- The outcomes of the tasks; the others succeed. -/
  outcomes : List (String × TaskOutcome) := []
  reversed : Bool := false
  /-- Tasks that are never reported. -/
  ignored : List String := []
  /-- Further events, each with the number of the dispatch before whose reports it comes;
  zero is before the run. -/
  events : List (Nat × Event) := []
  hangUpAfter : Option Nat := none
  refusedAt : Option Nat := none
  refusesCancel : Bool := false
deriving Repr

/-- What a rehearsal was asked to do. -/
inductive Request where
  | spawn (tasks : List String)
  | cancelAll
deriving DecidableEq, Repr

/-- A rehearsal in progress. -/
structure Rehearsal where
  script : Script
  /-- The events to deliver, the next one first. -/
  queue : List Event
  dispatches : Nat := 0
  hasHungUp : Bool := false
  /-- The requests so far, in order. -/
  requests : List Request := []
deriving Repr

namespace Script

def eventsAfter (script : Script) (dispatch : Nat) : List Event :=
  (script.events.filter (·.1 = dispatch)).map (·.2)

def outcomeOf (script : Script) (task : String) : TaskOutcome :=
  (script.outcomes.lookup task).getD .success

def reports (script : Script) (tasks : List String) : List Event :=
  let reported := (if script.reversed then tasks.reverse else tasks).filter
    fun task => decide (task ∉ script.ignored)
  reported.map fun task => .completed (.task task) (script.outcomeOf task)

/-- The rehearsal of a script, before the run. -/
def rehearse (script : Script) : Rehearsal := { script, queue := script.eventsAfter 0 }

end Script

namespace Rehearsal

def spawn (tasks : List String) (rehearsal : Rehearsal) : Except String Unit × Rehearsal :=
  let number := rehearsal.dispatches + 1
  let asked :=
    { rehearsal with
      dispatches := number
      requests := rehearsal.requests ++ [.spawn tasks] }
  if rehearsal.script.refusedAt = some number then (.error "scripted spawn failure", asked)
  else if rehearsal.hasHungUp then (.ok (), asked)
  else
    (.ok (),
      { asked with
        queue := rehearsal.queue ++ rehearsal.script.eventsAfter number ++
          rehearsal.script.reports tasks
        hasHungUp := decide (rehearsal.script.hangUpAfter = some number) })

def receive (rehearsal : Rehearsal) : Delivery × Rehearsal :=
  match rehearsal.queue with
  | event :: rest => (.event event, { rehearsal with queue := rest })
  | [] => (if rehearsal.hasHungUp then .hungUp else .silent, rehearsal)

def cancelAll (rehearsal : Rehearsal) : Except String Unit × Rehearsal :=
  (if rehearsal.script.refusesCancel then .error "scripted cancel failure" else .ok (),
    { rehearsal with requests := rehearsal.requests ++ [.cancelAll] })

end Rehearsal

def Rehearsal.executor : Executor Rehearsal where
  spawn := Rehearsal.spawn
  receive := Rehearsal.receive
  cancelAll := Rehearsal.cancelAll

/-- Run an execution on a rehearsal. A script delivers its further events and at most one
report for every scheduled item, which bounds the number of rounds. -/
def rehearse (script : Script) (label : WorkItem → String) (maxWorkers : Nat)
    (execution : Execution) (locks : LockTable) : Conclusion × Run Rehearsal :=
  Run.go Rehearsal.executor label maxWorkers
    (script.events.length + execution.schedule.nodes.length + 1)
    { execution, locks, executor := script.rehearse }

end TaskPlanner.Dispatch
