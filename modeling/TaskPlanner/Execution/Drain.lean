import TaskPlanner.Execution

/-!
# Draining

The simplest way to run an execution: hand out one item after the other, and finish each
at once.
-/

set_option autoImplicit false

namespace TaskPlanner

/-- An execution that was drained. -/
structure Drained where
  execution : Execution
  locks : LockTable
  /-- The nodes that ran, in order. -/
  ran : List ScheduledNode := []
  notifications : List Notification := []
  /-- Whether every item had reached a final state in the end. -/
  isFinished : Bool := false

namespace Execution

/-- Select and finish for at most the given number of items. -/
def drainSteps (outcomeOf : ScheduledNode → TaskOutcome) : Nat → Drained → Drained
  | 0, drained => drained
  | steps + 1, drained =>
      match drained.execution.select drained.locks with
      | (.ready node, execution, locks) =>
          let (finished, released, notifications) :=
            execution.finishNode locks node (outcomeOf node)
          drainSteps outcomeOf steps
            { drained with
              execution := finished
              locks := released
              ran := drained.ran ++ [node]
              notifications := drained.notifications ++ notifications }
      | (.waiting, execution, locks) => { drained with execution, locks }
      | (.finished, execution, locks) => { drained with execution, locks, isFinished := true }

/-- Select and finish until nothing is ready. No item is handed out twice, which bounds the
number of steps. -/
def drain (execution : Execution) (locks : LockTable)
    (outcomeOf : ScheduledNode → TaskOutcome) : Drained :=
  drainSteps outcomeOf (execution.schedule.nodes.length + 1) { execution, locks }

end Execution

end TaskPlanner
