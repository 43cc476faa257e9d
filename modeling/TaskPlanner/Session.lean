import TaskPlanner.Execution.Drain
import TaskPlanner.Plan.Submission

/-!
# Sessions

A session is one plan with all executions that were ever made of it. The plan can be
closed and used again while its earlier executions go on; all executions share one
table of locks. While the plan is finalized, its execution is the last of the session.
-/

set_option autoImplicit false

namespace TaskPlanner

/-- A plan with its executions. -/
structure Session where
  plan : Plan
  /-- All executions, the oldest first. -/
  executions : List Execution := []
  locks : LockTable := {}

namespace Session

/-- Hand the plan out for execution. The answer is the number of the execution; a plan that
was handed out already keeps its execution. -/
def finalize (session : Session) : Except PlanError Nat × Session :=
  if session.plan.isFinalized then (.ok (session.executions.length - 1), session)
  else
    let attempt := session.plan.finalize
    match attempt.result with
    | .error error => (.error error, { session with plan := attempt.plan })
    | .ok schedule =>
        let execution := Execution.start attempt.plan.name schedule
          (.ofContinue attempt.plan.continueOnFailure) attempt.plan.handlers
        (.ok session.executions.length,
          { session with
            plan := attempt.plan
            executions := session.executions ++ [execution] })

/-- Make the plan empty. Its execution, if it has one, is stopped, and what that execution
has run will not run again. -/
def close (session : Session) : Session :=
  match session.plan.isFinalized, session.executions.getLast? with
  | true, some execution =>
      { session with
        plan := session.plan.close execution.executedItems
        executions := session.executions.dropLast ++ [execution.close] }
  | _, _ => { session with plan := session.plan.close [] }

/-- Hand out the next item of an execution; `none` if there is no such execution. -/
def select (session : Session) (number : Nat) : Option (Selection × Session) :=
  session.executions[number]?.map fun execution =>
    let (selection, selected, locks) := execution.select session.locks
    (selection, { session with executions := session.executions.set number selected, locks })

/-- Report the outcome of an item to an execution; `none` if there is no such execution. -/
def finish (session : Session) (number : Nat) (item : WorkItem) (outcome : TaskOutcome) :
    Option (Except PlanError (List Notification) × Session) :=
  session.executions[number]?.map fun execution =>
    match execution.finish? session.locks item outcome with
    | none => (.error (.notPlanned (session.plan.catalog.label item)), session)
    | some (finished, locks, notifications) =>
        (.ok notifications,
          { session with executions := session.executions.set number finished, locks })

/-- Run an execution to its end, one item after the other; `none` if there is no such
execution. -/
def drain (session : Session) (number : Nat) (outcomeOf : ScheduledNode → TaskOutcome) :
    Option (Drained × Session) :=
  session.executions[number]?.map fun execution =>
    let drained := execution.drain session.locks outcomeOf
    (drained,
      { session with
        executions := session.executions.set number drained.execution
        locks := drained.locks })

def stop (session : Session) (number : Nat) : Session :=
  { session with executions := session.executions.modify number Execution.close }

end Session

end TaskPlanner
