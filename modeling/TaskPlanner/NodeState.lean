/-!
# States of scheduled items

What became of an item in an execution, and what executing it came to.
-/

set_option autoImplicit false

namespace TaskPlanner

/-- What executing one item came to. -/
inductive TaskOutcome where
  | success
  | failed (code : Int)
deriving DecidableEq, Repr, Inhabited

def TaskOutcome.isSuccess : TaskOutcome → Bool
  | success => true
  | failed _ => false

/-- What happens to the rest of a plan once an item fails. -/
inductive FailurePolicy where
  /-- Nothing new starts, except finalizers of items that were executed. -/
  | stop
  | proceed
deriving DecidableEq, Repr, Inhabited

/-- The policy of a plan that does or does not continue on failure. -/
def FailurePolicy.ofContinue : Bool → FailurePolicy
  | true => proceed
  | false => stop

/-- The state of an item in an execution. -/
inductive NodeState where
  | waiting
  | running
  | succeeded
  /-- Executed, and failed with this exit code. -/
  | failed (code : Int)
  /-- Not executed because a dependency failed or there was nothing to finalize. -/
  | skipped
  /-- Not executed because the execution stopped early. -/
  | notRun
deriving DecidableEq, Repr, Inhabited

namespace NodeState

def isTerminal : NodeState → Bool
  | waiting | running => false
  | succeeded | failed _ | skipped | notRun => true

def isExecuted : NodeState → Bool
  | succeeded | failed _ => true
  | waiting | running | skipped | notRun => false

def isFailure : NodeState → Bool
  | failed _ => true
  | _ => false

/-- Whether the execution came to an end without performing the work. -/
def isLeftOut : NodeState → Bool
  | skipped | notRun => true
  | _ => false

def ofOutcome : TaskOutcome → NodeState
  | .success => succeeded
  | .failed code => failed code

end NodeState

end TaskPlanner
