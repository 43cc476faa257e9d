import TaskPlanner.Execution

/-!
# Summaries

The final state of every public item under its display name, in the order of the
schedule.
-/

set_option autoImplicit false

namespace TaskPlanner

/-- Display names with states. -/
structure Summary where
  results : List (String × NodeState) := []
deriving DecidableEq, Repr, Inhabited

namespace Summary

def namesWhere (summary : Summary) (accepted : NodeState → Bool) : List String :=
  (summary.results.filter fun result => accepted result.2).map (·.1)

def succeeded (summary : Summary) : List String :=
  summary.namesWhere fun state => decide (state = .succeeded)

def failed (summary : Summary) : List String := summary.namesWhere NodeState.isFailure

def skipped (summary : Summary) : List String := summary.namesWhere NodeState.isLeftOut

def allSucceeded (summary : Summary) : Bool :=
  summary.results.all fun result => decide (result.2 = .succeeded)

/-- The state of the first item with the given display name. -/
def stateOf? (summary : Summary) (name : String) : Option NodeState :=
  summary.results.lookup name

end Summary

def Execution.summary (execution : Execution) : Summary :=
  { results := (execution.schedule.items.filter WorkItem.isPublic).map fun item =>
      (item.displayName, execution.state item) }

end TaskPlanner
