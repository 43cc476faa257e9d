import TaskPlanner.Resolver

/-!
# What can go wrong with a plan

Errors are causes; `PlanError.message` is the one place that words them.
-/

set_option autoImplicit false

namespace TaskPlanner

/-- A cycle among items, as it was found. -/
inductive CycleReport where
  /-- Each item depends on the next one, and the last is the first again. -/
  | path (items : List WorkItem)
  | component (items : List WorkItem)
  /-- Only `placed` of `total` items could be put in order. -/
  | incomplete (placed total : Nat)
deriving DecidableEq, Repr

def CycleReport.message : CycleReport → String
  | path items => String.intercalate " -> " (items.map (·.displayName))
  | component items =>
      "nodes " ++ String.intercalate ", " (items.map (·.displayName)) ++
        " depend on each other through dependency or finalizer relationships"
  | incomplete placed total =>
      "only " ++ toString placed ++ " of " ++ toString total ++ " nodes could be ordered"

/-- Why an operation on a plan, or on an execution of one, was refused. -/
inductive PlanError where
  /-- The plan or execution does not hold the named task or numbered item. -/
  | notPlanned (name : String)
  | unknownTask (name : String)
  | cycle (report : CycleReport)
  /-- The relations of `item` could not be told. -/
  | unresolved (item : WorkItem) (fault : ResolutionFault)
  | alreadyFinalized
  | alreadyScheduled
  /-- Nothing runs and nothing can start, though work is left. -/
  | noProgress
  | executor (text : String)
deriving DecidableEq, Repr

def PlanError.message : PlanError → String
  | notPlanned name =>
      "Task is not part of the execution plan, no dependency information is available: " ++ name
  | unknownTask name => "Unknown task: " ++ name
  | cycle report => "Dependency cycle detected: " ++ report.message
  | unresolved item fault =>
      "Could not resolve dependencies of " ++ item.displayName ++ ": " ++ fault.message
  | alreadyFinalized => "The execution plan has already been finalized"
  | alreadyScheduled => "This execution plan already has nodes scheduled"
  | noProgress => "no node is running and none can start; the plan cannot make progress"
  | executor text => text

end TaskPlanner
